import LedgerExport.Proofs.Text.Entity
import Mathlib.Logic.Function.Iterate

/-! # Escaped texts

Escaping and reading entities back are inverse to each other between all texts and the escaped ones.
Which texts are escaped is told by their characters alone. Behind a character or an entity at the
head of an escaped text there is an escaped text again, and all proofs go along these steps.
-/
namespace LedgerExport.Text

/-- No angle bracket and no quote stands in the text, and every ampersand begins an entity. -/
structure Escaped (t : Text) : Prop where
  bare : ∀ m ∈ ['<', '>', '"', '\''], m ∉ t
  begun : ∀ s, '&' :: s <:+ t → ∃ e ∈ ["&amp;", "&lt;", "&gt;", "&quot;", "&apos;"],
    e.toList <+: '&' :: s

theorem exists_entity_iff {p : Text → Prop} :
    (∃ e ∈ ["&amp;", "&lt;", "&gt;", "&quot;", "&apos;"], p e.toList) ↔ ∃ e ∈ entities, p e.1 := by
  simp [entities]

theorem entity_bare : ∀ e ∈ entities, ∀ m ∈ ['<', '>', '"', '\''], m ∉ e.1 := by
  simp [entities]

theorem mem_entities_iff {c : Char} :
    (∃ e ∈ entities, c = e.2) ↔ c = '&' ∨ c ∈ ['<', '>', '"', '\''] := by
  simp [entities]

theorem suffix_append_iff_of_head {m : Char} {s a b : Text} (ha : m ∉ a) :
    m :: s <:+ a ++ b ↔ m :: s <:+ b := by
  induction a with
  | nil => rfl
  | cons c cs ih =>
    have hc : m ≠ c := List.ne_of_not_mem_cons ha
    rw [List.cons_append, List.suffix_cons_iff, ih (List.not_mem_of_not_mem_cons ha)]
    constructor
    · intro h
      exact h.resolve_left fun heq => hc (List.cons.inj heq).1
    · exact Or.inr

theorem escaped_nil : Escaped [] where
  bare := by simp
  begun s h := by simp at h

theorem escaped_cons_iff {c : Char} (hc : ∀ e ∈ entities, c ≠ e.2) (cs : Text) :
    Escaped (c :: cs) ↔ Escaped cs := by
  have hamp : '&' ∉ [c] := by
    have h := hc ("&amp;".toList, '&') (by simp [entities])
    simpa using h.symm
  have hsuffix (s : Text) : '&' :: s <:+ c :: cs ↔ '&' :: s <:+ cs :=
    suffix_append_iff_of_head (b := cs) hamp
  constructor
  · intro h
    refine ⟨fun m hm => List.not_mem_of_not_mem_cons (h.bare m hm), fun s hs => ?_⟩
    exact h.begun s ((hsuffix s).mpr hs)
  · intro h
    refine ⟨?_, fun s hs => h.begun s ((hsuffix s).mp hs)⟩
    intro m hm
    have hmc : m ≠ c := by
      rintro rfl
      obtain ⟨e, he, heq⟩ := mem_entities_iff.mpr (Or.inr hm)
      exact hc e he heq
    exact List.not_mem_cons_of_ne_of_not_mem hmc (h.bare m hm)

theorem escaped_entity_append_iff {e : Text × Char} (he : e ∈ entities) (x : Text) :
    Escaped (e.1 ++ x) ↔ Escaped x := by
  have htail : '&' ∉ e.1.tail := by
    have hall : ∀ e ∈ entities, '&' ∉ e.1.tail := by decide
    exact hall e he
  have hcons : e.1 ++ x = '&' :: (e.1.tail ++ x) := by
    rw [← List.cons_append, ← entity_eq_cons e he]
  constructor
  · intro h
    refine ⟨fun m hm hx => h.bare m hm (List.mem_append_right e.1 hx), fun s hs => ?_⟩
    exact h.begun s (hs.trans (List.suffix_append e.1 x))
  · intro h
    constructor
    · intro m hm
      exact List.not_mem_append (entity_bare e he m hm) (h.bare m hm)
    · intro s hs
      rw [hcons, List.suffix_cons_iff, suffix_append_iff_of_head htail] at hs
      rcases hs with heq | hs
      · rw [exists_entity_iff (p := fun p => p <+: '&' :: s)]
        exact ⟨e, he, x, by rw [heq, hcons]⟩
      · exact h.begun s hs

theorem escaped_escape (s : Text) : Escaped (escape s) := by
  induction s using entity_induction with
  | nil => exact escaped_nil
  | entity e he cs ih =>
    rw [escape_entity_cons he]
    exact (escaped_entity_append_iff he _).mpr ih
  | other c cs hc ih =>
    rw [escape_cons_of_ne hc]
    exact (escaped_cons_iff hc _).mpr ih

/-- An ampersand at the head of an escaped text begins an entity, with an escaped text behind it. -/
theorem Escaped.of_amp_cons {s : Text} (h : Escaped ('&' :: s)) :
    ∃ e ∈ entities, ∃ rest, '&' :: s = e.1 ++ rest ∧ Escaped rest := by
  have hbegun := h.begun s (List.suffix_refl _)
  rw [exists_entity_iff (p := fun p => p <+: '&' :: s)] at hbegun
  obtain ⟨e, he, rest, hrest⟩ := hbegun
  refine ⟨e, he, rest, hrest.symm, ?_⟩
  rw [← hrest] at h
  exact (escaped_entity_append_iff he rest).mp h

/-- An escaped text is written again as it was. -/
theorem Escaped.escape_unescape {t : Text} (h : Escaped t) : escape (unescape t) = t := by
  match t with
  | [] => rfl
  | c :: cs =>
    by_cases hamp : c = '&'
    · subst hamp
      obtain ⟨e, he, rest, heq, hrest⟩ := h.of_amp_cons
      have hlt : rest.length < cs.length + 1 := by
        have hlen := congrArg List.length heq
        have hpos := List.length_pos_iff.mpr (entity_ne_nil e he)
        rw [List.length_cons, List.length_append] at hlen
        omega
      have ih := hrest.escape_unescape
      rw [heq, unescape_entity_append he, escape_entity_cons he, ih]
    · have hne : ∀ e ∈ entities, c ≠ e.2 := by
        intro e he heq
        have hm := (mem_entities_iff.mp ⟨e, he, heq⟩).resolve_left hamp
        exact h.bare c hm List.mem_cons_self
      have ih := ((escaped_cons_iff hne cs).mp h).escape_unescape
      rw [unescape_cons_of_ne hamp, escape_cons_of_ne hne, ih]
termination_by t.length

/-- Escaping and reading entities back are inverse to each other on the escaped texts, and reading
back takes one of several escapings away. -/
theorem escape_unescape_inverse :
    (∀ s, unescape (escape s) = s ∧ Escaped (escape s)) ∧
      (∀ t, escape (unescape t) = t ↔ Escaped t) ∧
      Function.Injective escape ∧
      ∀ n s, unescape (escape^[n + 1] s) = escape^[n] s := by
  refine ⟨fun s => ⟨unescape_escape s, escaped_escape s⟩, fun t => ⟨?_, ?_⟩, escape_injective, ?_⟩
  · intro h
    rw [← h]
    exact escaped_escape (unescape t)
  · exact Escaped.escape_unescape
  · intro n s
    rw [Function.iterate_succ_apply', unescape_escape]

end LedgerExport.Text
