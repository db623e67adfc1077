import LedgerExport.Text.Encoding
import LedgerExport.Proofs.Text.Replacement
import Mathlib.Data.List.Find

/-! # Entities and separators

Reading entities back does not look past a character that no entity uses, and it writes none of
them. So the texts between such separators are read on their own, and separators are neither lost
nor made.
-/
namespace LedgerExport.Text

def Plain (m : Char) : Prop := ∀ e ∈ entities, m ∉ e.1 ∧ m ≠ e.2

instance (m : Char) : Decidable (Plain m) := by unfold Plain; infer_instance

theorem entityRule_eq_some {t out : Text} {n : Nat} (h : entityRule t = some (n, out)) :
    ∃ e ∈ entities, e.1 <+: t ∧ n = e.1.length - 1 ∧ out = [e.2] := by
  obtain ⟨e, he, heq⟩ := Option.map_eq_some_iff.mp h
  obtain ⟨rfl, rfl⟩ := Prod.mk.inj heq
  have hp : startsWith e.1 t = true := by simpa using List.find?_some he
  exact ⟨e, List.mem_of_find?_eq_some he, startsWith_iff.mp hp, rfl, rfl⟩

theorem entity_ne_nil : ∀ e ∈ entities, e.1 ≠ [] := by decide

/-- No entity reaches over a character that entities do not use. -/
theorem stopsAt_entityRule {m : Char} (hm : Plain m) : StopsAt m entityRule where
  blind s x _ := by
    have h : ∀ e ∈ entities, startsWith e.1 (s ++ m :: x) = startsWith e.1 s := fun e he => by
      rw [Bool.eq_iff_iff, startsWith_iff, startsWith_iff, prefix_append_cons_iff (hm e he).1]
    rw [entityRule, entityRule, List.find?_congr h]
  within s n out h := by
    obtain ⟨e, he, hp, rfl, -⟩ := entityRule_eq_some h
    have hl := hp.length_le
    have hpos := List.length_pos_iff.mpr (entity_ne_nil e he)
    omega
  none_at x := by
    cases h : entityRule (m :: x) with
    | none => rfl
    | some found =>
      obtain ⟨e, he, hp, -, -⟩ := entityRule_eq_some h
      have hp' : e.1 <+: [] := (prefix_append_cons_iff (s := []) (hm e he).1).mp hp
      exact absurd (List.prefix_nil.mp hp') (entity_ne_nil e he)

theorem unescape_append_cons {m : Char} (hm : Plain m) (a b : Text) :
    unescape (a ++ m :: b) = unescape a ++ m :: unescape b :=
  (stopsAt_entityRule hm).replaceBy_append_cons a b

theorem unescape_append_of_plain {sep : Text} (hs : ∀ m ∈ sep, Plain m) (b : Text) :
    unescape (sep ++ b) = sep ++ unescape b := by
  induction sep with
  | nil => rfl
  | cons m s ih =>
    have h := unescape_append_cons (hs m List.mem_cons_self) [] (s ++ b)
    rw [ih fun k hk => hs k (List.mem_cons_of_mem m hk)] at h
    exact h

/-- The texts on the two sides of a separator are read on their own. -/
theorem unescape_append_sep {sep : Text} (hs : ∀ m ∈ sep, Plain m) (hne : sep ≠ []) (a b : Text) :
    unescape (a ++ (sep ++ b)) = unescape a ++ (sep ++ unescape b) := by
  cases sep with
  | nil => exact absurd rfl hne
  | cons m s =>
    have hsb := unescape_append_of_plain (fun k hk => hs k (List.mem_cons_of_mem m hk)) b
    rw [List.cons_append, unescape_append_cons (hs m List.mem_cons_self), hsb, List.cons_append]

theorem unescape_flatMap {sep : Text} (hs : ∀ m ∈ sep, Plain m) (hne : sep ≠ []) (first : Text)
    (pieces : List Text) :
    unescape (first ++ pieces.flatMap (sep ++ ·)) =
      unescape first ++ (pieces.map unescape).flatMap (sep ++ ·) := by
  induction pieces generalizing first with
  | nil => simp
  | cons p ps ih =>
    rw [List.flatMap_cons, List.append_assoc, unescape_append_sep hs hne, ih p, List.map_cons,
      List.flatMap_cons, List.append_assoc]

theorem unescape_join {sep : Text} (hs : ∀ m ∈ sep, Plain m) (hne : sep ≠ [])
    (pieces : List Text) : unescape (join sep pieces) = join sep (pieces.map unescape) := by
  cases pieces with
  | nil => rfl
  | cons first rest =>
    rw [join_cons, unescape_flatMap hs hne, List.map_cons, join_cons]

theorem unescape_cons (c : Char) (cs : Text) :
    unescape (c :: cs) = c :: unescape cs ∨
      ∃ e ∈ entities, ∃ n, unescape (c :: cs) = e.2 :: unescape (cs.drop n) := by
  cases h : entityRule (c :: cs) with
  | none => exact Or.inl (replaceBy_cons_none h)
  | some found =>
    obtain ⟨n, out⟩ := found
    obtain ⟨e, he, -, -, rfl⟩ := entityRule_eq_some h
    exact Or.inr ⟨e, he, n, replaceBy_cons_some h⟩

theorem prefix_of_prefix_unescape {sep t : Text} (hs : ∀ m ∈ sep, Plain m)
    (h : sep <+: unescape t) : sep <+: t := by
  induction sep generalizing t with
  | nil => exact List.nil_prefix
  | cons m s ih =>
    cases t with
    | nil => simp [unescape] at h
    | cons c cs =>
      rcases unescape_cons c cs with hc | ⟨e, he, n, hc⟩
      · rw [hc, List.cons_prefix_cons] at h
        rw [List.cons_prefix_cons]
        exact ⟨h.1, ih (fun k hk => hs k (List.mem_cons_of_mem m hk)) h.2⟩
      · rw [hc, List.cons_prefix_cons] at h
        exact absurd h.1 (hs m List.mem_cons_self e he).2

/-- Unescaping does not bring about a text that no entity uses. -/
theorem infix_of_infix_unescape {sep : Text} (hs : ∀ m ∈ sep, Plain m) (t : Text)
    (h : sep <:+: unescape t) : sep <:+: t := by
  match t with
  | [] => exact h
  | c :: cs =>
    rcases unescape_cons c cs with hc | ⟨e, he, n, hc⟩
    · rw [hc, List.infix_cons_iff, ← hc] at h
      rcases h with h | h
      · exact (prefix_of_prefix_unescape hs h).isInfix
      · exact List.infix_cons (infix_of_infix_unescape hs cs h)
    · rw [hc, List.infix_cons_iff, ← hc] at h
      rcases h with h | h
      · exact (prefix_of_prefix_unescape hs h).isInfix
      · have hd := infix_of_infix_unescape hs (cs.drop n) h
        exact List.infix_cons (hd.trans (List.drop_suffix n cs).isInfix)
termination_by t.length

theorem unescape_append_plain {sep : Text} (hs : ∀ m ∈ sep, Plain m) (a : Text) :
    unescape (a ++ sep) = unescape a ++ sep := by
  cases sep with
  | nil => simp
  | cons m s =>
    have h := unescape_append_sep hs (List.cons_ne_nil m s) a []
    simpa [unescape] using h

/-- Reading entities back makes no separator. -/
theorem NoStart.unescape {sep t : Text} (hs : ∀ m ∈ sep, Plain m) (h : NoStart sep t) :
    NoStart sep (Text.unescape t) := by
  intro hi
  rw [← unescape_append_plain fun m hm => hs m (List.mem_of_mem_dropLast hm)] at hi
  exact h (infix_of_infix_unescape hs _ hi)

/-- Every piece is read on its own, whether the text is split before or after. -/
theorem splitOn_unescape {sep : Text} (hs : ∀ m ∈ sep, Plain m) (hne : sep ≠ []) (t : Text) :
    splitOn sep (unescape t) = (splitOn sep t).map unescape := by
  induction t using split_induction hne with
  | last a ha =>
    have hu : ¬ sep <:+: unescape a := fun h => ha (infix_of_infix_unescape hs a h)
    rw [splitOn_eq_singleton hu, splitOn_eq_singleton ha, List.map_singleton]
  | piece a rest ha ih =>
    have hread : unescape (a ++ sep ++ rest) = unescape a ++ sep ++ unescape rest := by
      rw [List.append_assoc, unescape_append_sep hs hne, ← List.append_assoc]
    rw [hread, splitOn_append hne (ha.unescape hs), splitOn_append hne ha, List.map_cons, ih]

theorem unescape_eq_nil_iff {t : Text} : unescape t = [] ↔ t = [] := by
  cases t with
  | nil => simp [unescape]
  | cons c cs => rcases unescape_cons c cs with h | ⟨e, -, n, h⟩ <;> simp [h]

/-- Unescaping keeps the end of a text if no entity uses the character there. -/
theorem suffix_unescape_iff {m : Char} (hm : Plain m) (t : Text) :
    [m] <:+ unescape t ↔ [m] <:+ t := by
  constructor
  · intro h
    match t with
    | [] => exact h
    | c :: cs =>
      rcases unescape_cons c cs with hc | ⟨e, he, n, hc⟩
      · rw [hc, List.suffix_cons_iff] at h
        rw [List.suffix_cons_iff]
        refine h.imp (fun heq => ?_) (suffix_unescape_iff hm cs).mp
        obtain ⟨rfl, hcs⟩ := List.cons.inj heq
        rw [unescape_eq_nil_iff.mp hcs.symm]
      · rw [hc, List.suffix_cons_iff] at h
        rcases h with heq | h
        · exact absurd (List.cons.inj heq).1 (hm e he).2
        · have hd := (suffix_unescape_iff hm (cs.drop n)).mp h
          exact hd.trans ((List.drop_suffix n cs).trans (List.suffix_cons c cs))
  · rintro ⟨a, rfl⟩
    exact ⟨unescape a, (unescape_append_plain (by simpa using hm) a).symm⟩
termination_by t.length

theorem escapeChar_entity : ∀ e ∈ entities, escapeChar e.2 = e.1 := by decide

theorem escapeChar_of_ne {c : Char} (hc : ∀ e ∈ entities, c ≠ e.2) : escapeChar c = [c] := by
  have h : ¬ ∃ e ∈ entities, c = e.2 := fun ⟨e, he, heq⟩ => hc e he heq
  unfold escapeChar
  split
  all_goals first | rfl | exact absurd (by decide) h

/-- Only the five characters are written as entities. -/
theorem escapeChar_cases (c : Char) :
    escapeChar c = [c] ∨ ∃ e ∈ entities, c = e.2 ∧ escapeChar c = e.1 := by
  by_cases h : ∃ e ∈ entities, c = e.2
  · obtain ⟨e, he, rfl⟩ := h
    exact Or.inr ⟨e, he, rfl, escapeChar_entity e he⟩
  · exact Or.inl (escapeChar_of_ne fun e he heq => h ⟨e, he, heq⟩)

theorem escape_entity_cons {e : Text × Char} (he : e ∈ entities) (cs : Text) :
    escape (e.2 :: cs) = e.1 ++ escape cs := by
  rw [escape, List.flatMap_cons, escapeChar_entity e he, escape]

theorem escape_cons_of_ne {c : Char} (hc : ∀ e ∈ entities, c ≠ e.2) (cs : Text) :
    escape (c :: cs) = c :: escape cs := by
  rw [escape, List.flatMap_cons, escapeChar_of_ne hc, List.singleton_append, escape]

/-- A text is gone through character by character, those that are written as entities apart. -/
@[elab_as_elim]
theorem entity_induction {motive : Text → Prop} (t : Text) (nil : motive [])
    (entity : ∀ e ∈ entities, ∀ cs, motive cs → motive (e.2 :: cs))
    (other : ∀ c cs, (∀ e ∈ entities, c ≠ e.2) → motive cs → motive (c :: cs)) : motive t := by
  induction t with
  | nil => exact nil
  | cons c cs ih =>
    by_cases h : ∃ e ∈ entities, c = e.2
    · obtain ⟨e, he, rfl⟩ := h
      exact entity e he cs ih
    · exact other c cs (fun e he heq => h ⟨e, he, heq⟩) ih

theorem entity_eq_cons : ∀ e ∈ entities, e.1 = '&' :: e.1.tail := by decide

/-- What an entity stands for is read, and reading goes on behind it. -/
theorem unescape_entity_append {e : Text × Char} (he : e ∈ entities) (x : Text) :
    unescape (e.1 ++ x) = e.2 :: unescape x := by
  have hrule : ∀ e ∈ entities, entityRule (e.1 ++ x) = some (e.1.length - 1, [e.2]) := by
    simp only [entities, List.forall_mem_cons]
    exact ⟨rfl, rfl, rfl, rfl, rfl, List.forall_mem_nil _⟩
  have hcons : e.1 ++ x = '&' :: (e.1.tail ++ x) := by
    rw [← List.cons_append, ← entity_eq_cons e he]
  have h := hrule e he
  rw [hcons] at h ⊢
  rw [unescape, replaceBy_cons_some h, ← List.length_tail, List.drop_left]
  rfl

theorem unescape_cons_of_ne {c : Char} (hc : c ≠ '&') (x : Text) :
    unescape (c :: x) = c :: unescape x := by
  refine replaceBy_cons_none ?_
  cases h : entityRule (c :: x) with
  | none => rfl
  | some found =>
    obtain ⟨e, he, hp, -, -⟩ := entityRule_eq_some h
    rw [entity_eq_cons e he, List.cons_prefix_cons] at hp
    exact absurd hp.1.symm hc

theorem unescape_escape (t : Text) : unescape (escape t) = t := by
  induction t using entity_induction with
  | nil => rfl
  | entity e he cs ih => rw [escape_entity_cons he, unescape_entity_append he, ih]
  | other c cs hc ih =>
    have hamp : c ≠ '&' := hc ("&amp;".toList, '&') (by decide)
    rw [escape_cons_of_ne hc, unescape_cons_of_ne hamp, ih]

theorem escape_injective : Function.Injective escape :=
  Function.LeftInverse.injective unescape_escape

/-- A text without the five characters is written in one way only. -/
theorem prefix_escape_iff {p t : Text} (hp : ∀ c ∈ p, ∀ e ∈ entities, c ≠ e.2) :
    p <+: escape t ↔ p <+: t := by
  induction t using entity_induction generalizing p with
  | nil => rfl
  | entity e he cs ih =>
    cases p with
    | nil => simp
    | cons a ps =>
      have ha := hp a List.mem_cons_self
      rw [escape_entity_cons he, entity_eq_cons e he, List.cons_append, List.cons_prefix_cons,
        List.cons_prefix_cons]
      have hne : a ≠ '&' := ha ("&amp;".toList, '&') (by decide)
      exact ⟨fun h => absurd h.1 hne, fun h => absurd h.1 (ha e he)⟩
  | other c cs hc ih =>
    cases p with
    | nil => simp
    | cons a ps =>
      rw [escape_cons_of_ne hc, List.cons_prefix_cons, List.cons_prefix_cons,
        ih fun d hd => hp d (List.mem_cons_of_mem a hd)]

/-- Writing entities makes no occurrence of such a text and hides none. -/
theorem infix_escape_iff {m : Char} {p t : Text} (hm : Plain m)
    (hp : ∀ c ∈ m :: p, ∀ e ∈ entities, c ≠ e.2) : m :: p <:+: escape t ↔ m :: p <:+: t := by
  induction t using entity_induction with
  | nil => rfl
  | entity e he cs ih =>
    have hne : ¬ m :: p <+: e.2 :: cs := fun h =>
      (hm e he).2 (List.cons_prefix_cons.mp h).1
    rw [escape_entity_cons he, infix_append_iff_of_head (hm e he).1, ih, List.infix_cons_iff]
    exact ⟨Or.inr, fun h => h.resolve_left hne⟩
  | other c cs hc ih =>
    have hpre : m :: p <+: escape (c :: cs) ↔ m :: p <+: c :: cs := prefix_escape_iff hp
    rw [escape_cons_of_ne hc] at hpre ⊢
    rw [List.infix_cons_iff, List.infix_cons_iff, hpre, ih]

/-- A text without markup characters is the escaped form of no text but itself. -/
theorem escape_eq_iff {w t : Text} (hw : ∀ c ∈ w, ∀ e ∈ entities, c ≠ e.2) :
    escape t = w ↔ t = w := by
  induction t using entity_induction generalizing w with
  | nil => exact Iff.rfl
  | entity e he cs ih =>
    rw [escape_entity_cons he, entity_eq_cons e he, List.cons_append]
    cases w with
    | nil => simp
    | cons a ws =>
      have ha := hw a List.mem_cons_self
      have hne : '&' ≠ a := (ha ("&amp;".toList, '&') (by decide)).symm
      rw [List.cons_eq_cons, List.cons_eq_cons]
      exact ⟨fun h => absurd h.1 hne, fun h => absurd h.1 (ha e he).symm⟩
  | other c cs hc ih =>
    rw [escape_cons_of_ne hc]
    cases w with
    | nil => simp
    | cons a ws =>
      rw [List.cons_eq_cons, List.cons_eq_cons, ih fun d hd => hw d (List.mem_cons_of_mem a hd)]

end LedgerExport.Text
