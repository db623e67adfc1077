import LedgerExport.Proofs.Request.Content
import LedgerExport.Request.Substitution

/-! # Placeholders and the text around them

Filling in a key neither takes the placeholder of another one away nor reaches into it, whatever
text stands around it. So a key without a value keeps its placeholder through all of a substitution
(`infix_substitute_of_unbound`), and those of the period stand in every request.
-/
namespace LedgerExport.Request
open Text

theorem placeholder_ne_nil (key : Text) : placeholder key ≠ [] := List.cons_ne_nil '{' _

/-- A placeholder is passed over when another key is filled in. -/
theorem replaceAll_other_placeholder {key other : Text} (hne : key ≠ other) (hk : '}' ∉ key)
    (ho : '{' ∉ other) (ho' : '}' ∉ other) (out x : Text) :
    replaceAll (placeholder key) out (placeholder other ++ x) =
      placeholder other ++ replaceAll (placeholder key) out x := by
  have htail : '{' ∉ other ++ ['}'] := brace_not_mem_append ho (by decide)
  refine replaceBy_keep (appliesAt_literal '{' (key ++ ['}']) out) ?_ htail
  rw [literal, if_neg]
  intro h
  obtain ⟨r, hr⟩ := startsWith_iff.mp h
  have hr' : key ++ '}' :: r = other ++ '}' :: x := by simpa using hr
  exact hne (append_cons_inj hk ho' hr').1

theorem replaceAll_placeholder_append {key x : Text} (hx : '{' ∉ x) (out y : Text) :
    replaceAll (placeholder key) out (x ++ y) = x ++ replaceAll (placeholder key) out y :=
  replaceBy_append (appliesAt_literal '{' (key ++ ['}']) out) hx y

theorem replaceAll_own_placeholder (key out x : Text) :
    replaceAll (placeholder key) out (placeholder key ++ x) =
      out ++ replaceAll (placeholder key) out x :=
  replaceAll_match (placeholder_ne_nil key) out x

/-- A key in which no brace opens or closes a placeholder. -/
def Braceless (key : Text) : Prop := '{' ∉ key ∧ '}' ∉ key

instance (key : Text) : Decidable (Braceless key) := by unfold Braceless; infer_instance

theorem braceless_of_mem_periodKeys : ∀ key ∈ periodKeys, Braceless key := by decide

section Other
variable {key other : Text} (hk : Braceless key) (ho : Braceless other) (hne : key ≠ other)
include hk ho hne

/-- The replacements before a placeholder of another key end before it. -/
theorem replaceAll_append_other_placeholder (out a b : Text) :
    replaceAll (placeholder key) out (a ++ (placeholder other ++ b)) =
      replaceAll (placeholder key) out a ++
        (placeholder other ++ replaceAll (placeholder key) out b) := by
  induction a using occurrence_induction (placeholder_ne_nil key) with
  | nil => exact replaceAll_other_placeholder hne hk.2 ho.1 ho.2 out b
  | found rest ih =>
    rw [List.append_assoc, replaceAll_own_placeholder, replaceAll_own_placeholder, ih,
      List.append_assoc]
  | skip c cs h ih =>
    -- behind its first character the pattern has no brace that could be the one of `other`
    have hskip : ¬ placeholder key <+: c :: (cs ++ (placeholder other ++ b)) := by
      intro hp
      have htail : '{' ∉ key ++ ['}'] := brace_not_mem_append hk.1 (by decide)
      obtain ⟨hc, htail'⟩ := List.cons_prefix_cons.mp hp
      exact h (List.cons_prefix_cons.mpr ⟨hc, (prefix_append_cons_iff htail).mp htail'⟩)
    rw [List.cons_append, replaceAll_skip hskip, replaceAll_skip h, ih, List.cons_append]

theorem infix_replaceAll_of_other {t : Text} (out : Text) (h : placeholder other <:+: t) :
    placeholder other <:+: replaceAll (placeholder key) out t := by
  obtain ⟨a, b, rfl⟩ := h
  rw [List.append_assoc, replaceAll_append_other_placeholder hk ho hne]
  exact ⟨_, _, List.append_assoc _ _ _⟩

end Other

theorem SubstitutionSet.get?_eq_none_iff {values : SubstitutionSet} {key : Text} :
    values.get? key = none ↔ ∀ e ∈ values.entries, e.1 ≠ key := by
  simp [get?]

/-- Every key in turn leaves the placeholder of an unbound key as it is. -/
theorem infix_substitute_of_unbound {values : SubstitutionSet} {key : Text} (hkey : Braceless key)
    (hvalues : ∀ e ∈ values.entries, Braceless e.1) (hunbound : values.get? key = none)
    {document : Text} (h : placeholder key <:+: document) :
    placeholder key <:+: substitute document values := by
  obtain ⟨entries⟩ := values
  rw [SubstitutionSet.get?_eq_none_iff] at hunbound
  rw [substitute]
  induction entries generalizing document with
  | nil => exact h
  | cons e rest ih =>
    obtain ⟨he, hrest⟩ := List.forall_mem_cons.mp hvalues
    obtain ⟨hne, hunbound⟩ := List.forall_mem_cons.mp hunbound
    exact ih (infix_replaceAll_of_other he hkey hne e.2.render h) hrest hunbound

/-! ## The period of a request -/

/-- The two ends of the period stand in fixed text without braces. -/
theorem preface_eq : ∃ x y z : Text, ('{' ∉ x ∧ '{' ∉ y ∧ '{' ∉ z) ∧
    ∀ start finish, preface start finish = x ++ (start ++ (y ++ (finish ++ z))) := by
  let before : List Piece := (periodPieces [] []).takeWhile (· ≠ .content [])
  refine ⟨declaration ++ renderPieces before,
    renderPieces [.closing "SVFROMDATE".toList, .opening "SVTODATE".toList []],
    renderPieces [.closing "SVTODATE".toList], by decide, fun start finish => ?_⟩
  have hsplit : periodPieces start finish = before ++ ([.content start] ++
      ([.closing "SVFROMDATE".toList, .opening "SVTODATE".toList []] ++
        ([.content finish] ++ [.closing "SVTODATE".toList]))) := rfl
  have hcontent (x : Text) : renderPieces [.content x] = x := List.append_nil x
  rw [preface, hsplit]
  simp only [renderPieces_append, hcontent, List.append_assoc]

theorem infix_compile_of_mem_periodKeys {key : Text} (h : key ∈ periodKeys) (t : Table)
    (company : Text) : placeholder key <:+: compile t company := by
  obtain ⟨x, y, z, -, hpre⟩ := preface_eq
  rw [compile_eq_dated, dated, hpre]
  simp only [periodKeys, List.mem_cons, List.not_mem_nil, or_false] at h
  rcases h with rfl | rfl
  · exact ⟨x, y ++ (placeholder toDateKey ++ z) ++ content t company, by simp⟩
  · exact ⟨x ++ placeholder fromDateKey ++ y, z ++ content t company, by simp⟩

end LedgerExport.Request
