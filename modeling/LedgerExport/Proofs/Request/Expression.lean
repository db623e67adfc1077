import LedgerExport.Proofs.Request.Tree

/-! # Expressions of method references

A reference has letters, digits, underscores and perhaps two dots in it. A template is made of fixed
texts with references between them, and neither the dollar before a reference nor the blank behind
it can be part of one. So a template shows which reference was fitted in, and for which kind of
field, and brings no mark into the markup around it. The main statement is
`expressions_unambiguous`.
-/
namespace LedgerExport.Request
open Text

def WordChar (c : Char) : Prop :=
  ('A' ≤ c ∧ c ≤ 'Z') ∨ ('a' ≤ c ∧ c ≤ 'z') ∨ ('0' ≤ c ∧ c ≤ '9') ∨ c = '_'

instance (c : Char) : Decidable (WordChar c) :=
  inferInstanceAs (Decidable (_ ∨ _ ∨ _ ∨ c = '_'))

/-- At least one word character, and before them two dots or nothing. -/
inductive Refers : Text → Prop
  | here {word : Text} : word ≠ [] → (∀ c ∈ word, WordChar c) → Refers word
  | above {word : Text} : word ≠ [] → (∀ c ∈ word, WordChar c) → Refers ('.' :: '.' :: word)

/-- A kind whose expressions are the references themselves. -/
def Verbatim (kind : FieldKind) : Prop := kind = .raw ∨ kind = .unknown

instance (kind : FieldKind) : Decidable (Verbatim kind) :=
  inferInstanceAs (Decidable (kind = .raw ∨ kind = .unknown))

section References
variable {t : Text}

theorem isWordChar_iff {c : Char} : isWordChar c = true ↔ WordChar c := by
  have hupper : c.isUpper = decide ('A' ≤ c ∧ c ≤ 'Z') := rfl
  have hlower : c.isLower = (decide ('a' ≤ c) && decide (c ≤ 'z')) := rfl
  have hdigit : c.isDigit = (decide ('0' ≤ c) && decide (c ≤ '9')) := rfl
  have hword : isWordChar c = (c.isUpper || c.isLower || c.isDigit || c == '_') := rfl
  rw [hword, hupper, hlower, hdigit]
  simp only [Bool.or_eq_true, Bool.and_eq_true, decide_eq_true_eq, beq_iff_eq, WordChar, or_assoc]

theorem after_dots_eq_none (h : ∀ c ∈ t, WordChar c) : after? "..".toList t = none := by
  cases hdots : after? "..".toList t with
  | none => rfl
  | some w =>
    rw [after?_eq_some_iff.mp hdots] at h
    exact absurd (h '.' List.mem_cons_self) (by decide)

/-- The check is the language of method references. -/
theorem isMethodReference_iff : isMethodReference t = true ↔ Refers t := by
  have hword (w : Text) : (!w.isEmpty && w.all isWordChar) = true ↔
      w ≠ [] ∧ ∀ c ∈ w, WordChar c := by
    simp only [Bool.and_eq_true, Bool.not_eq_true', List.isEmpty_eq_false_iff, List.all_eq_true,
      isWordChar_iff]
  rw [isMethodReference, hword]
  constructor
  · rintro ⟨hne, hall⟩
    cases hdots : after? "..".toList t with
    | none =>
      rw [hdots] at hne hall
      exact .here hne hall
    | some w =>
      rw [hdots] at hne hall
      rw [after?_eq_some_iff.mp hdots]
      exact .above hne hall
  · rintro (⟨hne, hall⟩ | @⟨w, hne, hall⟩)
    · rw [after_dots_eq_none hall]
      exact ⟨hne, hall⟩
    · have hdots : after? "..".toList ('.' :: '.' :: w) = some w := after?_append "..".toList w
      rw [hdots]
      exact ⟨hne, hall⟩

theorem Refers.not_mem (h : Refers t) {c : Char} (hc : ¬ (WordChar c ∨ c = '.')) : c ∉ t := by
  intro hm
  cases h with
  | here _ hall => exact hc (Or.inl (hall c hm))
  | above _ hall =>
    rcases List.mem_cons.mp hm with hdot | hm
    · exact hc (Or.inr hdot)
    · rcases List.mem_cons.mp hm with hdot | hm
      · exact hc (Or.inr hdot)
      · exact hc (Or.inl (hall c hm))

theorem Refers.ne_nil (h : Refers t) : t ≠ [] := by
  cases h with
  | here hne _ => exact hne
  | above _ _ => exact List.cons_ne_nil _ _

end References

section Frames
variable {j k : FieldKind}

def frame : FieldKind → List Text
  | .text => [[], []]
  | .logical => ["if ".toList, " then 1 else 0".toList]
  | .date => ["if $$IsEmpty:".toList,
      " then $$StrByCharCode:241 else $$PyrlYYYYMMDDFormat:".toList, ":\"-\"".toList]
  | .number => ["if $$IsEmpty:".toList, " then \"0\" else $$String:".toList, []]
  | .amount => ["$$StringFindAndReplace:(if $$IsDebit:".toList, " then -$$NumValue:".toList,
      " else $$NumValue:".toList, "):\"(-)\":\"-\"".toList]
  | .quantity => ["$$StringFindAndReplace:(if $$IsInwards:".toList,
      " then $$Number:$$String:".toList, ":\"TailUnits\" else -$$Number:$$String:".toList,
      ":\"TailUnits\"):\"(-)\":\"-\"".toList]
  | .rate => ["if $$IsEmpty:".toList, " then 0 else $$Number:".toList, []]
  | .raw | .unknown => []

theorem template_of_verbatim (h : Verbatim k) (f : Text) : template k f = f := by
  rcases h with rfl | rfl
  · rfl
  · rfl

/-- A template is made of fixed texts with the reference between them. -/
theorem template_eq_join (h : ¬ Verbatim k) (f : Text) :
    template k f = join ('$' :: f) (frame k) := by
  have two (a b : Text) : join ('$' :: f) [a, b] = a ++ '$' :: f ++ b := by
    simp [join_cons]
  have three (a b c : Text) :
      join ('$' :: f) [a, b, c] = a ++ '$' :: f ++ b ++ '$' :: f ++ c := by
    simp [join_cons]
  have four (a b c d : Text) :
      join ('$' :: f) [a, b, c, d] = a ++ '$' :: f ++ b ++ '$' :: f ++ c ++ '$' :: f ++ d := by
    simp [join_cons]
  cases k with
  | text => rw [frame, two, List.append_nil]; rfl
  | logical => exact (two _ _).symm
  | date => exact (three _ _ _).symm
  | number => rw [frame, three, List.append_nil]; rfl
  | amount => exact (four _ _ _ _).symm
  | quantity => exact (four _ _ _ _).symm
  | rate => rw [frame, three, List.append_nil]; rfl
  | raw => exact absurd (Or.inl rfl) h
  | unknown => exact absurd (Or.inr rfl) h

/-- A template has no characters of its own that would be marks of the markup or of a
placeholder. -/
theorem not_mem_template {c : Char} (hc : c ∈ ['<', '>', '&', '{']) {f : Text} (hf : c ∉ f) :
    c ∉ template k f := by
  have hframe : ∀ c ∈ ['<', '>', '&', '{'], c ≠ '$' ∧ ∀ p ∈ frame k, c ∉ p := by
    cases k <;> exact forall_mem_of_all (by decide)
  by_cases h : Verbatim k
  · rwa [template_of_verbatim h]
  · rw [template_eq_join h]
    refine not_mem_join ?_ (hframe c hc).2
    rw [List.mem_cons, not_or]
    exact ⟨(hframe c hc).1, hf⟩

def lead (kind : FieldKind) : Text := (frame kind).headD []

def follow (kind : FieldKind) (f : Text) : Text :=
  match frame kind with
  | _ :: second :: more => second ++ more.flatMap (('$' :: f) ++ ·)
  | _ => []

theorem template_eq_lead (h : ¬ Verbatim k) (f : Text) :
    template k f = lead k ++ '$' :: (f ++ follow k f) := by
  have hframe : ∃ first second more, frame k = first :: second :: more := by
    cases k with
    | raw => exact absurd (Or.inl rfl) h
    | unknown => exact absurd (Or.inr rfl) h
    | _ => exact ⟨_, _, _, rfl⟩
  obtain ⟨first, second, more, hframe⟩ := hframe
  rw [template_eq_join h, lead, follow, hframe, join_cons, List.flatMap_cons, List.headD_cons,
    List.append_assoc, List.cons_append]

theorem follow_cases (k : FieldKind) (f : Text) :
    follow k f = [] ∨ ∃ rest, follow k f = ' ' :: rest := by
  cases k with
  | text => exact Or.inl rfl
  | raw => exact Or.inl rfl
  | unknown => exact Or.inl rfl
  | _ => exact Or.inr ⟨_, rfl⟩

/-- The character by which kinds with the same lead differ. -/
def turn (kind : FieldKind) : Option Char := ((frame kind).getD 1 [])[6]?

theorem follow_turn (k : FieldKind) (f : Text) : (follow k f)[6]? = turn k := by
  cases k <;> rfl

theorem kind_eq_of_lead (hj : ¬ Verbatim j) (hk : ¬ Verbatim k) (hlead : lead j = lead k)
    (hturn : turn j = turn k) : j = k := by
  revert hj hk hlead hturn
  cases j <;> cases k <;> decide

/-- Where one lead could go on like another one, it has a second dollar. -/
theorem lead_eq_or_dollar (hj : ¬ Verbatim j) (hk : ¬ Verbatim k)
    (h : lead j ++ ['$'] <+: lead k ++ ['$']) :
    lead j = lead k ∨ (lead k ++ ['$'])[(lead j).length + 1]? = some '$' := by
  revert hj hk h
  cases j <;> cases k <;> decide

/-- A lead does not go on where another one has its dollar. -/
theorem lead_eq_of_length_le (hj : ¬ Verbatim j) (hk : ¬ Verbatim k) {x y : Text}
    (hl : (lead j).length ≤ (lead k).length) (hx : x.head? ≠ some '$')
    (h : lead j ++ '$' :: x = lead k ++ '$' :: y) : lead j = lead k := by
  have hpre : lead j ++ ['$'] <+: lead j ++ '$' :: x := by
    rw [List.prefix_append_right_inj]
    exact ⟨x, rfl⟩
  have hpre' : lead k ++ ['$'] <+: lead j ++ '$' :: x := by
    rw [h, List.prefix_append_right_inj]
    exact ⟨y, rfl⟩
  have hlen : (lead j ++ ['$']).length ≤ (lead k ++ ['$']).length := by
    rw [List.length_append, List.length_append]
    exact Nat.add_le_add_right hl 1
  rcases lead_eq_or_dollar hj hk (List.prefix_of_prefix_length_le hpre hpre' hlen) with heq | hd
  · exact heq
  · obtain ⟨r, hr⟩ := hpre'
    have hlt := (List.getElem?_eq_some_iff.mp hd).1
    have hlong : (lead k ++ ['$'] ++ r)[(lead j).length + 1]? = some '$' := by
      rw [List.getElem?_append_left hlt, hd]
    rw [hr, List.getElem?_append_right (Nat.le_add_right _ 1)] at hlong
    rw [Nat.add_sub_cancel_left, List.getElem?_cons_succ, ← List.head?_eq_getElem?] at hlong
    exact absurd hlong hx

end Frames

section Templates
variable {j k : FieldKind} {f g : Text}

def SameTemplate (j k : FieldKind) : Prop := j = k ∨ Verbatim j ∧ Verbatim k

theorem Refers.head?_append (h : Refers f) (rest : Text) : (f ++ rest).head? ≠ some '$' := by
  intro hd
  rw [List.head?_append_of_ne_nil _ h.ne_nil] at hd
  exact h.not_mem (by decide) (List.mem_of_mem_head? hd)

/-- A reference ends where a blank follows it. -/
theorem Refers.takeWhile_follow (h : Refers f) (k : FieldKind) (x : Text) :
    (f ++ follow k x).takeWhile (· != ' ') = f := by
  have hall : ∀ c ∈ f, (c != ' ') = true := by
    intro c hc
    rw [bne_iff_ne]
    rintro rfl
    exact h.not_mem (by decide) hc
  rw [List.takeWhile_append_of_pos hall]
  rcases follow_cases k x with heq | ⟨rest, heq⟩
  · rw [heq, List.takeWhile_nil, List.append_nil]
  · rw [heq, List.takeWhile_cons_of_neg (by decide), List.append_nil]

theorem dollar_mem_template (h : ¬ Verbatim k) (f : Text) : '$' ∈ template k f := by
  rw [template_eq_lead h]
  exact List.mem_append_right _ List.mem_cons_self

theorem SameTemplate.template_eq (h : SameTemplate j k) (f : Text) :
    template j f = template k f := by
  rcases h with rfl | ⟨hj, hk⟩
  · rfl
  · rw [template_of_verbatim hj, template_of_verbatim hk]

/-- A template shows its reference and its kind. -/
theorem template_inj (hf : Refers f) (hg : Refers g) :
    template j f = template k g ↔ f = g ∧ SameTemplate j k := by
  have hdollar {x : Text} (hx : Refers x) : '$' ∉ x := hx.not_mem (by decide)
  constructor
  · intro h
    by_cases hj : Verbatim j
    · by_cases hk : Verbatim k
      · rw [template_of_verbatim hj, template_of_verbatim hk] at h
        exact ⟨h, Or.inr ⟨hj, hk⟩⟩
      · rw [template_of_verbatim hj] at h
        exact absurd (h ▸ dollar_mem_template hk g) (hdollar hf)
    · by_cases hk : Verbatim k
      · rw [template_of_verbatim hk] at h
        exact absurd (h ▸ dollar_mem_template hj f) (hdollar hg)
      · rw [template_eq_lead hj, template_eq_lead hk] at h
        have hlead : lead j = lead k := by
          rcases Nat.le_total (lead j).length (lead k).length with hl | hl
          · exact lead_eq_of_length_le hj hk hl (hf.head?_append _) h
          · exact (lead_eq_of_length_le hk hj hl (hg.head?_append _) h.symm).symm
        rw [hlead] at h
        have hrest : f ++ follow j f = g ++ follow k g :=
          (List.cons.inj (List.append_cancel_left h)).2
        have hfg : f = g := by
          rw [← hf.takeWhile_follow j f, hrest, hg.takeWhile_follow k g]
        subst hfg
        have hturn : turn j = turn k := by
          rw [← follow_turn j f, List.append_cancel_left hrest, follow_turn k f]
        exact ⟨rfl, Or.inl (kind_eq_of_lead hj hk hlead hturn)⟩
  · rintro ⟨rfl, h⟩
    exact h.template_eq f

end Templates

/-- The expressions of method references tell apart what they are made from, and the markup around
them holds. -/
theorem expressions_unambiguous :
    (∀ t, isMethodReference t = true ↔ Refers t) ∧
    (∀ f g : Field, isMethodReference f.source = true → isMethodReference g.source = true →
      (valueExpression f = valueExpression g ↔
        f.source = g.source ∧ SameTemplate f.kind g.kind)) ∧
    ∀ f : Field, isMethodReference f.source = true →
      (∀ c ∈ "<>&".toList, c ∉ valueExpression f) ∧
        ∀ n, Reads (fieldPieces f n) [] [fieldElement f n] := by
  have hmarks (f : Field) (hf : isMethodReference f.source = true) :
      ∀ c ∈ "<>&".toList, c ∉ valueExpression f := by
    have hplain : ∀ c ∈ "<>&".toList, c ∈ ['<', '>', '&', '{'] ∧ ¬ (WordChar c ∨ c = '.') :=
      forall_mem_of_all (by decide)
    intro c hc
    obtain ⟨hmark, hword⟩ := hplain c hc
    rw [valueExpression, if_pos hf]
    exact not_mem_template hmark ((isMethodReference_iff.mp hf).not_mem hword)
  refine ⟨fun t => isMethodReference_iff, ?_, ?_⟩
  · intro f g hf hg
    rw [valueExpression, valueExpression, if_pos hf, if_pos hg]
    exact template_inj (isMethodReference_iff.mp hf) (isMethodReference_iff.mp hg)
  · intro f hf
    refine ⟨hmarks f hf, ?_⟩
    intro n
    exact reads_field (hmarks f hf '<' (by decide)) n

/-- Two columns over the parent's date: one as a date and one as it is. -/
theorem expressions_parentDate :
    valueExpression ⟨"day".toList, "..Date".toList, .date⟩ ≠
      valueExpression ⟨"when".toList, "..Date".toList, .unknown⟩ := by
  intro h
  have hsame := ((expressions_unambiguous.2.1 _ _ (by decide) (by decide)).mp h).2
  exact absurd hsame (by unfold SameTemplate; decide)

end LedgerExport.Request
