import LedgerExport.Text.Basic
import Mathlib.Data.List.Infix

/-! # Replacing and splitting, piece by piece

A rule that can only apply at one character passes over any text without it, and a match leaves the
rest of the text to be replaced on its own. Splitting takes a text apart at the first separator, so
that pieces in which no separator begins come back as they were put together.
-/
namespace LedgerExport.Text

theorem startsWith_iff {p t : Text} : startsWith p t = true ↔ p <+: t := by
  rw [startsWith, Option.isSome_iff_exists]
  constructor
  · rintro ⟨rest, h⟩
    exact ⟨rest, (after?_eq_some_iff.mp h).symm⟩
  · rintro ⟨rest, rfl⟩
    exact ⟨rest, after?_append p rest⟩

theorem startsWith_eq_false_iff {p t : Text} : startsWith p t = false ↔ ¬ p <+: t := by
  rw [← Bool.not_eq_true, startsWith_iff]

theorem contains_iff {p t : Text} : contains p t = true ↔ p <:+: t := by
  induction t with
  | nil => simp [contains]
  | cons c cs ih => rw [contains, Bool.or_eq_true, startsWith_iff, ih, List.infix_cons_iff]

theorem forall_mem_of_all {P : Char → Prop} [DecidablePred P] {t : Text}
    (h : t.all (fun c => P c) = true) : ∀ c ∈ t, P c :=
  fun c hc => of_decide_eq_true (List.all_eq_true.mp h c hc)

/-- What stands before the first `m` is settled by the text. -/
theorem append_cons_inj {m : Char} {a b r s : Text} (ha : m ∉ a) (hb : m ∉ b)
    (h : a ++ m :: r = b ++ m :: s) : a = b ∧ r = s := by
  induction a generalizing b with
  | nil =>
    cases b with
    | nil => exact ⟨rfl, (List.cons.inj h).2⟩
    | cons d ds => exact absurd (List.cons.inj h).1 (List.ne_of_not_mem_cons hb)
  | cons c cs ih =>
    cases b with
    | nil => exact absurd (List.cons.inj h).1.symm (List.ne_of_not_mem_cons ha)
    | cons d ds =>
      obtain ⟨hcd, ht⟩ := List.cons.inj h
      obtain ⟨hs, hr⟩ := ih (List.not_mem_of_not_mem_cons ha) (List.not_mem_of_not_mem_cons hb) ht
      exact ⟨by rw [hcd, hs], hr⟩

/-- Occurrences do not reach over a character that they do not use. -/
theorem infix_append_cons_iff {p a b : Text} {c : Char} (hc : c ∉ p) :
    p <:+: a ++ c :: b ↔ p <:+: a ∨ p <:+: b := by
  constructor
  · rintro ⟨u, v, h⟩
    rcases List.append_eq_append_iff.mp h with ⟨as, rfl, -⟩ | ⟨bs, hu, hb⟩
    · exact Or.inl ⟨u, as, rfl⟩
    · rcases List.cons_eq_append_iff.mp hb with ⟨rfl, -⟩ | ⟨bs', rfl, rfl⟩
      · exact Or.inl ⟨u, [], by simpa using hu⟩
      · rcases List.append_eq_append_iff.mp hu with ⟨as, rfl, rfl⟩ | ⟨cs, rfl, hcs⟩
        · exact absurd (by simp) hc
        · rcases List.cons_eq_append_iff.mp hcs with ⟨rfl, rfl⟩ | ⟨cs', rfl, rfl⟩
          · exact absurd List.mem_cons_self hc
          · exact Or.inr ⟨cs', v, rfl⟩
  · rintro (h | h)
    · exact h.trans (List.prefix_append a _).isInfix
    · exact h.trans ((List.suffix_cons c b).trans (List.suffix_append a _)).isInfix

/-- A text without the first character of the pattern takes no part in an occurrence that ends
behind it. -/
theorem infix_append_iff_of_head {m : Char} {p a b : Text} (ha : m ∉ a) :
    m :: p <:+: a ++ b ↔ m :: p <:+: b := by
  induction a with
  | nil => rfl
  | cons c cs ih =>
    have hc : m ≠ c := List.ne_of_not_mem_cons ha
    rw [List.cons_append, List.infix_cons_iff, List.cons_prefix_cons,
      ih (List.not_mem_of_not_mem_cons ha)]
    exact ⟨fun h => h.resolve_left fun hp => hc hp.1, Or.inr⟩

theorem suffix_append_cons_iff {m c : Char} (hc : c ≠ m) (a b : Text) :
    [m] <:+ a ++ c :: b ↔ [m] <:+ b := by
  rw [List.singleton_suffix_iff_getLast?_eq_some, List.singleton_suffix_iff_getLast?_eq_some]
  cases hb : b.getLast? with
  | none =>
    obtain rfl := List.getLast?_eq_none_iff.mp hb
    simpa using hc
  | some d => simp [List.getLast?_append, List.getLast?_cons, hb]

def AppliesAt (m : Char) (rule : Rule) : Prop :=
  ∀ c cs, c ≠ m → rule (c :: cs) = none

theorem appliesAt_literal (m : Char) (p out : Text) : AppliesAt m (literal (m :: p) out) := by
  intro c cs hc
  simp [literal, startsWith, after?, hc.symm]

section Rules
variable {rule : Rule} {m : Char}

theorem replaceBy_append (hr : AppliesAt m rule) {t : Text} (ht : m ∉ t) (x : Text) :
    replaceBy rule (t ++ x) = t ++ replaceBy rule x := by
  induction t with
  | nil => rfl
  | cons c cs ih =>
    have hc := List.ne_of_not_mem_cons ht
    have hcs := List.not_mem_of_not_mem_cons ht
    rw [List.cons_append, replaceBy_cons_none (hr c _ (Ne.symm hc)), ih hcs, List.cons_append]

/-- A match of `g` at the head is replaced and the rest is left to itself. -/
theorem replaceBy_match {g : Text} (hg : g ≠ []) {rest out : Text}
    (h : rule (g ++ rest) = some (g.length - 1, out)) :
    replaceBy rule (g ++ rest) = out ++ replaceBy rule rest := by
  cases g with
  | nil => exact absurd rfl hg
  | cons c cs =>
    rw [List.cons_append] at h ⊢
    rw [replaceBy_cons_some h]
    simp

/-- A character where the rule does not apply stays, and so does what follows it up to the next
`m`. -/
theorem replaceBy_keep (hr : AppliesAt m rule) {c : Char} {t x : Text}
    (h : rule (c :: (t ++ x)) = none) (ht : m ∉ t) :
    replaceBy rule (c :: (t ++ x)) = c :: t ++ replaceBy rule x := by
  rw [replaceBy_cons_none h, replaceBy_append hr ht, List.cons_append]

end Rules

/-- The rule looks neither past the character `m` nor at it. -/
structure StopsAt (m : Char) (rule : Rule) : Prop where
  blind : ∀ s x, s ≠ [] → rule (s ++ m :: x) = rule s
  within : ∀ s n out, rule s = some (n, out) → n < s.length
  none_at : ∀ x, rule (m :: x) = none

/-- Replacing falls into two at a character at which the rule stops. -/
theorem StopsAt.replaceBy_append_cons {m : Char} {rule : Rule} (hr : StopsAt m rule) (a b : Text) :
    replaceBy rule (a ++ m :: b) = replaceBy rule a ++ m :: replaceBy rule b := by
  match a with
  | [] => exact replaceBy_cons_none (hr.none_at b)
  | c :: cs =>
    have hblind := hr.blind (c :: cs) b (List.cons_ne_nil c cs)
    rw [List.cons_append] at hblind
    cases h : rule (c :: cs) with
    | none =>
      rw [List.cons_append, replaceBy_cons_none (hblind.trans h), replaceBy_cons_none h,
        hr.replaceBy_append_cons cs b, List.cons_append]
    | some found =>
      obtain ⟨n, out⟩ := found
      have hn : n ≤ cs.length := Nat.le_of_lt_succ (hr.within _ _ _ h)
      rw [List.cons_append, replaceBy_cons_some (hblind.trans h), replaceBy_cons_some h,
        List.drop_append_of_le_length hn, hr.replaceBy_append_cons (cs.drop n) b,
        List.append_assoc]
termination_by a.length

theorem prefix_append_cons_iff {p s x : Text} {m : Char} (hm : m ∉ p) :
    p <+: s ++ m :: x ↔ p <+: s := by
  constructor
  · intro h
    by_cases hl : p.length ≤ s.length
    · exact List.prefix_of_prefix_length_le h (List.prefix_append s _) hl
    · have hs : s ++ [m] <+: p := by
        refine List.prefix_of_prefix_length_le ⟨x, by simp⟩ h ?_
        simp only [List.length_append, List.length_singleton]
        omega
      exact absurd (hs.subset (by simp)) hm
  · exact fun h => h.trans (List.prefix_append s _)

/-- A fixed text stops at a character that it does not hold. -/
theorem stopsAt_literal {m : Char} {p : Text} (hp : p ≠ []) (hm : m ∉ p) (out : Text) :
    StopsAt m (literal p out) where
  blind s x _ := by
    have h : startsWith p (s ++ m :: x) = startsWith p s := by
      rw [Bool.eq_iff_iff, startsWith_iff, startsWith_iff, prefix_append_cons_iff hm]
    rw [literal, literal, h]
  within s n o h := by
    rw [literal] at h
    split at h
    · next hs =>
      obtain ⟨rfl, -⟩ := Prod.mk.inj (Option.some.inj h)
      have hl := (startsWith_iff.mp hs).length_le
      have hpos := List.length_pos_iff.mpr hp
      omega
    · exact absurd h (by simp)
  none_at x := by
    rw [literal, if_neg]
    intro hs
    have hp' : p <+: [] := (prefix_append_cons_iff (s := []) hm).mp (startsWith_iff.mp hs)
    exact hp (List.prefix_nil.mp hp')

theorem replaceAll_match {p : Text} (hp : p ≠ []) (out rest : Text) :
    replaceAll p out (p ++ rest) = out ++ replaceAll p out rest := by
  refine replaceBy_match hp ?_
  rw [literal, if_pos (startsWith_iff.mpr (List.prefix_append p rest))]

theorem replaceAll_skip {p out : Text} {c : Char} {cs : Text}
    (h : ¬ p <+: c :: cs) : replaceAll p out (c :: cs) = c :: replaceAll p out cs := by
  refine replaceBy_cons_none ?_
  rw [literal, if_neg (fun hs => h (startsWith_iff.mp hs))]

theorem replaceAll_eq_self {p out t : Text} (h : ¬ p <:+: t) : replaceAll p out t = t := by
  induction t with
  | nil => rfl
  | cons c cs ih =>
    rw [List.infix_cons_iff, not_or] at h
    rw [replaceAll_skip h.1, ih h.2]

theorem replaceAll_singleton (a b : Char) (t : Text) :
    replaceAll [a] [b] t = t.map fun c => if c = a then b else c := by
  induction t with
  | nil => rfl
  | cons c cs ih =>
    by_cases hc : c = a
    · subst hc
      rw [show c :: cs = [c] ++ cs from rfl, replaceAll_match (List.cons_ne_nil c []), ih]
      simp
    · have hp : ¬ [a] <+: c :: cs := by
        rw [List.cons_prefix_cons]
        exact fun h => hc h.1.symm
      rw [replaceAll_skip hp, ih]
      simp [hc]

/-- A text is gone through from left to right, from one occurrence of `p` to the next. -/
@[elab_as_elim]
theorem occurrence_induction {p : Text} (hp : p ≠ []) {motive : Text → Prop} (t : Text)
    (nil : motive []) (found : ∀ rest, motive rest → motive (p ++ rest))
    (skip : ∀ c cs, ¬ p <+: c :: cs → motive cs → motive (c :: cs)) : motive t := by
  match t with
  | [] => exact nil
  | c :: cs =>
    by_cases h : p <+: c :: cs
    · obtain ⟨rest, hrest⟩ := h
      have hlen : rest.length < (c :: cs).length := by
        have hpos := List.length_pos_iff.mpr hp
        rw [← hrest, List.length_append]
        omega
      exact hrest ▸ found rest (occurrence_induction hp rest nil found skip)
    · exact skip c cs h (occurrence_induction hp cs nil found skip)
termination_by t.length
decreasing_by
  · exact hlen
  · exact Nat.lt_succ_self cs.length

theorem replaceAll_self {p : Text} (hp : p ≠ []) (t : Text) : replaceAll p p t = t := by
  induction t using occurrence_induction hp with
  | nil => rfl
  | found rest ih => rw [replaceAll_match hp, ih]
  | skip c cs h ih => rw [replaceAll_skip h, ih]

/-- Each occurrence that is replaced takes the characters of the pattern away and brings those of
the other text. -/
theorem countP_replaceAll {p : Text} (hp : p ≠ []) (out t : Text) :
    ∃ n, (n = 0 → ¬ p <:+: t) ∧ ∀ q : Char → Bool,
      (replaceAll p out t).countP q + n * p.countP q = t.countP q + n * out.countP q := by
  induction t using occurrence_induction hp with
  | nil => exact ⟨0, fun _ h => hp (List.infix_nil.mp h), fun q => by simp [replaceAll]⟩
  | found rest ih =>
    obtain ⟨n, -, hn⟩ := ih
    refine ⟨n + 1, fun h0 => absurd h0 (Nat.succ_ne_zero n), fun q => ?_⟩
    have hq := hn q
    rw [replaceAll_match hp, List.countP_append, List.countP_append, Nat.add_mul, Nat.add_mul]
    omega
  | skip c cs h ih =>
    obtain ⟨n, h0, hn⟩ := ih
    refine ⟨n, fun hz hi => ?_, fun q => ?_⟩
    · rcases List.infix_cons_iff.mp hi with hi | hi
      · exact h hi
      · exact h0 hz hi
    · have hq := hn q
      rw [replaceAll_skip h, List.countP_cons, List.countP_cons]
      omega

/-- Replacing keeps the characters of a kind if the pattern and the other text have the same
ones. -/
theorem filter_replaceAll {p out : Text} (hp : p ≠ []) {q : Char → Bool}
    (h : out.filter q = p.filter q) (t : Text) : (replaceAll p out t).filter q = t.filter q := by
  induction t using occurrence_induction hp with
  | nil => rfl
  | found rest ih => rw [replaceAll_match hp, List.filter_append, List.filter_append, h, ih]
  | skip c cs hstart ih => rw [replaceAll_skip hstart, List.filter_cons, List.filter_cons, ih]

theorem not_mem_replaceAll {p : Text} (hp : p ≠ []) {c : Char} {out t : Text} (hout : c ∉ out)
    (ht : c ∉ t) : c ∉ replaceAll p out t := by
  obtain ⟨n, -, h⟩ := countP_replaceAll hp out t
  have hcount := h (· == c)
  have hzero {x : Text} (hx : c ∉ x) : x.countP (· == c) = 0 := List.count_eq_zero_of_not_mem hx
  rw [hzero ht, hzero hout] at hcount
  exact List.count_eq_zero.mp (by rw [List.count]; omega)

theorem le_countP_replaceAll {p : Text} (hp : p ≠ []) {f : Char → Bool} (hf : p.countP f = 0)
    (out t : Text) : t.countP f ≤ (replaceAll p out t).countP f := by
  obtain ⟨n, -, hn⟩ := countP_replaceAll hp out t
  have h := hn f
  rw [hf, Nat.mul_zero] at h
  omega

/-- If no new character of a kind came in that each replacement brings, nothing was replaced. -/
theorem not_infix_of_countP_le {p : Text} (hp : p ≠ []) {f : Char → Bool} (hf : p.countP f = 0)
    {out t : Text} (ho : 0 < out.countP f) (h : (replaceAll p out t).countP f ≤ t.countP f) :
    ¬ p <:+: t := by
  obtain ⟨n, hnone, hn⟩ := countP_replaceAll hp out t
  have hcount := hn f
  rw [hf, Nat.mul_zero] at hcount
  have hzero : n * out.countP f = 0 := by omega
  exact hnone ((Nat.mul_eq_zero.mp hzero).resolve_right (Nat.pos_iff_ne_zero.mp ho))

/-- A replacement changes a text unless there is nothing to replace or the pattern takes its own
place. -/
theorem replaceAll_eq_self_iff {p : Text} (hp : p ≠ []) {out t : Text} :
    replaceAll p out t = t ↔ (p <:+: t → out = p) := by
  constructor
  · intro h hi
    obtain ⟨n, hn, hcount⟩ := countP_replaceAll hp out t
    have hpos : 0 < n := Nat.pos_of_ne_zero fun hz => hn hz hi
    have hlen : out.length = p.length := by
      have hall := hcount fun _ => true
      rw [h, List.countP_true] at hall
      exact (Nat.eq_of_mul_eq_mul_left hpos (Nat.add_left_cancel hall)).symm
    clear hn hcount
    induction t with
    | nil => exact absurd (List.infix_nil.mp hi) hp
    | cons c cs ih =>
      by_cases hstart : p <+: c :: cs
      · obtain ⟨rest, hrest⟩ := hstart
        rw [← hrest, replaceAll_match hp] at h
        exact List.append_inj_left h hlen
      · rw [replaceAll_skip hstart] at h
        exact ih (List.cons.inj h).2 ((List.infix_cons_iff.mp hi).resolve_left hstart)
  · intro h
    by_cases hi : p <:+: t
    · rw [h hi, replaceAll_self hp]
    · exact replaceAll_eq_self hi

theorem replaceFirst_match {p : Text} (hp : p ≠ []) (out rest : Text) :
    replaceFirst p out (p ++ rest) = out ++ rest := by
  cases p with
  | nil => exact absurd rfl hp
  | cons a ps =>
    have h : after? (a :: ps) (a :: (ps ++ rest)) = some rest := after?_append (a :: ps) rest
    rw [List.cons_append, replaceFirst, h]

theorem replaceFirst_skip {p out : Text} {c : Char} {cs : Text}
    (h : ¬ p <+: c :: cs) : replaceFirst p out (c :: cs) = c :: replaceFirst p out cs := by
  have hn : after? p (c :: cs) = none := by
    rw [← startsWith_iff, startsWith, Option.isSome_iff_ne_none, not_not] at h
    exact h
  rw [replaceFirst, hn]

theorem replaceFirst_eq_self {p out t : Text} (h : ¬ p <:+: t) : replaceFirst p out t = t := by
  induction t with
  | nil =>
    cases p with
    | nil => exact absurd List.nil_infix h
    | cons a ps => rfl
  | cons c cs ih =>
    rw [List.infix_cons_iff, not_or] at h
    rw [replaceFirst_skip h.1, ih h.2]

theorem replaceFirst_append {m : Char} (p out : Text) {t : Text} (ht : m ∉ t) (x : Text) :
    replaceFirst (m :: p) out (t ++ x) = t ++ replaceFirst (m :: p) out x := by
  induction t with
  | nil => rfl
  | cons c cs ih =>
    have hc := List.ne_of_not_mem_cons ht
    have hcs := List.not_mem_of_not_mem_cons ht
    have hp : ¬ m :: p <+: c :: (cs ++ x) := fun h => hc (List.cons_prefix_cons.mp h).1
    rw [List.cons_append, replaceFirst_skip hp, ih hcs, List.cons_append]

theorem splitFrom_drop (sep : Text) (n : Nat) (t : Text) :
    splitFrom sep n t = splitOn sep (t.drop n) := by
  induction t generalizing n with
  | nil => cases n <;> rfl
  | cons c cs ih =>
    cases n with
    | zero => rfl
    | succ n => simpa [splitFrom] using ih n

theorem splitOn_match {sep : Text} (hs : sep ≠ []) (rest : Text) :
    splitOn sep (sep ++ rest) = [] :: splitOn sep rest := by
  cases sep with
  | nil => exact absurd rfl hs
  | cons a s =>
    have h : startsWith (a :: s) (a :: (s ++ rest)) = true :=
      startsWith_iff.mpr (List.prefix_append (a :: s) rest)
    rw [List.cons_append, splitOn, splitFrom, if_pos h, splitFrom_drop]
    simp

theorem splitOn_skip {sep : Text} {c : Char} {cs : Text}
    (h : ¬ sep <+: c :: cs) : splitOn sep (c :: cs) = consFirst c (splitOn sep cs) := by
  rw [splitOn, splitFrom, if_neg (fun hs => h (startsWith_iff.mp hs)), splitOn]

theorem splitOn_ne_nil (sep t : Text) : splitOn sep t ≠ [] := by
  cases t with
  | nil => exact List.cons_ne_nil [] []
  | cons c cs =>
    rw [splitOn, splitFrom]
    split
    · exact List.cons_ne_nil _ _
    · cases splitFrom sep 0 cs <;> exact List.cons_ne_nil _ _

/-- No occurrence of the separator begins in the text, whatever follows it. -/
def NoStart (sep t : Text) : Prop := ¬ sep <:+: t ++ sep.dropLast

theorem NoStart.tail {sep : Text} {c : Char} {cs : Text} (h : NoStart sep (c :: cs)) :
    NoStart sep cs := fun hi => h (List.infix_cons hi)

theorem append_dropLast_prefix (sep a rest : Text) : a ++ sep.dropLast <+: a ++ sep ++ rest := by
  rw [List.append_assoc, List.prefix_append_right_inj]
  exact (List.dropLast_prefix sep).trans (List.prefix_append sep rest)

theorem NoStart.not_starts {sep : Text} {c : Char} {cs : Text} (h : NoStart sep (c :: cs))
    (x : Text) : ¬ sep <+: c :: (cs ++ sep ++ x) := by
  intro hp
  have hlong : c :: cs ++ sep.dropLast <+: c :: (cs ++ sep ++ x) :=
    append_dropLast_prefix sep (c :: cs) x
  refine h (List.prefix_of_prefix_length_le hp hlong ?_).isInfix
  simp only [List.length_append, List.length_cons, List.length_dropLast]
  omega

theorem splitOn_eq_singleton {sep t : Text} (h : ¬ sep <:+: t) :
    splitOn sep t = [t] := by
  induction t with
  | nil => rfl
  | cons c cs ih =>
    rw [List.infix_cons_iff, not_or] at h
    rw [splitOn_skip h.1, ih h.2, consFirst]

theorem splitOn_append {sep t : Text} (hs : sep ≠ []) (h : NoStart sep t) (x : Text) :
    splitOn sep (t ++ sep ++ x) = t :: splitOn sep x := by
  induction t with
  | nil => exact splitOn_match hs x
  | cons c cs ih =>
    have hp := h.not_starts x
    rw [List.cons_append, List.cons_append, splitOn_skip hp, ih h.tail, consFirst]

theorem noStart_nil {sep : Text} (hs : sep ≠ []) : NoStart sep [] := by
  intro h
  have hle := h.length_le
  have hpos := List.length_pos_iff.mpr hs
  rw [List.nil_append, List.length_dropLast] at hle
  omega

theorem exists_first_occurrence {sep t : Text} (hs : sep ≠ []) (h : sep <:+: t) :
    ∃ a rest, t = a ++ sep ++ rest ∧ NoStart sep a := by
  induction t with
  | nil => exact absurd (List.infix_nil.mp h) hs
  | cons c cs ih =>
    by_cases hstart : sep <+: c :: cs
    · obtain ⟨rest, hrest⟩ := hstart
      exact ⟨[], rest, hrest.symm, noStart_nil hs⟩
    · obtain ⟨a, rest, rfl, ha⟩ := ih ((List.infix_cons_iff.mp h).resolve_left hstart)
      -- an occurrence that begins with `c` would be one at the head of the text
      have hlong : c :: a ++ sep.dropLast <+: c :: a ++ sep ++ rest :=
        append_dropLast_prefix sep (c :: a) rest
      refine ⟨c :: a, rest, rfl, ?_⟩
      intro hi
      rcases List.infix_cons_iff.mp hi with hp | hi
      · exact hstart (hp.trans hlong)
      · exact ha hi

/-- A text without the separator, or one that begins with the piece before the first of them. -/
@[elab_as_elim]
theorem split_induction {sep : Text} (hs : sep ≠ []) {motive : Text → Prop} (t : Text)
    (last : ∀ a, ¬ sep <:+: a → motive a)
    (piece : ∀ a rest, NoStart sep a → motive rest → motive (a ++ sep ++ rest)) : motive t := by
  by_cases h : sep <:+: t
  · obtain ⟨a, rest, heq, ha⟩ := exists_first_occurrence hs h
    have hlt : rest.length < t.length := by
      have hpos := List.length_pos_iff.mpr hs
      rw [heq, List.length_append, List.length_append]
      omega
    rw [heq]
    exact piece a rest ha (split_induction hs rest last piece)
  · exact last t h
termination_by t.length

/-- Pieces with a separator before each but the first are found again. -/
theorem splitOn_flatMap {sep : Text} (hs : sep ≠ []) (first : Text) (pieces : List Text)
    (h : ∀ p ∈ first :: pieces, NoStart sep p) :
    splitOn sep (first ++ pieces.flatMap (sep ++ ·)) = first :: pieces := by
  induction pieces generalizing first with
  | nil =>
    have hf : ¬ sep <:+: first := fun hi =>
      h first List.mem_cons_self (hi.trans (List.prefix_append first _).isInfix)
    rw [List.flatMap_nil, List.append_nil, splitOn_eq_singleton hf]
  | cons p ps ih =>
    have hf : NoStart sep first := h first List.mem_cons_self
    have hps : ∀ q ∈ p :: ps, NoStart sep q := fun q hq => h q (List.mem_cons_of_mem first hq)
    rw [List.flatMap_cons, List.append_assoc, ← List.append_assoc, splitOn_append hs hf,
      ih p hps]

/-- Behind such pieces and one more separator the rest is split on its own. -/
theorem splitOn_flatMap_append {sep : Text} (hs : sep ≠ []) (first : Text) (pieces : List Text)
    (h : ∀ p ∈ first :: pieces, NoStart sep p) (x : Text) :
    splitOn sep (first ++ (pieces.flatMap (sep ++ ·) ++ (sep ++ x))) =
      first :: (pieces ++ splitOn sep x) := by
  have hf : NoStart sep first := h first List.mem_cons_self
  induction pieces generalizing first with
  | nil =>
    rw [List.flatMap_nil, List.nil_append, ← List.append_assoc, splitOn_append hs hf]
    rfl
  | cons p ps ih =>
    have hps : ∀ q ∈ p :: ps, NoStart sep q := fun q hq => h q (List.mem_cons_of_mem first hq)
    rw [List.flatMap_cons, List.append_assoc, List.append_assoc, ← List.append_assoc,
      splitOn_append hs hf, ih p hps (hps p List.mem_cons_self)]
    rfl

theorem noStart_singleton {m : Char} {t : Text} : NoStart [m] t ↔ m ∉ t := by
  simp [NoStart, List.singleton_infix_iff]

theorem join_cons (sep first : Text) (pieces : List Text) :
    join sep (first :: pieces) = first ++ pieces.flatMap (sep ++ ·) := by
  induction pieces generalizing first with
  | nil => simp [join]
  | cons p ps ih =>
    rw [List.flatMap_cons, List.append_assoc, ← ih p]
    simp [join, List.intercalate_cons_cons]

theorem join_concat (sep : Text) (pieces : List Text) (last : Text) :
    join sep (pieces ++ [last]) = pieces.flatMap (· ++ sep) ++ last := by
  induction pieces with
  | nil => simp [join]
  | cons p ps ih =>
    have hne : ps ++ [last] ≠ [] := List.append_ne_nil_of_right_ne_nil ps (by simp)
    rw [join] at ih ⊢
    rw [List.cons_append, List.intercalate_cons_of_ne_nil hne, ih, List.flatMap_cons,
      ← List.append_assoc]

theorem splitOn_join {sep : Text} (hs : sep ≠ []) {pieces : List Text} (hne : pieces ≠ [])
    (h : ∀ p ∈ pieces, NoStart sep p) : splitOn sep (join sep pieces) = pieces := by
  obtain ⟨first, rest, rfl⟩ := List.exists_cons_of_ne_nil hne
  rw [join_cons, splitOn_flatMap hs first rest h]

theorem splitOn_join_singleton {m : Char} {pieces : List Text} (hne : pieces ≠ [])
    (h : ∀ p ∈ pieces, m ∉ p) : splitOn [m] (join [m] pieces) = pieces := by
  apply splitOn_join (List.cons_ne_nil m []) hne
  intro p hp
  exact noStart_singleton.mpr (h p hp)

theorem mem_join {sep : Text} {pieces : List Text} {c : Char} (h : c ∈ join sep pieces) :
    c ∈ sep ∨ ∃ p ∈ pieces, c ∈ p := by
  cases pieces with
  | nil => simp [join] at h
  | cons first rest =>
    rw [join_cons, List.mem_append, List.mem_flatMap] at h
    rcases h with h | ⟨p, hp, h⟩
    · exact Or.inr ⟨first, List.mem_cons_self, h⟩
    · rcases List.mem_append.mp h with h | h
      · exact Or.inl h
      · exact Or.inr ⟨p, List.mem_cons_of_mem first hp, h⟩

theorem not_mem_join {sep : Text} {pieces : List Text} {c : Char} (hs : c ∉ sep)
    (h : ∀ p ∈ pieces, c ∉ p) : c ∉ join sep pieces := fun hc => by
  rcases mem_join hc with hc | ⟨p, hp, hc⟩
  · exact hs hc
  · exact h p hp hc

/-- Joining with a character that the pattern does not use makes no occurrence of it. -/
theorem infix_join_iff {p : Text} (hp : p ≠ []) {c : Char} (hc : c ∉ p) {pieces : List Text} :
    p <:+: join [c] pieces ↔ ∃ t ∈ pieces, p <:+: t := by
  induction pieces with
  | nil => simpa [join] using hp
  | cons first rest ih =>
    cases rest with
    | nil => simp [join]
    | cons q qs =>
      have hj : join [c] (first :: q :: qs) = first ++ c :: join [c] (q :: qs) := by
        simp [join, List.intercalate_cons_cons]
      rw [hj, infix_append_cons_iff hc, ih, List.exists_mem_cons_iff (a := first)]

theorem splitOn_cons_self (m : Char) (t : Text) : splitOn [m] (m :: t) = [] :: splitOn [m] t :=
  splitOn_match (List.cons_ne_nil m []) t

theorem splitOn_cons_of_ne {c m : Char} (hc : c ≠ m) (t : Text) :
    splitOn [m] (c :: t) = consFirst c (splitOn [m] t) :=
  splitOn_skip fun h => hc (List.cons_prefix_cons.mp h).1.symm

theorem splitOn_append_cons (m : Char) (a b : Text) :
    splitOn [m] (a ++ m :: b) = splitOn [m] a ++ splitOn [m] b := by
  induction a with
  | nil => exact splitOn_cons_self m b
  | cons c cs ih =>
    by_cases hc : c = m
    · subst hc
      rw [List.cons_append, splitOn_cons_self, splitOn_cons_self, ih, List.cons_append]
    · obtain ⟨first, rest, hsplit⟩ := List.exists_cons_of_ne_nil (splitOn_ne_nil [m] cs)
      rw [List.cons_append, splitOn_cons_of_ne hc, splitOn_cons_of_ne hc, ih, hsplit]
      rfl

/-- The last piece ends as the text ends. -/
theorem splitOn_append_of_not_mem {m : Char} {b : Text} (hb : m ∉ b) (a : Text) :
    ∃ pieces last, splitOn [m] (a ++ b) = pieces ++ [last ++ b] := by
  induction a with
  | nil => exact ⟨[], [], splitOn_eq_singleton (mt (List.singleton_infix_iff m b).mp hb)⟩
  | cons c cs ih =>
    obtain ⟨pieces, last, hsplit⟩ := ih
    by_cases hc : c = m
    · subst hc
      refine ⟨[] :: pieces, last, ?_⟩
      rw [List.cons_append, splitOn_cons_self, hsplit, List.cons_append]
    · rw [List.cons_append, splitOn_cons_of_ne hc, hsplit]
      cases pieces with
      | nil => exact ⟨[], c :: last, rfl⟩
      | cons piece rest => exact ⟨(c :: piece) :: rest, last, rfl⟩

theorem join_splitOn_singleton (m : Char) (t : Text) : join [m] (splitOn [m] t) = t := by
  induction t with
  | nil => rfl
  | cons c cs ih =>
    obtain ⟨first, rest, hsplit⟩ := List.exists_cons_of_ne_nil (splitOn_ne_nil [m] cs)
    rw [hsplit] at ih
    by_cases hc : c = m
    · subst hc
      rw [splitOn_cons_self, hsplit, join_cons, List.flatMap_cons, List.append_assoc, ← join_cons,
        ih]
      rfl
    · rw [splitOn_cons_of_ne hc, hsplit, consFirst, join_cons, List.cons_append, ← join_cons, ih]

theorem not_mem_of_mem_splitOn {m c : Char} (hc : c ≠ m) {t x : Text} (ht : c ∉ t)
    (hx : x ∈ splitOn [m] t) : c ∉ x := by
  intro h
  rw [← List.singleton_infix_iff] at h
  rw [← join_splitOn_singleton m t, ← List.singleton_infix_iff,
    infix_join_iff (by simp) (by simpa using hc.symm)] at ht
  exact ht ⟨x, hx, h⟩

theorem not_infix_of_mem_splitOn {sep : Text} (hs : sep ≠ []) {t x : Text}
    (hx : x ∈ splitOn sep t) : ¬ sep <:+: x := by
  induction t using split_induction hs with
  | last a ha =>
    rw [splitOn_eq_singleton ha] at hx
    obtain rfl := List.mem_singleton.mp hx
    exact ha
  | piece a rest ha ih =>
    rw [splitOn_append hs ha] at hx
    rcases List.mem_cons.mp hx with rfl | hx
    · intro hi
      exact ha (hi.trans (List.prefix_append x sep.dropLast).isInfix)
    · exact ih hx

/-- There is one piece more than there are separators. -/
theorem length_splitOn_singleton (m : Char) (t : Text) :
    (splitOn [m] t).length = t.count m + 1 := by
  have hs : [m] ≠ [] := List.cons_ne_nil m []
  induction t using split_induction hs with
  | last a ha =>
    have hcount : a.count m = 0 := List.count_eq_zero.mpr (mt (List.singleton_infix_iff m a).mpr ha)
    rw [splitOn_eq_singleton ha, hcount, List.length_singleton]
  | piece a rest ha ih =>
    have hcount : a.count m = 0 := List.count_eq_zero.mpr (noStart_singleton.mp ha)
    rw [splitOn_append hs ha, List.length_cons, ih, List.count_append, List.count_append, hcount,
      List.count_singleton_self]
    omega

/-- The pieces of a text are the only ones without the separator that make up the text. -/
theorem splitOn_singleton_eq_iff {m : Char} {t : Text} {pieces : List Text} :
    splitOn [m] t = pieces ↔ pieces ≠ [] ∧ (∀ p ∈ pieces, m ∉ p) ∧ join [m] pieces = t := by
  constructor
  · rintro rfl
    refine ⟨splitOn_ne_nil [m] t, ?_, join_splitOn_singleton m t⟩
    intro p hp
    have hsep := not_infix_of_mem_splitOn (List.cons_ne_nil m []) hp
    exact mt (List.singleton_infix_iff m p).mpr hsep
  · rintro ⟨hne, hfree, rfl⟩
    exact splitOn_join_singleton hne hfree

end LedgerExport.Text
