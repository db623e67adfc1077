import LedgerExport.Proofs.Reply.Tags

/-! # White space in one scan

Three replacements take white space before line breaks away, then the line breaks, and turn tabs
into spaces; a fourth takes white space before tags away. Here they are compared with one scan over
the maximal runs of white space. A run ends at a character that is none, and none of the
replacements reaches over such a character, so that the proofs go from one run to the next.
-/
namespace LedgerExport.Reply
open Text

/-- Every maximal run of white space, the empty ones between other characters too, gives way to what
`f` makes of it and of the text behind it. -/
def mapRuns (f : Text → Text → Text) (t : Text) : Text :=
  match _h : t.dropWhile isBlank with
  | [] => f t []
  | c :: cs => f (t.takeWhile isBlank) (c :: cs) ++ c :: mapRuns f cs
termination_by t.length
decreasing_by
  have hle := (List.dropWhile_suffix isBlank (l := t)).length_le
  rw [_h] at hle
  exact hle

/-- What follows the last line break of a run, or the whole run, with spaces for its tabs. -/
def cleanRun (w : Text) : Text := (afterBreak w).map fun c => if c = '\t' then ' ' else c

def BreaksAfter (t : Text) (k : Nat) : Prop :=
  ∃ w rest, w ≠ [] ∧ AllBlank w ∧ t = w ++ (lineBreak ++ rest) ∧ k = w.length + 2

section Scan
variable {f : Text → Text → Text} {w r : Text} {c : Char}

theorem mapRuns_blank (hw : AllBlank w) : mapRuns f w = f w [] := by
  have hdrop : w.dropWhile isBlank = [] := List.dropWhile_eq_nil_iff.mpr hw
  rw [mapRuns]
  split
  · rfl
  · next h => exact absurd (hdrop.symm.trans h).symm (List.cons_ne_nil _ _)

theorem mapRuns_append_cons (hw : AllBlank w) (hc : isBlank c = false) (r : Text) :
    mapRuns f (w ++ c :: r) = f w (c :: r) ++ c :: mapRuns f r := by
  have hr : Solid (c :: r) := solid_cons hc
  have htake := takeWhile_append_solid hw hr
  have hdrop := dropWhile_append_solid hw hr
  rw [mapRuns]
  split
  · next h => exact absurd (hdrop.symm.trans h) (List.cons_ne_nil c r)
  · next h =>
    obtain ⟨rfl, rfl⟩ := List.cons.inj (hdrop.symm.trans h)
    rw [htake]

theorem clean_run (hw : AllBlank w) : clean w = cleanRun w := by
  rw [clean, collapse_blank hw, cleanRun]

theorem clean_run_append (hw : AllBlank w) (hc : isBlank c = false) (r : Text) :
    clean (w ++ c :: r) = cleanRun w ++ c :: clean r := by
  rw [clean_append_cons hc, clean_run hw]

theorem allBlank_cleanRun (hw : AllBlank w) : AllBlank (cleanRun w) := by
  rw [← clean_run hw]
  exact hw.clean

/-- White space goes before a tag and stays before everything else. -/
theorem replaceBy_blankBeforeTag_append (hw : AllBlank w) (hc : isBlank c = false) (r : Text) :
    replaceBy blankBeforeTag (w ++ c :: r) =
      (if startsWith ['<', 'F'] (c :: r) then [] else w) ++ c :: replaceBy blankBeforeTag r := by
  by_cases h : ['<', 'F'] <+: c :: r
  · rw [startsWith_iff.mpr h, if_pos rfl, List.nil_append]
    obtain ⟨s, hs⟩ := h
    obtain ⟨rfl, rfl⟩ := List.cons.inj hs
    have hF : replaceBy blankBeforeTag ('F' :: s) = 'F' :: replaceBy blankBeforeTag s :=
      replaceBy_cons_none (blankBeforeTag_of_solid (by decide))
    exact (replaceBy_blankBeforeTag_cut hw s).trans (congrArg ('<' :: ·) hF.symm)
  · rw [startsWith_eq_false_iff.mpr h, if_neg Bool.false_ne_true,
      replaceBy_blankBeforeTag_run hw (solid_cons hc) h,
      replaceBy_cons_none (blankBeforeTag_of_solid hc)]

theorem replaceBy_blankBeforeTag_blank (hw : AllBlank w) : replaceBy blankBeforeTag w = w := by
  have h := replaceBy_blankBeforeTag_run hw solid_nil (by decide)
  rw [replaceBy_nil, List.append_nil] at h
  exact h

end Scan

theorem clean_eq_mapRuns (t : Text) : clean t = mapRuns (fun run _ => cleanRun run) t := by
  induction t using run_induction with
  | run w hw => rw [mapRuns_blank hw, clean_run hw]
  | step w c r hw hc ih => rw [mapRuns_append_cons hw hc, ← ih, clean_run_append hw hc]

theorem replaceBy_blankBeforeTag_eq_mapRuns (t : Text) :
    replaceBy blankBeforeTag t =
      mapRuns (fun run rest => if startsWith ['<', 'F'] rest then [] else run) t := by
  induction t using run_induction with
  | run w hw =>
    rw [mapRuns_blank hw, replaceBy_blankBeforeTag_blank hw]
    rfl
  | step w c r hw hc ih =>
    rw [mapRuns_append_cons hw hc, ← ih, replaceBy_blankBeforeTag_append hw hc]

/-- Whether a run stands before a tag is seen in the cleaned text, where white space inside a tag
may be gone. -/
theorem replaceBy_blankBeforeTag_clean (t : Text) :
    replaceBy blankBeforeTag (clean t) = mapRuns
      (fun run rest => if startsWith ['<', 'F'] (clean rest) then [] else cleanRun run) t := by
  induction t using run_induction with
  | run w hw =>
    rw [mapRuns_blank hw, clean_run hw, replaceBy_blankBeforeTag_blank (allBlank_cleanRun hw)]
    rfl
  | step w c r hw hc ih =>
    have hhead : clean (c :: r) = c :: clean r := clean_append_cons hc [] r
    rw [mapRuns_append_cons hw hc, ← ih, clean_run_append hw hc,
      replaceBy_blankBeforeTag_append (allBlank_cleanRun hw) hc, hhead]

example : replaceBy blankBeforeTag (clean "\t<\r\nF01>".toList) = "<F01>".toList := by decide

section Greedy

theorem length_le_of_beforeLastBreak {a rest : Text} {k : Nat}
    (h : beforeLastBreak (a ++ (lineBreak ++ rest)) = some k) : a.length ≤ k := by
  induction a generalizing k with
  | nil => exact Nat.zero_le k
  | cons c cs ih =>
    cases hcs : beforeLastBreak (cs ++ (lineBreak ++ rest)) with
    | none =>
      have hn := beforeLastBreak_eq_none_iff.mp hcs
      exact absurd ⟨cs, rest, List.append_assoc _ _ _⟩ hn
    | some j =>
      have hj := ih hcs
      rw [List.cons_append, beforeLastBreak, hcs] at h
      obtain rfl := Option.some.inj h
      exact Nat.succ_le_succ hj

theorem breaksAfter_cons_iff {c : Char} {cs : Text} {k : Nat} :
    BreaksAfter (c :: cs) k ↔ isBlank c = true ∧
      ∃ a rest, cs.takeWhile isBlank = a ++ (lineBreak ++ rest) ∧ k = a.length + 3 := by
  constructor
  · rintro ⟨w, rest, hne, hw, ht, rfl⟩
    obtain ⟨d, a, rfl⟩ := List.exists_cons_of_ne_nil hne
    rw [List.cons_append, List.cons_eq_cons] at ht
    obtain ⟨rfl, rfl⟩ := ht
    have hbreak : AllBlank lineBreak := by decide
    refine ⟨hw c List.mem_cons_self, a, rest.takeWhile isBlank, ?_, rfl⟩
    rw [List.takeWhile_append_of_pos hw.tail, List.takeWhile_append_of_pos hbreak]
  · rintro ⟨hc, a, rest, hrun, rfl⟩
    have hcs := List.takeWhile_append_dropWhile (p := isBlank) (l := cs)
    refine ⟨c :: a, rest ++ cs.dropWhile isBlank, List.cons_ne_nil c a, ?_, ?_, rfl⟩
    · intro d hd
      rcases List.mem_cons.mp hd with rfl | hd
      · exact hc
      · have hmem : d ∈ cs.takeWhile isBlank := hrun ▸ List.mem_append_left _ hd
        exact List.mem_takeWhile_imp hmem
    · rw [List.cons_append, ← List.append_assoc lineBreak, ← List.append_assoc a, ← hrun, hcs]

theorem BreaksAfter.blankBeforeBreak_ne_none {t : Text} {k : Nat} (h : BreaksAfter t k) :
    blankBeforeBreak t ≠ none := by
  cases t with
  | nil =>
    obtain ⟨w, rest, -, -, ht, -⟩ := h
    simp [lineBreak] at ht
  | cons c cs =>
    obtain ⟨hc, a, rest, hrun, -⟩ := breaksAfter_cons_iff.mp h
    intro hnone
    rw [blankBeforeBreak, if_pos hc, Option.map_eq_none_iff, beforeLastBreak_eq_none_iff] at hnone
    exact hnone ⟨a, rest, by rw [hrun, List.append_assoc]⟩

/-- What the rule matches is the longest text of its pattern. -/
theorem blankBeforeBreak_greatest {t out : Text} {n : Nat}
    (h : blankBeforeBreak t = some (n, out)) :
    out = [] ∧ BreaksAfter t (n + 1) ∧ ∀ k, BreaksAfter t k → k ≤ n + 1 := by
  cases t with
  | nil => exact absurd h (by simp [blankBeforeBreak])
  | cons c cs =>
    rw [blankBeforeBreak] at h
    split at h
    · next hc =>
      obtain ⟨m, hm, heq⟩ := Option.map_eq_some_iff.mp h
      obtain ⟨rfl, rfl⟩ := Prod.mk.inj heq
      obtain ⟨a, rest, hrun, rfl, -⟩ := beforeLastBreak_eq_some hm
      refine ⟨rfl, breaksAfter_cons_iff.mpr ⟨hc, a, rest, hrun, rfl⟩, ?_⟩
      intro k hk
      obtain ⟨-, b, rest', hrun', rfl⟩ := breaksAfter_cons_iff.mp hk
      rw [hrun'] at hm
      have hle := length_le_of_beforeLastBreak hm
      omega
    · exact absurd h (by simp)

/-- The first replacement takes the longest match: of all the ways to read white space and a line
break at the head of a text, the one that ends last. -/
theorem blankBeforeBreak_eq_some_iff {t out : Text} {n : Nat} :
    blankBeforeBreak t = some (n, out) ↔
      out = [] ∧ BreaksAfter t (n + 1) ∧ ∀ k, BreaksAfter t k → k ≤ n + 1 := by
  constructor
  · exact blankBeforeBreak_greatest
  · rintro ⟨rfl, hbreak, hmax⟩
    obtain ⟨⟨m, out⟩, hm⟩ := Option.ne_none_iff_exists'.mp hbreak.blankBeforeBreak_ne_none
    obtain ⟨rfl, hbreak', hmax'⟩ := blankBeforeBreak_greatest hm
    have h₁ := hmax _ hbreak'
    have h₂ := hmax' _ hbreak
    rw [hm, show m = n by omega]

end Greedy

/-- The first replacement takes the longest match, and together the replacements do what one scan
over the runs of white space does. They leave neither a line break nor a tab. -/
theorem stripBreaks_scan (t : Text) :
    (∀ n out, blankBeforeBreak t = some (n, out) ↔
      out = [] ∧ BreaksAfter t (n + 1) ∧ ∀ k, BreaksAfter t k → k ≤ n + 1) ∧
    stripBreaks t = mapRuns (fun run _ => cleanRun run) t ∧
    ¬ lineBreak <:+: stripBreaks t ∧ '\t' ∉ stripBreaks t ∧
    replaceBy blankBeforeTag t =
      mapRuns (fun run rest => if startsWith ['<', 'F'] rest then [] else run) t ∧
    replaceBy blankBeforeTag (stripBreaks t) = mapRuns (fun run rest =>
      if startsWith ['<', 'F'] (stripBreaks rest) then [] else cleanRun run) t := by
  have hstrip : stripBreaks = clean := funext stripBreaks_eq_clean
  rw [hstrip]
  refine ⟨fun n out => blankBeforeBreak_eq_some_iff, clean_eq_mapRuns t, not_infix_clean t,
    tab_not_mem_clean t, replaceBy_blankBeforeTag_eq_mapRuns t, ?_⟩
  exact replaceBy_blankBeforeTag_clean t

end LedgerExport.Reply
