import LedgerExport.Reply.Decode
import LedgerExport.Proofs.Text.Replacement
import Mathlib.Data.List.DropRight

/-! # White-space runs

The white-space replacements of a reply do what one scan over maximal runs does: a run that holds a
line break is cut back to what follows its last one, and tabs become spaces.
-/
namespace LedgerExport.Reply
open Text

def afterBreak? : Text → Option Text
  | [] => none
  | c :: cs =>
    match afterBreak? cs with
    | some rest => some rest
    | none => after? lineBreak (c :: cs)

/-- What follows the last line break of a run, and the whole run if it holds none. -/
def afterBreak (run : Text) : Text := (afterBreak? run).getD run

def collapseFrom (run : Text) : Text → Text
  | [] => afterBreak run
  | c :: cs =>
    if isBlank c then collapseFrom (run ++ [c]) cs
    else afterBreak run ++ c :: collapseFrom [] cs

/-- Every maximal run of white space gives way to what follows its last line break. -/
def collapse (t : Text) : Text := collapseFrom [] t

def clean (t : Text) : Text := (collapse t).map fun c => if c = '\t' then ' ' else c

def AllBlank (w : Text) : Prop := ∀ c ∈ w, isBlank c = true

instance (w : Text) : Decidable (AllBlank w) := List.decidableBAll (isBlank · = true) w

theorem allBlank_nil : AllBlank [] := List.forall_mem_nil _

theorem AllBlank.append {v w : Text} (hv : AllBlank v) (hw : AllBlank w) : AllBlank (v ++ w) := by
  intro c hc
  rcases List.mem_append.mp hc with h | h
  · exact hv c h
  · exact hw c h

theorem AllBlank.tail {c : Char} {cs : Text} (h : AllBlank (c :: cs)) : AllBlank cs :=
  fun d hd => h d (List.mem_cons_of_mem c hd)

/-- A text is one run of white space, or a run, another character and a text. -/
theorem run_induction {motive : Text → Prop} (run : ∀ w, AllBlank w → motive w)
    (step : ∀ w c r, AllBlank w → isBlank c = false → motive r → motive (w ++ c :: r))
    (t : Text) : motive t := by
  have hw : AllBlank (t.takeWhile isBlank) := fun c hc => List.mem_takeWhile_imp hc
  have ht := List.takeWhile_append_dropWhile (p := isBlank) (l := t)
  cases hd : t.dropWhile isBlank with
  | nil =>
    rw [hd, List.append_nil] at ht
    exact ht ▸ run _ hw
  | cons c r =>
    have hc : isBlank c = false := by
      have h := List.head_dropWhile_not isBlank (w := hd ▸ List.cons_ne_nil c r)
      simpa [hd] using h
    have hlt : r.length < t.length := by
      have hl := congrArg List.length ht
      rw [hd, List.length_append, List.length_cons] at hl
      omega
    rw [← ht, hd]
    exact step _ c r hw hc (run_induction run step r)
termination_by t.length

theorem afterBreak?_eq_none_iff {t : Text} : afterBreak? t = none ↔ ¬ lineBreak <:+: t := by
  induction t with
  | nil => simp [afterBreak?, lineBreak]
  | cons c cs ih =>
    rw [List.infix_cons_iff, not_or, ← ih, ← startsWith_iff, startsWith, afterBreak?]
    cases h : afterBreak? cs with
    | none => simp [Option.isSome_iff_ne_none]
    | some rest => simp

theorem afterBreak_eq_self {t : Text} (h : ¬ lineBreak <:+: t) : afterBreak t = t := by
  rw [afterBreak, afterBreak?_eq_none_iff.mpr h, Option.getD_none]

theorem afterBreak?_append (a : Text) {rest : Text} (h : ¬ lineBreak <:+: rest) :
    afterBreak? (a ++ (lineBreak ++ rest)) = some rest := by
  induction a with
  | nil =>
    -- only the head can begin a break: neither `rest` nor a line feed before it does
    have hn : ¬ lineBreak <:+: '\n' :: rest := by
      rw [List.infix_cons_iff, not_or]
      exact ⟨fun hp => absurd (List.cons_prefix_cons.mp hp).1 (by decide), h⟩
    have hb : lineBreak ++ rest = '\r' :: '\n' :: rest := rfl
    rw [List.nil_append, hb, afterBreak?, afterBreak?_eq_none_iff.mpr hn, ← hb, after?_append]
  | cons c cs ih => rw [List.cons_append, afterBreak?, ih]

theorem afterBreak_append (a : Text) {rest : Text} (h : ¬ lineBreak <:+: rest) :
    afterBreak (a ++ (lineBreak ++ rest)) = rest := by
  rw [afterBreak, afterBreak?_append a h, Option.getD_some]

theorem not_infix_afterBreak (t : Text) : ¬ lineBreak <:+: afterBreak t := by
  by_cases h : lineBreak <:+: t
  · induction t with
    | nil => simp [lineBreak] at h
    | cons c cs ih =>
      by_cases hcs : lineBreak <:+: cs
      · have hs : afterBreak (c :: cs) = afterBreak cs := by
          rw [← not_not (a := lineBreak <:+: cs), ← afterBreak?_eq_none_iff] at hcs
          obtain ⟨rest, hr⟩ := Option.ne_none_iff_exists'.mp hcs
          simp [afterBreak, afterBreak?, hr]
        rw [hs]
        exact ih hcs
      · obtain ⟨rest, hr⟩ := (List.infix_cons_iff.mp h).resolve_right hcs
        have hcs' : cs = '\n' :: rest := (List.cons.inj hr).2.symm
        have hrest : ¬ lineBreak <:+: rest := fun hi => hcs (hcs' ▸ List.infix_cons hi)
        rw [← hr, ← List.nil_append (lineBreak ++ rest), afterBreak_append [] hrest]
        exact hrest
  · rw [afterBreak_eq_self h]
    exact h

theorem afterBreak_suffix (t : Text) : afterBreak t <:+ t := by
  induction t with
  | nil => exact List.suffix_refl []
  | cons c cs ih =>
    cases h : afterBreak? cs with
    | some rest =>
      rw [afterBreak, h, Option.getD_some] at ih
      rw [afterBreak, afterBreak?, h, Option.getD_some]
      exact ih.trans (List.suffix_cons c cs)
    | none =>
      rw [afterBreak, afterBreak?, h]
      cases ha : after? lineBreak (c :: cs) with
      | none => exact List.suffix_refl _
      | some rest => exact ⟨lineBreak, (after?_eq_some_iff.mp ha).symm⟩

theorem collapseFrom_blank (run : Text) {w : Text} (hw : AllBlank w) (x : Text) :
    collapseFrom run (w ++ x) = collapseFrom (run ++ w) x := by
  induction w generalizing run with
  | nil => simp
  | cons c cs ih =>
    have hc : isBlank c = true := hw c List.mem_cons_self
    rw [List.cons_append, collapseFrom, if_pos hc, ih (run ++ [c]) hw.tail]
    simp

theorem collapse_blank {w : Text} (hw : AllBlank w) : collapse w = afterBreak w := by
  have h := collapseFrom_blank [] hw []
  simpa [collapse, collapseFrom] using h

/-- A character that is no white space ends the run before it. -/
theorem collapse_append_cons {c : Char} (hc : isBlank c = false) (a b : Text) :
    collapse (a ++ c :: b) = collapse a ++ c :: collapse b := by
  have h (run : Text) : collapseFrom run (a ++ c :: b) = collapseFrom run a ++ c :: collapse b := by
    induction a generalizing run with
    | nil => simp [collapseFrom, hc, collapse]
    | cons d ds ih =>
      rw [List.cons_append, collapseFrom, collapseFrom]
      split
      · exact ih (run ++ [d])
      · rw [ih [], List.append_assoc, List.cons_append]
  exact h []

theorem clean_append_cons {c : Char} (hc : isBlank c = false) (a b : Text) :
    clean (a ++ c :: b) = clean a ++ c :: clean b := by
  have ht : c ≠ '\t' := by
    rintro rfl
    exact absurd hc (by decide)
  rw [clean, collapse_append_cons hc, List.map_append, List.map_cons, if_neg ht, clean, clean]

theorem clean_nil : clean [] = [] := rfl

/-- A text in which nothing is white space stays, and what follows is cleaned on its own. -/
theorem clean_append_solid {g : Text} (hg : ∀ c ∈ g, isBlank c = false) (hne : g ≠ [])
    (a b : Text) : clean (a ++ (g ++ b)) = clean a ++ (g ++ clean b) := by
  induction g generalizing a with
  | nil => exact absurd rfl hne
  | cons c cs ih =>
    have hc := hg c List.mem_cons_self
    rw [List.cons_append, clean_append_cons hc, List.cons_append]
    cases cs with
    | nil => simp
    | cons d ds =>
      have h := ih (fun e he => hg e (List.mem_cons_of_mem c he)) (List.cons_ne_nil d ds) []
      rw [clean_nil, List.nil_append, List.nil_append] at h
      rw [h]

theorem not_infix_map {f : Char → Char} {p : Text} (hp : ∀ c, f c ∈ p → f c = c) {t : Text}
    (h : ¬ p <:+: t) : ¬ p <:+: t.map f := by
  rintro ⟨a, b, hab⟩
  obtain ⟨u, v, ht, hu, hv⟩ := List.map_eq_append_iff.mp hab.symm
  obtain ⟨x, y, hx, -, hy⟩ := List.map_eq_append_iff.mp hu
  subst ht hx
  have hyp : y = p := by
    rw [← hy]
    refine (List.map_id y).symm.trans (List.map_congr_left fun c hc => ?_)
    exact (hp c (hy ▸ List.mem_map_of_mem hc)).symm
  exact h ⟨x, v, by rw [hyp]⟩

theorem not_mem_lineBreak {c : Char} (hc : isBlank c = false) : c ∉ lineBreak := by
  intro h
  have hb : ∀ d ∈ lineBreak, isBlank d = true := forall_mem_of_all (by decide)
  rw [hb c h] at hc
  exact absurd hc (by decide)

theorem not_infix_collapse (t : Text) : ¬ lineBreak <:+: collapse t := by
  induction t using run_induction with
  | run w hw =>
    rw [collapse_blank hw]
    exact not_infix_afterBreak w
  | step w c r hw hc ih =>
    rw [collapse_append_cons hc, collapse_blank hw, infix_append_cons_iff (not_mem_lineBreak hc)]
    rintro (h | h)
    · exact not_infix_afterBreak w h
    · exact ih h

theorem not_infix_clean (t : Text) : ¬ lineBreak <:+: clean t := by
  refine not_infix_map (fun c hc => ?_) (not_infix_collapse t)
  by_cases h : c = '\t'
  · rw [if_pos h] at hc
    exact absurd hc (by decide)
  · exact if_neg h

theorem tab_not_mem_clean (t : Text) : '\t' ∉ clean t := by
  rw [clean, List.mem_map]
  rintro ⟨c, -, hc⟩
  by_cases h : c = '\t'
  · rw [if_pos h] at hc
    exact absurd hc (by decide)
  · rw [if_neg h] at hc
    exact h hc

theorem collapse_subset (t : Text) : collapse t ⊆ t := by
  induction t using run_induction with
  | run w hw =>
    rw [collapse_blank hw]
    exact (afterBreak_suffix w).subset
  | step w c r hw hc ih =>
    rw [collapse_append_cons hc, collapse_blank hw]
    refine List.append_subset.mpr ⟨?_, ?_⟩
    · exact List.Subset.trans (afterBreak_suffix w).subset (List.subset_append_left w _)
    · exact List.Subset.trans (List.cons_subset_cons c ih) (List.subset_append_right w _)

theorem mem_of_mem_clean {c : Char} {t : Text} (h : c ∈ clean t) : c ∈ t ∨ c = ' ' := by
  obtain ⟨d, hd, rfl⟩ := List.mem_map.mp h
  by_cases ht : d = '\t'
  · exact Or.inr (if_pos ht)
  · rw [if_neg ht]
    exact Or.inl (collapse_subset t hd)

theorem AllBlank.clean {w : Text} (hw : AllBlank w) : AllBlank (clean w) := by
  intro c hc
  rcases mem_of_mem_clean hc with h | rfl
  · exact hw c h
  · decide

theorem beforeLastBreak_eq_none_iff {t : Text} :
    beforeLastBreak t = none ↔ ¬ lineBreak <:+: t := by
  induction t with
  | nil => simp [beforeLastBreak, lineBreak]
  | cons c cs ih =>
    rw [List.infix_cons_iff, not_or, ← ih, ← startsWith_iff, beforeLastBreak]
    cases h : beforeLastBreak cs with
    | none => simp
    | some k => simp

theorem beforeLastBreak_eq_some {t : Text} {k : Nat} (h : beforeLastBreak t = some k) :
    ∃ a rest, t = a ++ (lineBreak ++ rest) ∧ a.length = k ∧ ¬ lineBreak <:+: rest := by
  induction t generalizing k with
  | nil => exact absurd h (by simp [beforeLastBreak])
  | cons c cs ih =>
    rw [beforeLastBreak] at h
    cases hcs : beforeLastBreak cs with
    | some j =>
      rw [hcs] at h
      obtain rfl := Option.some.inj h
      obtain ⟨a, rest, ht, ha, hn⟩ := ih hcs
      exact ⟨c :: a, rest, by rw [ht, List.cons_append], by rw [List.length_cons, ha], hn⟩
    | none =>
      simp only [hcs] at h
      split at h
      · next hs =>
        obtain rfl := Option.some.inj h
        obtain ⟨rest, hr⟩ := startsWith_iff.mp hs
        have hcs' : cs = '\n' :: rest := (List.cons.inj hr).2.symm
        have hn := beforeLastBreak_eq_none_iff.mp hcs
        refine ⟨[], rest, hr.symm, rfl, fun hi => hn ?_⟩
        rw [hcs']
        exact List.infix_cons hi
      · exact absurd h (by simp)

section Breaks
variable {w r : Text}

def Solid (r : Text) : Prop := ∀ c cs, r = c :: cs → isBlank c = false

theorem solid_nil : Solid [] := fun c cs h => absurd h (List.cons_ne_nil c cs).symm

theorem solid_cons {c : Char} {cs : Text} (hc : isBlank c = false) : Solid (c :: cs) := by
  intro d ds h
  rw [← (List.cons.inj h).1]
  exact hc

theorem takeWhile_append_solid (hw : AllBlank w) (hr : Solid r) :
    (w ++ r).takeWhile isBlank = w := by
  rw [List.takeWhile_append_of_pos hw]
  cases r with
  | nil => simp
  | cons c cs => simp [hr c cs rfl]

theorem dropWhile_append_solid (hw : AllBlank w) (hr : Solid r) :
    (w ++ r).dropWhile isBlank = r := by
  rw [List.dropWhile_append_of_pos hw]
  cases r with
  | nil => rfl
  | cons c cs => simp [hr c cs rfl]

/-- A run whose only break can be at its head has no white space before a break. -/
theorem replaceBy_blankBeforeBreak_keep (hw : AllBlank w) (hr : Solid r)
    (hn : ¬ lineBreak <:+: w.tail) :
    replaceBy blankBeforeBreak (w ++ r) = w ++ replaceBy blankBeforeBreak r := by
  induction w with
  | nil => rfl
  | cons c cs ih =>
    have hn' : beforeLastBreak cs = none := beforeLastBreak_eq_none_iff.mpr hn
    have hrule : blankBeforeBreak (c :: (cs ++ r)) = none := by
      rw [blankBeforeBreak, if_pos (hw c List.mem_cons_self), takeWhile_append_solid hw.tail hr,
        hn', Option.map_none]
    have htail : ¬ lineBreak <:+: cs.tail := fun hi => hn (hi.trans (List.tail_suffix cs).isInfix)
    rw [List.cons_append, replaceBy_cons_none hrule, ih hw.tail htail, List.cons_append]

/-- A run with a break behind its head is taken away up to its last break. -/
theorem replaceBy_blankBeforeBreak_cut {c : Char} {a rest : Text}
    (hw : AllBlank (c :: (a ++ (lineBreak ++ rest)))) (hr : Solid r)
    (hk : beforeLastBreak (a ++ (lineBreak ++ rest)) = some a.length)
    (hn : ¬ lineBreak <:+: rest) :
    replaceBy blankBeforeBreak (c :: (a ++ (lineBreak ++ rest)) ++ r) =
      rest ++ replaceBy blankBeforeBreak r := by
  have hrule : blankBeforeBreak (c :: (a ++ (lineBreak ++ rest) ++ r)) =
      some (a.length + 2, []) := by
    rw [blankBeforeBreak, if_pos (hw c List.mem_cons_self), takeWhile_append_solid hw.tail hr, hk,
      Option.map_some]
  have hdrop : (a ++ (lineBreak ++ rest) ++ r).drop (a.length + 2) = rest ++ r := by
    simp [lineBreak]
  have hrest : AllBlank rest := fun d hd => hw d (by simp [hd])
  have htail : ¬ lineBreak <:+: rest.tail :=
    fun hi => hn (hi.trans (List.tail_suffix rest).isInfix)
  rw [List.cons_append, replaceBy_cons_some hrule, List.nil_append, hdrop,
    replaceBy_blankBeforeBreak_keep hrest hr htail]

/-- A run is replaced whatever follows it, and with its breaks taken away it is what follows its
last one. -/
theorem blankBeforeBreak_run (hw : AllBlank w) :
    ∃ u, (∀ r, Solid r →
      replaceBy blankBeforeBreak (w ++ r) = u ++ replaceBy blankBeforeBreak r) ∧
      replaceAll lineBreak [] u = afterBreak w := by
  cases w with
  | nil => exact ⟨[], fun r _ => rfl, rfl⟩
  | cons c cs =>
    cases hk : beforeLastBreak cs with
    | none =>
      have hn := beforeLastBreak_eq_none_iff.mp hk
      refine ⟨c :: cs, fun r hr => replaceBy_blankBeforeBreak_keep hw hr hn, ?_⟩
      by_cases hp : lineBreak <+: c :: cs
      · obtain ⟨rest, hrest⟩ := hp
        have hcs : cs = '\n' :: rest := (List.cons.inj hrest).2.symm
        have hni : ¬ lineBreak <:+: rest := fun hi => hn (hcs ▸ List.infix_cons hi)
        rw [← hrest, replaceAll_match (by decide), replaceAll_eq_self hni,
          ← List.nil_append (lineBreak ++ rest), afterBreak_append [] hni]
        rfl
      · have hni : ¬ lineBreak <:+: c :: cs := by
          rw [List.infix_cons_iff, not_or]
          exact ⟨hp, hn⟩
        rw [replaceAll_eq_self hni, afterBreak_eq_self hni]
    | some k =>
      obtain ⟨a, rest, rfl, rfl, hn⟩ := beforeLastBreak_eq_some hk
      refine ⟨rest, fun r hr => replaceBy_blankBeforeBreak_cut hw hr hk hn, ?_⟩
      rw [replaceAll_eq_self hn, ← List.cons_append, afterBreak_append (c :: a) hn]

end Breaks

/-- Taking white space before breaks away and then the breaks collapses every run. -/
theorem replaceAll_replaceBy_eq_collapse (t : Text) :
    replaceAll lineBreak [] (replaceBy blankBeforeBreak t) = collapse t := by
  induction t using run_induction with
  | run w hw =>
    obtain ⟨u, hu, hb⟩ := blankBeforeBreak_run hw
    have h := hu [] solid_nil
    rw [List.append_nil, replaceBy_nil, List.append_nil] at h
    rw [h, hb, collapse_blank hw]
  | step w c r hw hc ih =>
    obtain ⟨u, hu, hb⟩ := blankBeforeBreak_run hw
    -- no break reaches over `c`, so that both passes begin anew behind the run
    have hstop : StopsAt c (literal lineBreak []) :=
      stopsAt_literal (by decide) (not_mem_lineBreak hc) []
    have hnone : blankBeforeBreak (c :: r) = none := by
      rw [blankBeforeBreak, if_neg]
      rw [hc]
      exact Bool.false_ne_true
    rw [hu (c :: r) (solid_cons hc), replaceBy_cons_none hnone, replaceAll,
      hstop.replaceBy_append_cons, ← replaceAll, hb, ih, collapse_append_cons hc,
      collapse_blank hw]

/-- The white-space replacements do what one scan over the runs does. -/
theorem stripBreaks_eq_clean (t : Text) : stripBreaks t = clean t := by
  rw [stripBreaks, replaceAll_replaceBy_eq_collapse, tab, replaceAll_singleton, clean]

end LedgerExport.Reply
