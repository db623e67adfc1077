import LedgerExport.Proofs.Reply.Page

/-! # Replies that are cut off

A reply may end anywhere, also in the middle of a tag. What is left of such a tag is neither taken
away nor marked, so that it stays in the line where it stands, and the lines before are those of
the whole reply. The main statement is `decode_cut`.
-/
namespace LedgerExport.Reply
open Text

def occurrences (p t : Text) : Nat := t.tails.countP (startsWith p)

section Occurrences
variable {p t : Text}

theorem occurrences_eq_zero_iff : occurrences p t = 0 ↔ ¬ p <:+: t := by
  rw [occurrences, List.countP_eq_zero, List.infix_iff_prefix_suffix]
  simp only [List.mem_tails, startsWith_iff, not_exists, not_and]
  exact ⟨fun h s hp hs => h s hs hp, fun h s hs hp => h s hp hs⟩

theorem occurrences_cons (c : Char) (cs : Text) :
    occurrences p (c :: cs) = (if p <+: c :: cs then 1 else 0) + occurrences p cs := by
  rw [occurrences, List.tails_cons, List.countP_cons, Nat.add_comm]
  simp only [startsWith_iff]
  rfl

theorem occurrences_append {m : Char} (ht : m ∉ t) (x : Text) :
    occurrences (m :: p) (t ++ x) = occurrences (m :: p) x := by
  induction t with
  | nil => rfl
  | cons c cs ih =>
    have hp : ¬ m :: p <+: c :: (cs ++ x) := fun h =>
      List.ne_of_not_mem_cons ht (List.cons_prefix_cons.mp h).1
    rw [List.cons_append, occurrences_cons, if_neg hp, Nat.zero_add,
      ih (List.not_mem_of_not_mem_cons ht)]

end Occurrences

theorem recordTag_eq_cons : recordTag = '<' :: ['F', '0', '1', '>'] := rfl

theorem occurrences_tag {g : Tag} (hg : g ≠ .padding) (x : Text) :
    occurrences recordTag (g.render ++ x) =
      (if recordTag <+: g.render ++ x then 1 else 0) + occurrences recordTag x := by
  obtain ⟨body, hb, hn⟩ := Tag.render_eq_cons hg
  rw [hb, List.cons_append, occurrences_cons, recordTag_eq_cons, occurrences_append hn]

theorem occurrences_opening (d : Digits) (x : Text) :
    occurrences recordTag ((Tag.opening d).render ++ x) =
      (if d.text = ['0', '1'] then 1 else 0) + occurrences recordTag x := by
  have hne : Tag.opening d ≠ .padding := Tag.noConfusion
  simp only [occurrences_tag hne, recordTag_starts_iff]

theorem occurrences_closing (d : Digits) (x : Text) :
    occurrences recordTag ((Tag.closing d).render ++ x) = occurrences recordTag x := by
  rw [occurrences_tag Tag.noConfusion, if_neg, Nat.zero_add]
  simp [recordTag_eq_cons, Tag.render, List.cons_prefix_cons]

theorem occurrences_frame {g : Tag} (hg : g.IsFrame) (x : Text) :
    occurrences recordTag (g.render ++ x) = occurrences recordTag x := by
  have hrule := (frame_rules hg x).2.1
  rw [occurrences_tag hg.ne_padding, if_neg, Nat.zero_add]
  intro h
  rw [literal, if_pos (startsWith_iff.mpr h)] at hrule
  exact absurd hrule (Option.some_ne_none _)

theorem occurrences_padding (x : Text) :
    occurrences recordTag (Tag.padding.render ++ x) = occurrences recordTag x := by
  have hsplit : Tag.padding.render ++ x =
      '<' :: ("FLDBLANK>".toList ++ '<' :: ("/FLDBLANK>".toList ++ x)) := rfl
  have hfirst (y : Text) : ¬ recordTag <+: '<' :: ("FLDBLANK>".toList ++ y) := by
    simp [recordTag_eq_cons, List.cons_prefix_cons]
  have hsecond (y : Text) : ¬ recordTag <+: '<' :: ("/FLDBLANK>".toList ++ y) := by
    simp [recordTag_eq_cons, List.cons_prefix_cons]
  rw [hsplit, occurrences_cons, if_neg (hfirst _), recordTag_eq_cons,
    occurrences_append (by decide), ← recordTag_eq_cons, occurrences_cons, if_neg (hsecond _),
    recordTag_eq_cons, occurrences_append (by decide), Nat.zero_add, Nat.zero_add]

/-- The beginning of a tag whose end is missing, or nothing. -/
def Stump (e : Text) : Prop := ∃ g : Tag, e <+: g.render ∧ e ≠ g.render

/-- A text in which no replacement but those of white space finds anything. -/
structure Inert (e : Text) : Prop where
  strip : ∀ start finish, strip start finish e = e
  markCells : markCells e = e
  unrecorded : occurrences recordTag e = 0

/-- Without a closing bracket no tag is found. -/
theorem replaceBy_numberedTag_of_unclosed {head out e : Text} (he : '>' ∉ e) :
    replaceBy (numberedTag head out) e = e := by
  induction e with
  | nil => rfl
  | cons c cs ih =>
    have hrule : numberedTag head out (c :: cs) = none := by
      rw [numberedTag]
      cases h : after? head (c :: cs) with
      | none => rfl
      | some rest =>
        have hrest : '>' ∉ rest := fun hr => he (after?_eq_some_iff.mp h ▸ by simp [hr])
        simp only
        split
        · next heq =>
          exact absurd (List.mem_of_mem_drop (heq ▸ List.mem_cons_self)) hrest
        · rfl
    rw [replaceBy_cons_none hrule, ih (List.not_mem_of_not_mem_cons he)]

/-- What is not closed is no tag. -/
theorem inert_of_unclosed {e : Text} (he : '>' ∉ e) : Inert e := by
  have hnone {p : Text} (hp : '>' ∈ p) : ¬ p <:+: e := fun h => he (h.subset hp)
  have hstart := hnone (p := frameStartText) (by decide)
  have hend := hnone (p := frameEndText) (by decide)
  have hpair := hnone (p := blankPair) (by decide)
  have hrecord := hnone (p := recordTag) (by decide)
  refine ⟨fun start finish => ?_, ?_, occurrences_eq_zero_iff.mpr hrecord⟩
  · cases start <;> cases finish <;>
      simp [strip, replaceFirst_eq_self hstart, replaceFirst_eq_self hend,
        replaceAll_eq_self hpair]
  · rw [markCells, closingTag, replaceBy_numberedTag_of_unclosed he, replaceAll_eq_self hrecord,
      openingTag, replaceBy_numberedTag_of_unclosed he]

theorem inert_padding : ∀ e ∈ blankPair.inits, e ≠ blankPair → Inert e := by
  have h : ∀ e ∈ blankPair.inits, e ≠ blankPair → (∀ start finish, strip start finish e = e) ∧
      markCells e = e ∧ occurrences recordTag e = 0 := by decide
  exact fun e he hne => ⟨(h e he hne).1, (h e he hne).2.1, (h e he hne).2.2⟩

namespace Stump
variable {e : Text} (he : Stump e)
include he

theorem solid : ∀ c ∈ e, isBlank c = false := by
  obtain ⟨g, hg, -⟩ := he
  exact fun c hc => g.render_solid c (hg.subset hc)

/-- Only the padding has the end of a tag inside. -/
theorem inert : Inert e := by
  obtain ⟨g, hg, hne⟩ := he
  by_cases hp : g = .padding
  · subst hp
    exact inert_padding e ((List.mem_inits _ _).mpr hg) hne
  · have hclosed : ∃ body, g.render = body ++ ['>'] ∧ '>' ∉ body := by
      cases g with
      | padding => exact absurd rfl hp
      | opening d => exact ⟨'<' :: 'F' :: d.text, rfl, by simp [d.not_mem (c := '>') (by decide)]⟩
      | closing d =>
        exact ⟨'<' :: '/' :: 'F' :: d.text, rfl, by simp [d.not_mem (c := '>') (by decide)]⟩
      | frameStart => exact ⟨"<ENVELOPE".toList, rfl, by decide⟩
      | frameEnd => exact ⟨"</ENVELOPE".toList, rfl, by decide⟩
    obtain ⟨body, hbody, hn⟩ := hclosed
    rw [hbody] at hg hne
    have hshort : e <+: body := (List.prefix_concat_iff.mp hg).resolve_left hne
    exact inert_of_unclosed fun h => hn (hshort.subset h)

/-- At most the white space before a stump goes. -/
theorem mark_append {w : Text} (hw : '<' ∉ w) : ∃ v, v <+: clean w ∧ mark (w ++ e) = v ++ e := by
  have hc := mark_not_mem_clean hw
  have hclean : clean (w ++ e) = clean w ++ e := by
    by_cases hne : e = []
    · rw [hne, List.append_nil, List.append_nil]
    · have h := clean_append_solid he.solid hne w []
      rwa [clean_nil, List.append_nil] at h
  have hkeep {x : Text} (hx : x ⊆ e) : replaceBy blankBeforeTag x = x := by
    have h := replaceBy_blankBeforeTag_solid (fun c hc => he.solid c (hx hc)) []
    rwa [List.append_nil, replaceBy_nil, List.append_nil] at h
  have hblank : ∃ v, v <+: clean w ∧ replaceBy blankBeforeTag (clean w ++ e) = v ++ e := by
    by_cases hF : ['<', 'F'] <+: e
    · obtain ⟨x, rfl⟩ := hF
      have h := replaceBy_blankBeforeTag_opening hc x
      rw [hkeep (List.subset_append_right ['<', 'F'] x)] at h
      exact ⟨trimEnd (clean w), List.rdropWhile_prefix isBlank _, h⟩
    · refine ⟨clean w, List.prefix_refl _, ?_⟩
      rw [replaceBy_blankBeforeTag_keep hc _ hF, hkeep (List.Subset.refl e)]
      intro c cs h
      exact he.solid c (h ▸ List.mem_cons_self)
  obtain ⟨v, hv, hb⟩ := hblank
  refine ⟨v, hv, ?_⟩
  rw [mark, hclean, hb, markCells_append (fun h => hc (hv.subset h)), he.inert.markCells]

end Stump

/-- The first text is the second one cut off in the line of the given number. -/
inductive Torn : Nat → Text → Text → Prop
  | last {x : Text} (h : ¬ lineBreak <:+: x) (y : Text) : Torn 0 x y
  | line {n : Nat} {a x y : Text} (h : ¬ lineBreak <:+: a) (rest : Torn n x y) :
      Torn (n + 1) (a ++ (lineBreak ++ x)) (a ++ (lineBreak ++ y))

namespace Torn
variable {n : Nat} {x y : Text} (h : Torn n x y)
include h

theorem append_cons {a : Text} {c : Char} (ha : ¬ lineBreak <:+: a) (hc : c ∉ lineBreak) :
    Torn n (a ++ c :: x) (a ++ c :: y) := by
  have hjoin {b : Text} (hb : ¬ lineBreak <:+: b) : ¬ lineBreak <:+: a ++ c :: b := by
    rw [infix_append_cons_iff hc, not_or]
    exact ⟨ha, hb⟩
  cases h with
  | last hx y => exact .last (hjoin hx) _
  | line hb rest => simpa using Torn.line (hjoin hb) rest

theorem append_left {a : Text} (ha : '\r' ∉ a) : Torn n (a ++ x) (a ++ y) := by
  have hjoin {b : Text} (hb : ¬ lineBreak <:+: b) : ¬ lineBreak <:+: a ++ b :=
    fun hi => hb ((infix_append_iff_of_head ha).mp hi)
  cases h with
  | last hx y => exact .last (hjoin hx) _
  | line hb rest =>
    have hline := Torn.line (hjoin hb) rest
    rwa [List.append_assoc, List.append_assoc] at hline

theorem unescape : Torn n (Text.unescape x) (Text.unescape y) := by
  have hread {b : Text} (hb : ¬ lineBreak <:+: b) : ¬ lineBreak <:+: Text.unescape b :=
    fun hi => hb (infix_of_infix_unescape plain_lineBreak b hi)
  induction h with
  | last hx y => exact .last (hread hx) _
  | line hb rest ih =>
    rw [unescape_append_sep plain_lineBreak (by decide),
      unescape_append_sep plain_lineBreak (by decide)]
    exact .line (hread hb) ih

/-- The lines before the one that is cut off are the same. -/
theorem splitOn : (splitOn lineBreak x).length = n + 1 ∧
    ∀ i < n, (Text.splitOn lineBreak x)[i]? = (Text.splitOn lineBreak y)[i]? := by
  induction h with
  | last hx y => simp [splitOn_eq_singleton hx]
  | line hb rest ih =>
    have hsplit (z : Text) := splitOn_append (by decide) (noStart_lineBreak hb) z
    rw [← List.append_assoc, ← List.append_assoc, hsplit, hsplit]
    refine ⟨by rw [List.length_cons, ih.1], fun i hi => ?_⟩
    cases i with
    | zero => rfl
    | succ i => exact ih.2 i (Nat.lt_of_succ_lt_succ hi)

end Torn

/-- No carriage return stands before a closing tag; `t` is the text since the last tag that
stays. -/
def Calm : Text → List (Tag × Text) → Prop
  | _, [] => True
  | t, (.closing _, u) :: rest => '\r' ∉ t ∧ Calm u rest
  | _, (.opening _, u) :: rest => Calm u rest
  | t, (_, u) :: rest => Calm (t ++ u) rest

theorem Calm.of_append {t u : Text} {segments : List (Tag × Text)} (h : Calm (t ++ u) segments) :
    Calm u segments := by
  induction segments generalizing t u with
  | nil => trivial
  | cons s rest ih =>
    obtain ⟨g, v⟩ := s
    have hjoin (h : Calm (t ++ u ++ v) rest) : Calm (u ++ v) rest :=
      ih (t := t) (by rwa [List.append_assoc] at h)
    cases g with
    | opening d => exact h
    | closing d => exact ⟨fun hu => h.1 (List.mem_append_right t hu), h.2⟩
    | padding => exact hjoin h
    | frameStart => exact hjoin h
    | frameEnd => exact hjoin h

section Cutting
variable {t u cut : Text} {g : Tag} {rest : List (Tag × Text)}

theorem prefix_append_split {a b : Text} (h : cut <+: a ++ b) :
    cut <+: a ∨ ∃ c, cut = a ++ c ∧ c <+: b := by
  obtain ⟨z, hz⟩ := h
  rcases List.append_eq_append_iff.mp hz with ⟨c, rfl, -⟩ | ⟨c, rfl, rfl⟩
  · exact Or.inl (List.prefix_append cut c)
  · exact Or.inr ⟨c, rfl, List.prefix_append c z⟩

/-- A reply is cut in the text before a tag, in the tag or behind it. -/
theorem prefix_spell_cases (ht : '<' ∉ t) (h : cut <+: spell t ((g, u) :: rest)) :
    (∃ w e, cut = w ++ e ∧ '<' ∉ w ∧ Stump e) ∨
      ∃ cut', cut = t ++ (g.render ++ cut') ∧ cut' <+: spell u rest := by
  have hempty : Stump [] := ⟨g, List.nil_prefix, g.render_ne_nil.symm⟩
  rcases prefix_append_split h with h | ⟨c, rfl, hc⟩
  · exact Or.inl ⟨cut, [], (List.append_nil cut).symm, fun hm => ht (h.subset hm), hempty⟩
  · rcases prefix_append_split hc with hc | ⟨cut', rfl, hcut⟩
    · by_cases heq : c = g.render
      · exact Or.inr ⟨[], by rw [heq, List.append_nil], List.nil_prefix⟩
      · exact Or.inl ⟨t, c, rfl, ht, g, hc, heq⟩
    · exact Or.inr ⟨cut', rfl, hcut⟩

/-- The text is marked into `y`, cut off in the line of the last record tag of the text. -/
def CutsInto (start finish : Bool) (cut y : Text) : Prop :=
  Torn (occurrences recordTag cut) (mark (strip start finish cut)) y

section Steps
variable {start finish : Bool} {y : Text} (ht : '<' ∉ t)
include ht

theorem occurrences_recordTag_append (x : Text) :
    occurrences recordTag (t ++ x) = occurrences recordTag x := occurrences_append ht x

theorem cutsInto_stump {e : Text} (he : Stump e) : CutsInto start finish (t ++ e) y := by
  obtain ⟨v, hv, hmark⟩ := he.mark_append ht
  have hnone : ¬ lineBreak <:+: v := fun h => not_infix_clean t (h.trans hv.isInfix)
  rw [CutsInto, occurrences_recordTag_append ht, he.inert.unrecorded, strip_append start finish ht,
    he.inert.strip, hmark]
  refine .last ?_ y
  cases e with
  | nil => rwa [List.append_nil]
  | cons c cs =>
    have hsolid := he.solid
    rw [infix_append_cons_iff (not_mem_lineBreak (hsolid c List.mem_cons_self)), not_or]
    refine ⟨hnone, fun h => ?_⟩
    have hcr := hsolid '\r' (List.mem_cons_of_mem c (h.subset (by decide)))
    exact absurd hcr (by decide)

theorem cutsInto_text : CutsInto start finish t y := by
  have hempty : Stump [] := ⟨.padding, List.nil_prefix, Tag.padding.render_ne_nil.symm⟩
  have h : CutsInto start finish (t ++ []) y := cutsInto_stump ht hempty
  rwa [List.append_nil] at h

/-- A record tag begins a line and every other opening tag goes on with the line. -/
theorem CutsInto.opening (h : CutsInto start finish cut y) (d : Digits) :
    CutsInto start finish (t ++ ((Tag.opening d).render ++ cut))
      (trimEnd (clean t) ++ (d.mark ++ y)) := by
  have htrim : ¬ lineBreak <:+: trimEnd (clean t) := fun hi =>
    not_infix_clean t (hi.trans (List.rdropWhile_prefix isBlank _).isInfix)
  rw [CutsInto, occurrences_recordTag_append ht, occurrences_opening, strip_append start finish ht,
    strip_keep Tag.noConfusion (fun _ => Tag.noConfusion) (fun _ => Tag.noConfusion),
    mark_opening ht, Digits.mark]
  by_cases hd : d.text = ['0', '1']
  · rw [if_pos hd, if_pos hd, Nat.add_comm]
    exact .line htrim h
  · rw [if_neg hd, if_neg hd, Nat.zero_add]
    exact h.append_cons htrim (by decide)

/-- Without a carriage return before it a closing tag brings no line break about. -/
theorem CutsInto.closing (h : CutsInto start finish cut y) (hcr : '\r' ∉ t) (d : Digits) :
    CutsInto start finish (t ++ ((Tag.closing d).render ++ cut)) (clean t ++ y) := by
  have hclean : '\r' ∉ clean t := fun hm => (mem_of_mem_clean hm).elim hcr (by decide)
  rw [CutsInto, occurrences_recordTag_append ht, occurrences_closing, strip_append start finish ht,
    strip_keep Tag.noConfusion (fun _ => Tag.noConfusion) (fun _ => Tag.noConfusion),
    mark_closing ht]
  exact h.append_left hclean

/-- A tag of the frame that stays is a part of its line. -/
theorem CutsInto.frame (h : CutsInto start finish cut y) (hg : g.IsFrame)
    (hs : start = true → g ≠ .frameStart) (hf : finish = true → g ≠ .frameEnd) :
    CutsInto start finish (t ++ (g.render ++ cut)) (clean t ++ (g.render ++ y)) := by
  have hbody : ∃ body, g.render = '<' :: body ∧ '\r' ∉ body := by
    rcases hg with rfl | rfl
    · exact ⟨_, rfl, by decide⟩
    · exact ⟨_, rfl, by decide⟩
  obtain ⟨body, hbody, hcr⟩ := hbody
  rw [CutsInto, occurrences_recordTag_append ht, occurrences_frame hg, strip_append start finish ht,
    strip_keep hg.ne_padding hs hf, mark_frame ht hg, hbody]
  exact (h.append_left hcr).append_cons (not_infix_clean t) (by decide)

/-- A tag that is taken away leaves one text behind. -/
theorem CutsInto.gone {start' finish' : Bool} (h : CutsInto start' finish' (t ++ cut) y)
    (hocc : occurrences recordTag (g.render ++ cut) = occurrences recordTag cut)
    (hstrip : strip start finish (g.render ++ cut) = strip start' finish' cut) :
    CutsInto start finish (t ++ (g.render ++ cut)) y := by
  rw [CutsInto, occurrences_recordTag_append ht, strip_append _ _ ht] at h
  rwa [CutsInto, occurrences_recordTag_append ht, strip_append _ _ ht, hocc, hstrip]

end Steps

/-- A reply that is cut off is marked like the whole one up to the line in which it ends, which is
the one of its last complete record tag. -/
theorem cutsInto_scan (start finish : Bool) {segments : List (Tag × Text)} (ht : '<' ∉ t)
    (hs : Unmarked segments) (hcalm : Calm t segments) (hcut : cut <+: spell t segments) :
    CutsInto start finish cut (scan start finish t segments) := by
  induction segments generalizing start finish t cut with
  | nil => exact cutsInto_text fun hm => ht (hcut.subset hm)
  | cons s rest ih =>
    obtain ⟨g, u⟩ := s
    have hu : '<' ∉ u := hs (g, u) List.mem_cons_self
    have hrest : Unmarked rest := fun r hr => hs r (List.mem_cons_of_mem _ hr)
    rcases prefix_spell_cases ht hcut with ⟨w, e, rfl, hw, he⟩ | ⟨tail, rfl, htail⟩
    · exact cutsInto_stump hw he
    have hnext (start finish : Bool) (hcalm : Calm u rest) :
        CutsInto start finish tail (scan start finish u rest) :=
      ih start finish hu hrest hcalm htail
    -- behind a tag that goes the text before it goes on
    have hjoin (start finish : Bool) (hcalm : Calm (t ++ u) rest) :
        CutsInto start finish (t ++ tail) (scan start finish (t ++ u) rest) := by
      refine ih start finish (by simp [ht, hu]) hrest hcalm ?_
      rw [spell_append]
      exact (List.prefix_append_right_inj t).mpr htail
    cases g with
    | opening d => exact (hnext start finish hcalm).opening ht d
    | closing d => exact (hnext start finish hcalm.2).closing ht hcalm.1 d
    | padding =>
      exact (hjoin start finish hcalm).gone ht (occurrences_padding tail)
        (strip_padding start finish tail)
    | frameStart =>
      cases start with
      | true =>
        exact (hjoin false finish hcalm).gone ht (occurrences_frame (Or.inl rfl) tail)
          (strip_frameStart finish tail)
      | false =>
        exact (hnext false finish hcalm.of_append).frame ht (Or.inl rfl) Bool.noConfusion
          fun _ => Tag.noConfusion
    | frameEnd =>
      cases finish with
      | true =>
        exact (hjoin start false hcalm).gone ht (occurrences_frame (Or.inr rfl) tail)
          (strip_frameEnd start tail)
      | false =>
        exact (hnext start false hcalm.of_append).frame ht (Or.inr rfl)
          (fun _ => Tag.noConfusion) Bool.noConfusion

end Cutting

section Pages
variable {rest : List (Tag × Text)} (h : ∀ t, Calm t rest)
include h

theorem calm_cells {cells : List Cell} (hc : ∀ c ∈ cells, '\r' ∉ c.raw) (k : Nat) (t : Text) :
    Calm t ((cells.zipIdx k).flatMap (fun e => e.1.segments e.2) ++ rest) := by
  induction cells generalizing k t with
  | nil => exact h t
  | cons c cs ih =>
    obtain ⟨hraw, hcs⟩ := List.forall_mem_cons.mp hc
    exact ⟨hraw, ih hcs (k + 1) c.gap.text⟩

theorem calm_padding (padding : List Gap) (t : Text) :
    Calm t (padding.map (fun g => (Tag.padding, g.text)) ++ rest) := by
  induction padding generalizing t with
  | nil => exact h t
  | cons g gs ih => exact ih (t ++ g.text)

theorem calm_records {records : List Record} (hr : ∀ r ∈ records, ∀ c ∈ r.cells, '\r' ∉ c.raw)
    (t : Text) : Calm t (records.flatMap Record.segments ++ rest) := by
  induction records generalizing t with
  | nil => exact h t
  | cons r rs ih =>
    obtain ⟨hcells, hrs⟩ := List.forall_mem_cons.mp hr
    rw [List.flatMap_cons, Record.segments, List.append_assoc, List.append_assoc]
    exact calm_cells (calm_padding (ih hrs) r.padding) hcells 1 t

end Pages

theorem Page.calm {p : Page} (hp : ∀ r ∈ p.records, ∀ c ∈ r.cells, '\r' ∉ c.raw) :
    Calm p.lead.text p.segments := by
  have hend (t : Text) : Calm t [(.frameEnd, p.finish.text)] := trivial
  exact calm_records hend hp (p.lead.text ++ p.start.text)

/-- Wherever a page is cut off, there is a row for each complete record tag that is left, and all
but the last of these rows are those of the page. -/
theorem decode_cut {names : List Text} (hn : ∀ n ∈ names, '\r' ∉ n) {p : Page}
    (hp : ∀ r ∈ p.records, ∀ c ∈ r.cells, '\r' ∉ c.raw) {cut : Text} (hcut : cut <+: p.render) :
    (decode names cut).length = occurrences recordTag cut ∧
      ∀ i, i + 1 < (decode names cut).length →
        (decode names cut)[i]? = (decode names p.render)[i]? := by
  have hheader : '\r' ∉ join tab names := not_mem_join (by decide) hn
  have hwhole : mark (strip true true p.render) = scan true true p.lead.text p.segments := by
    rw [p.render_eq, mark_strip_spell true true p.lead.blank.unmarked p.unmarked_segments]
  have htorn := cutsInto_scan true true p.lead.blank.unmarked p.unmarked_segments (Page.calm hp)
    (p.render_eq ▸ hcut)
  rw [CutsInto, ← hwhole] at htorn
  obtain ⟨hlength, hlines⟩ := (htorn.unescape.append_left hheader).splitOn
  rw [← normalize_eq, ← normalize_eq] at hlines
  rw [← normalize_eq] at hlength
  have hcount : (decode names cut).length = occurrences recordTag cut := by
    rw [decode, List.length_map, List.length_drop, hlength, Nat.add_sub_cancel]
  refine ⟨hcount, fun i hi => ?_⟩
  rw [hcount, Nat.add_comm] at hi
  rw [decode, decode, List.getElem?_map, List.getElem?_map, List.getElem?_drop,
    List.getElem?_drop, hlines (1 + i) hi]

def notes : Page where
  lead := ⟨[], allBlank_nil⟩
  start := ⟨"\r\n  ".toList, by decide⟩
  records :=
    [{ cells :=
        [⟨"tea".toList, ⟨"\r\n    ".toList, by decide⟩, by decide⟩,
          ⟨" 12 ".toList, ⟨"  ".toList, by decide⟩, by decide⟩]
       padding := [⟨"\r\n  ".toList, by decide⟩]
       ne_nil := by decide },
      { cells := [⟨"salt &amp; oil".toList, ⟨"\t".toList, by decide⟩, by decide⟩]
        padding := []
        ne_nil := by decide }]
  finish := ⟨"\r\n\r\n".toList, by decide⟩

def tornNotes : Text :=
  ("<ENVELOPE>\r\n  <F01>tea</F01>\r\n    <F02> 12 </F02>  <FLDBLANK></FLDBLANK>\r\n  " ++
    "<F01>salt &am").toList

theorem decode_tornNotes :
    (decode ["item".toList, "price".toList] tornNotes).length = 2 ∧
      (decode ["item".toList, "price".toList] tornNotes)[0]? =
        (decode ["item".toList, "price".toList] notes.render)[0]? := by
  have hn : ∀ n ∈ ["item".toList, "price".toList], '\r' ∉ n := by decide
  have hp : ∀ r ∈ notes.records, ∀ c ∈ r.cells, '\r' ∉ c.raw := by decide
  have hcut : tornNotes <+: notes.render := by decide
  obtain ⟨hcount, hrows⟩ := decode_cut hn hp hcut
  have htwo : occurrences recordTag tornNotes = 2 := by decide
  exact ⟨hcount.trans htwo, hrows 0 (by rw [hcount, htwo]; decide)⟩

end LedgerExport.Reply
