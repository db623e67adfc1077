import LedgerExport.Proofs.Reply.Tags

/-! # One scan over the tags of a reply

Each replacement either takes a tag away, puts a separator in its place or passes over it, and goes
on behind it with the text that was there. So all of them together are one scan, which keeps the
text read since the last tag that stays. The main statement is `normalize_spell`.
-/
namespace LedgerExport.Reply
open Text

section AtTags
variable {rule : Rule} {t x out : Text} {g : Tag}

theorem Tag.render_solid (g : Tag) : ∀ c ∈ g.render, isBlank c = false := by
  cases g with
  | opening d =>
    intro c hc
    rcases List.mem_cons.mp hc with rfl | hc
    · decide
    · rcases List.mem_cons.mp hc with rfl | hc
      · decide
      · exact d.solid c hc
  | closing d =>
    intro c hc
    rcases List.mem_cons.mp hc with rfl | hc
    · decide
    · rcases List.mem_cons.mp hc with rfl | hc
      · decide
      · rcases List.mem_cons.mp hc with rfl | hc
        · decide
        · exact d.solid c hc
  | padding => exact forall_mem_of_all (by decide)
  | frameStart => exact forall_mem_of_all (by decide)
  | frameEnd => exact forall_mem_of_all (by decide)

theorem blankPair_eq_cons : ∃ s, blankPair = '<' :: 'F' :: 'L' :: s := ⟨_, rfl⟩
theorem frameStartText_eq_cons : ∃ s, frameStartText = '<' :: 'E' :: s := ⟨_, rfl⟩
theorem frameEndText_eq_cons : ∃ s, frameEndText = '<' :: '/' :: 'E' :: s := ⟨_, rfl⟩

theorem Tag.render_ne_nil (g : Tag) : g.render ≠ [] := by
  cases g with
  | opening d => exact List.cons_ne_nil _ _
  | closing d => exact List.cons_ne_nil _ _
  | padding => decide
  | frameStart => decide
  | frameEnd => decide

/-- Every tag but the padding holds the mark that begins it and no other. -/
theorem Tag.render_eq_cons (hg : g ≠ .padding) : ∃ body, g.render = '<' :: body ∧ '<' ∉ body := by
  cases g with
  | opening d =>
    refine ⟨_, rfl, ?_⟩
    rw [List.mem_cons, not_or]
    exact ⟨by decide, d.not_mem_tail (by decide) (by decide)⟩
  | closing d =>
    refine ⟨_, rfl, ?_⟩
    rw [List.mem_cons, List.mem_cons, not_or, not_or]
    exact ⟨by decide, by decide, d.not_mem_tail (by decide) (by decide)⟩
  | padding => exact absurd rfl hg
  | frameStart => exact ⟨_, rfl, by decide⟩
  | frameEnd => exact ⟨_, rfl, by decide⟩

theorem replaceBy_tag_keep (hr : AppliesAt '<' rule) (ht : '<' ∉ t) (hg : g ≠ .padding)
    (h : rule (g.render ++ x) = none) :
    replaceBy rule (t ++ (g.render ++ x)) = t ++ (g.render ++ replaceBy rule x) := by
  obtain ⟨body, hb, hn⟩ := Tag.render_eq_cons hg
  rw [replaceBy_append hr ht, hb, List.cons_append]
  rw [hb, List.cons_append] at h
  rw [replaceBy_keep hr h hn]

theorem appliesAt_numberedTag (head out : Text) :
    AppliesAt '<' (numberedTag ('<' :: head) out) := by
  intro c cs hc
  simp [numberedTag, after?, hc.symm]

theorem appliesAt_closingTag : AppliesAt '<' closingTag := appliesAt_numberedTag ['/', 'F'] []

theorem appliesAt_openingTag : AppliesAt '<' openingTag := appliesAt_numberedTag ['F'] tab

theorem appliesAt_recordTag : AppliesAt '<' (literal recordTag lineBreak) :=
  appliesAt_literal '<' ['F', '0', '1', '>'] lineBreak

theorem closingTag_opening (d : Digits) (x : Text) :
    closingTag ((Tag.opening d).render ++ x) = none := by
  simp [closingTag, numberedTag, after?, Tag.render]

theorem closingTag_closing (d : Digits) (x : Text) :
    closingTag ((Tag.closing d).render ++ x) =
      some ((Tag.closing d).render.length - 1, []) := by
  have h := d.numberedTag_eq_some ['<', '/', 'F'] [] x
  simp only [Tag.render, closingTag, List.cons_append, List.append_assoc, List.nil_append,
    List.length_cons, List.length_append, List.length_nil] at h ⊢
  rw [h]
  congr 2
  omega

theorem openingTag_opening (d : Digits) (x : Text) :
    openingTag ((Tag.opening d).render ++ x) =
      some ((Tag.opening d).render.length - 1, tab) := by
  have h := d.numberedTag_eq_some ['<', 'F'] tab x
  simp only [Tag.render, openingTag, List.cons_append, List.append_assoc, List.nil_append,
    List.length_cons, List.length_append, List.length_nil] at h ⊢
  rw [h]
  congr 2
  omega

/-- The record tag is the opening tag with the number that is written `01`. -/
theorem recordTag_starts_iff (d : Digits) (x : Text) :
    recordTag <+: (Tag.opening d).render ++ x ↔ d.text = ['0', '1'] := by
  have hrec : recordTag = '<' :: 'F' :: ['0', '1', '>'] := rfl
  have hgt : '>' ∉ d.text := d.not_mem (by decide)
  rw [hrec, Tag.render, List.cons_append, List.cons_append, List.cons_prefix_cons,
    List.cons_prefix_cons, List.append_assoc]
  simp only [true_and]
  constructor
  · rintro ⟨rest, h⟩
    have h' : ['0', '1'] ++ '>' :: rest = d.text ++ '>' :: x := h
    exact (append_cons_inj (by decide) hgt h').1.symm
  · intro h
    rw [h]
    exact ⟨x, rfl⟩

theorem not_blankPair_starts (hg : g ≠ .padding) : ¬ blankPair <+: g.render ++ x := by
  obtain ⟨s, hs⟩ := blankPair_eq_cons
  rw [hs]
  intro h
  cases g with
  | opening d =>
    obtain ⟨c, cs, hd⟩ := List.exists_cons_of_ne_nil d.ne_nil
    have hc : c ≠ 'L' := isDecimalDigit_ne (d.decimal c (by simp [hd])) (by decide)
    simp [Tag.render, hd, List.cons_prefix_cons, hc.symm] at h
  | closing d => simp [Tag.render, List.cons_prefix_cons] at h
  | padding => exact hg rfl
  | frameStart =>
    obtain ⟨r, hr⟩ := frameStartText_eq_cons
    simp [Tag.render, hr, List.cons_prefix_cons] at h
  | frameEnd =>
    obtain ⟨r, hr⟩ := frameEndText_eq_cons
    simp [Tag.render, hr, List.cons_prefix_cons] at h

end AtTags

def Digits.mark (d : Digits) : Text := if d.text = ['0', '1'] then lineBreak else tab

def mark (t : Text) : Text := markCells (replaceBy blankBeforeTag (clean t))

section Marking
variable {t x : Text}

theorem replaceBy_blankBeforeTag_solid {u : Text} (hu : ∀ c ∈ u, isBlank c = false) (x : Text) :
    replaceBy blankBeforeTag (u ++ x) = u ++ replaceBy blankBeforeTag x := by
  induction u with
  | nil => rfl
  | cons c cs ih =>
    have hc : blankBeforeTag (c :: (cs ++ x)) = none :=
      blankBeforeTag_of_solid (hu c List.mem_cons_self)
    rw [List.cons_append, replaceBy_cons_none hc, ih fun d hd => hu d (List.mem_cons_of_mem c hd),
      List.cons_append]

theorem replaceBy_blankBeforeTag_other {g : Tag} (hg : ¬ ['<', 'F'] <+: g.render ++ x)
    (ht : '<' ∉ t) :
    replaceBy blankBeforeTag (t ++ (g.render ++ x)) =
      t ++ (g.render ++ replaceBy blankBeforeTag x) := by
  obtain ⟨c, cs, hc⟩ := List.exists_cons_of_ne_nil g.render_ne_nil
  have hs : Solid (g.render ++ x) := by
    rw [hc, List.cons_append]
    exact solid_cons (g.render_solid c (by simp [hc]))
  rw [replaceBy_blankBeforeTag_keep ht hs hg, replaceBy_blankBeforeTag_solid g.render_solid]

theorem mark_not_mem_clean (ht : '<' ∉ t) : '<' ∉ clean t := by
  intro h
  rcases mem_of_mem_clean h with h | h
  · exact ht h
  · exact absurd h (by decide)

theorem markCells_append (ht : '<' ∉ t) (x : Text) : markCells (t ++ x) = t ++ markCells x := by
  rw [markCells, replaceBy_append appliesAt_closingTag ht, replaceAll,
    replaceBy_append appliesAt_recordTag ht, replaceBy_append appliesAt_openingTag ht, markCells,
    replaceAll]

theorem markCells_nil : markCells [] = [] := rfl

theorem markCells_opening (d : Digits) (x : Text) :
    markCells ((Tag.opening d).render ++ x) = d.mark ++ markCells x := by
  have hclose := replaceBy_tag_keep (t := []) appliesAt_closingTag List.not_mem_nil
    Tag.noConfusion (closingTag_opening d x)
  rw [List.nil_append, List.nil_append] at hclose
  rw [markCells, hclose, Digits.mark]
  by_cases hd : d.text = ['0', '1']
  · have hrec : (Tag.opening d).render = recordTag := by simp [Tag.render, hd, recordTag]
    rw [if_pos hd, hrec, replaceAll_match (by decide),
      replaceBy_append appliesAt_openingTag (by decide), markCells]
  · have hmiss : literal recordTag lineBreak ((Tag.opening d).render ++ replaceBy closingTag x) =
        none := by
      rw [literal, if_neg]
      exact fun h => hd ((recordTag_starts_iff d _).mp (startsWith_iff.mp h))
    have hkeep := replaceBy_tag_keep (t := []) appliesAt_recordTag List.not_mem_nil
      Tag.noConfusion hmiss
    rw [List.nil_append, List.nil_append] at hkeep
    rw [if_neg hd, replaceAll, hkeep,
      replaceBy_match (Tag.render_ne_nil _) (openingTag_opening d _), markCells, replaceAll]

theorem markCells_closing (d : Digits) (x : Text) :
    markCells ((Tag.closing d).render ++ x) = markCells x := by
  rw [markCells, replaceBy_match (Tag.render_ne_nil _) (closingTag_closing d x), List.nil_append,
    markCells]

def Tag.IsFrame (g : Tag) : Prop := g = .frameStart ∨ g = .frameEnd

theorem frame_rules {g : Tag} (hg : g.IsFrame) (x : Text) :
    closingTag (g.render ++ x) = none ∧ literal recordTag lineBreak (g.render ++ x) = none ∧
      openingTag (g.render ++ x) = none ∧ ¬ ['<', 'F'] <+: g.render ++ x := by
  have hrec : recordTag = ['<', 'F', '0', '1', '>'] := rfl
  obtain ⟨r, hr⟩ := frameStartText_eq_cons
  obtain ⟨s, hs⟩ := frameEndText_eq_cons
  rcases hg with rfl | rfl
  · simp [Tag.render, hr, closingTag, openingTag, numberedTag, after?, literal, startsWith, hrec,
      List.cons_prefix_cons]
  · simp [Tag.render, hs, closingTag, openingTag, numberedTag, after?, literal, startsWith, hrec,
      List.cons_prefix_cons]

theorem Tag.IsFrame.ne_padding {g : Tag} (hg : g.IsFrame) : g ≠ .padding := by
  rcases hg with rfl | rfl <;> exact Tag.noConfusion

theorem markCells_frame {g : Tag} (hg : g.IsFrame) (x : Text) :
    markCells (g.render ++ x) = g.render ++ markCells x := by
  have hkeep (rule : Rule) (hr : AppliesAt '<' rule) (y : Text)
      (hn : rule (g.render ++ y) = none) :
      replaceBy rule (g.render ++ y) = g.render ++ replaceBy rule y := by
    have h := replaceBy_tag_keep (t := []) hr List.not_mem_nil hg.ne_padding hn
    rwa [List.nil_append, List.nil_append] at h
  rw [markCells, hkeep _ appliesAt_closingTag _ (frame_rules hg _).1, replaceAll,
    hkeep _ appliesAt_recordTag _ (frame_rules hg _).2.1,
    hkeep _ appliesAt_openingTag _ (frame_rules hg _).2.2.1, markCells, replaceAll]

theorem mark_text (ht : '<' ∉ t) : mark t = clean t := by
  have hc := mark_not_mem_clean ht
  have hb := replaceBy_blankBeforeTag_keep hc solid_nil (by simp)
  rw [List.append_nil, replaceBy_nil, List.append_nil] at hb
  have hm := markCells_append hc []
  rw [List.append_nil, markCells_nil, List.append_nil] at hm
  rw [mark, hb, hm]

/-- An opening tag takes the white space before it away and leaves its separator. -/
theorem mark_opening (ht : '<' ∉ t) (d : Digits) (x : Text) :
    mark (t ++ ((Tag.opening d).render ++ x)) = trimEnd (clean t) ++ (d.mark ++ mark x) := by
  have hc := mark_not_mem_clean ht
  have htrim : '<' ∉ trimEnd (clean t) := fun h => hc (trimEnd_subset _ h)
  have hblank : replaceBy blankBeforeTag (clean t ++ ((Tag.opening d).render ++ clean x)) =
      trimEnd (clean t) ++ ((Tag.opening d).render ++ replaceBy blankBeforeTag (clean x)) := by
    have h := replaceBy_blankBeforeTag_solid d.solid (clean x)
    rw [Tag.render, List.cons_append, List.cons_append, replaceBy_blankBeforeTag_opening hc, h,
      List.cons_append, List.cons_append]
  rw [mark, clean_append_solid (Tag.render_solid _) (Tag.render_ne_nil _), hblank,
    markCells_append htrim, markCells_opening, mark]

/-- A closing tag goes and the texts around it meet. -/
theorem mark_closing (ht : '<' ∉ t) (d : Digits) (x : Text) :
    mark (t ++ ((Tag.closing d).render ++ x)) = clean t ++ mark x := by
  have hn : ¬ ['<', 'F'] <+: (Tag.closing d).render ++ clean x := by
    simp [Tag.render, List.cons_prefix_cons]
  have hc := mark_not_mem_clean ht
  rw [mark, clean_append_solid (Tag.render_solid _) (Tag.render_ne_nil _),
    replaceBy_blankBeforeTag_other hn hc, markCells_append hc, markCells_closing, mark]

theorem mark_frame (ht : '<' ∉ t) {g : Tag} (hg : g.IsFrame) (x : Text) :
    mark (t ++ (g.render ++ x)) = clean t ++ (g.render ++ mark x) := by
  have hc := mark_not_mem_clean ht
  rw [mark, clean_append_solid (Tag.render_solid _) (Tag.render_ne_nil _),
    replaceBy_blankBeforeTag_other (frame_rules hg _).2.2.2 hc, markCells_append hc,
    markCells_frame hg, mark]

end Marking

/-- Takes the first start of the frame and the first end away, each if it is wanted, and all
padding. -/
def strip (start finish : Bool) (t : Text) : Text :=
  let t := if start then replaceFirst frameStartText [] t else t
  let t := if finish then replaceFirst frameEndText [] t else t
  replaceAll blankPair [] t

theorem normalize_eq (reply : Text) :
    normalize reply = unescape (mark (strip true true reply)) := by
  rw [normalize, stripBreaks_eq_clean]
  rfl

/-- One scan over the tags, with `t` the text since the last tag that stays. The flags tell whether
a start and an end of the frame are still to be taken away. -/
def scan (start finish : Bool) (t : Text) : List (Tag × Text) → Text
  | [] => clean t
  | (.opening d, u) :: rest => trimEnd (clean t) ++ (d.mark ++ scan start finish u rest)
  | (.closing _, u) :: rest => clean t ++ scan start finish u rest
  | (.padding, u) :: rest => scan start finish (t ++ u) rest
  | (.frameStart, u) :: rest =>
    if start then scan false finish (t ++ u) rest
    else clean t ++ (frameStartText ++ scan start finish u rest)
  | (.frameEnd, u) :: rest =>
    if finish then scan start false (t ++ u) rest
    else clean t ++ (frameEndText ++ scan start finish u rest)

section Stripping
variable {t x : Text} {g : Tag}

/-- A pattern is not looked for inside a tag that it does not begin. -/
theorem replaceFirst_keep {p body : Text} (hb : '<' ∉ body)
    (h : ¬ '<' :: p <+: '<' :: (body ++ x)) :
    replaceFirst ('<' :: p) [] ('<' :: (body ++ x)) =
      '<' :: (body ++ replaceFirst ('<' :: p) [] x) := by
  rw [replaceFirst_skip h, replaceFirst_append p [] hb]

theorem replaceFirst_tag_keep {p : Text} (hg : g ≠ .padding)
    (h : ¬ '<' :: p <+: g.render ++ x) :
    replaceFirst ('<' :: p) [] (g.render ++ x) = g.render ++ replaceFirst ('<' :: p) [] x := by
  obtain ⟨body, hb, hn⟩ := Tag.render_eq_cons hg
  rw [hb, List.cons_append] at h ⊢
  rw [replaceFirst_keep hn h, List.cons_append]

/-- The padding is two tags, and a pattern that begins like neither is not looked for inside. -/
theorem replaceFirst_padding_keep {a b : Char} {p : Text} (ha : a ≠ 'F')
    (hb : ¬ (a = '/' ∧ b = 'F')) :
    replaceFirst ('<' :: a :: b :: p) [] (Tag.padding.render ++ x) =
      Tag.padding.render ++ replaceFirst ('<' :: a :: b :: p) [] x := by
  obtain ⟨u, v, hpair, hu, hv⟩ : ∃ u v, Tag.padding.render = '<' :: ('F' :: u ++ '<' :: v) ∧
      '<' ∉ 'F' :: u ∧ '<' ∉ v ∧ ['/', 'F'] <+: v :=
    ⟨"LDBLANK>".toList, "/FLDBLANK>".toList, rfl, by decide, by decide, ⟨"LDBLANK>".toList, rfl⟩⟩
  obtain ⟨hv, w, rfl⟩ := hv
  have hfirst (y : Text) : ¬ '<' :: a :: b :: p <+: '<' :: ('F' :: u ++ y) :=
    fun h => ha (List.cons_prefix_cons.mp (List.cons_prefix_cons.mp h).2).1
  have hsecond (y : Text) : ¬ '<' :: a :: b :: p <+: '<' :: (['/', 'F'] ++ w ++ y) := by
    intro h
    have h' := List.cons_prefix_cons.mp (List.cons_prefix_cons.mp h).2
    exact hb ⟨h'.1, (List.cons_prefix_cons.mp h'.2).1⟩
  have hsplit (y : Text) : '<' :: ('F' :: u ++ '<' :: (['/', 'F'] ++ w)) ++ y =
      '<' :: ('F' :: u ++ '<' :: (['/', 'F'] ++ w ++ y)) := by simp
  rw [hpair, hsplit, replaceFirst_keep hu (hfirst _), replaceFirst_keep hv (hsecond _), hsplit]

theorem replaceFirst_frameStart_append (ht : '<' ∉ t) (x : Text) :
    replaceFirst frameStartText [] (t ++ x) = t ++ replaceFirst frameStartText [] x :=
  replaceFirst_append "ENVELOPE>".toList [] ht x

theorem replaceFirst_frameEnd_append (ht : '<' ∉ t) (x : Text) :
    replaceFirst frameEndText [] (t ++ x) = t ++ replaceFirst frameEndText [] x :=
  replaceFirst_append "/ENVELOPE>".toList [] ht x

theorem replaceFirst_frameStart_keep (hg : g ≠ .frameStart) :
    replaceFirst frameStartText [] (g.render ++ x) =
      g.render ++ replaceFirst frameStartText [] x := by
  obtain ⟨r, hr⟩ : ∃ r, frameStartText = '<' :: 'E' :: 'N' :: r := ⟨_, rfl⟩
  obtain ⟨s, hs⟩ := frameEndText_eq_cons
  rw [hr]
  cases g with
  | frameStart => exact absurd rfl hg
  | padding => exact replaceFirst_padding_keep (by decide) (by decide)
  | opening d => exact replaceFirst_tag_keep Tag.noConfusion (by simp [Tag.render])
  | closing d => exact replaceFirst_tag_keep Tag.noConfusion (by simp [Tag.render])
  | frameEnd => exact replaceFirst_tag_keep Tag.noConfusion (by simp [Tag.render, hs])

theorem replaceFirst_frameEnd_keep (hg : g ≠ .frameEnd) :
    replaceFirst frameEndText [] (g.render ++ x) =
      g.render ++ replaceFirst frameEndText [] x := by
  obtain ⟨r, hr⟩ := frameEndText_eq_cons
  obtain ⟨s, hs⟩ := frameStartText_eq_cons
  rw [hr]
  cases g with
  | frameEnd => exact absurd rfl hg
  | padding => exact replaceFirst_padding_keep (by decide) (by decide)
  | opening d => exact replaceFirst_tag_keep Tag.noConfusion (by simp [Tag.render])
  | closing d => exact replaceFirst_tag_keep Tag.noConfusion (by simp [Tag.render])
  | frameStart => exact replaceFirst_tag_keep Tag.noConfusion (by simp [Tag.render, hs])

theorem appliesAt_blankPair : AppliesAt '<' (literal blankPair []) :=
  appliesAt_literal '<' "FLDBLANK></FLDBLANK>".toList []

theorem strip_append (start finish : Bool) (ht : '<' ∉ t) (x : Text) :
    strip start finish (t ++ x) = t ++ strip start finish x := by
  have hpad (y : Text) : replaceAll blankPair [] (t ++ y) = t ++ replaceAll blankPair [] y :=
    replaceBy_append appliesAt_blankPair ht y
  cases start <;> cases finish <;>
    simp [strip, replaceFirst_frameStart_append ht, replaceFirst_frameEnd_append ht, hpad]

theorem strip_nil (start finish : Bool) : strip start finish [] = [] := by
  cases start <;> cases finish <;> rfl

theorem strip_text (start finish : Bool) (ht : '<' ∉ t) : strip start finish t = t := by
  simpa [strip_nil] using strip_append start finish ht []

theorem replaceAll_blankPair_keep (hg : g ≠ .padding) :
    replaceAll blankPair [] (g.render ++ x) = g.render ++ replaceAll blankPair [] x := by
  have hn : literal blankPair [] (g.render ++ x) = none := by
    rw [literal, if_neg]
    exact fun h => not_blankPair_starts hg (startsWith_iff.mp h)
  have h := replaceBy_tag_keep (t := []) appliesAt_blankPair List.not_mem_nil hg hn
  rwa [List.nil_append, List.nil_append] at h

theorem strip_padding (start finish : Bool) (x : Text) :
    strip start finish (Tag.padding.render ++ x) = strip start finish x := by
  have hpad (y : Text) : replaceAll blankPair [] (Tag.padding.render ++ y) =
      replaceAll blankPair [] y := replaceAll_match (by decide) [] y
  cases start <;> cases finish <;>
    simp [strip, replaceFirst_frameStart_keep, replaceFirst_frameEnd_keep, hpad]

theorem strip_keep {start finish : Bool} (hp : g ≠ .padding) (hs : start = true → g ≠ .frameStart)
    (hf : finish = true → g ≠ .frameEnd) (x : Text) :
    strip start finish (g.render ++ x) = g.render ++ strip start finish x := by
  cases start <;> cases finish <;>
    simp_all [strip, replaceFirst_frameStart_keep, replaceFirst_frameEnd_keep,
      replaceAll_blankPair_keep]

theorem strip_frameStart (finish : Bool) (x : Text) :
    strip true finish (Tag.frameStart.render ++ x) = strip false finish x := by
  have h : replaceFirst frameStartText [] (Tag.frameStart.render ++ x) = x :=
    replaceFirst_match (by decide) [] x
  simp [strip, h]

theorem strip_frameEnd (start : Bool) (x : Text) :
    strip start true (Tag.frameEnd.render ++ x) = strip start false x := by
  have h (y : Text) : replaceFirst frameEndText [] (Tag.frameEnd.render ++ y) = y :=
    replaceFirst_match (by decide) [] y
  cases start <;> simp [strip, replaceFirst_frameStart_keep, h]

end Stripping

def Unmarked (segments : List (Tag × Text)) : Prop := ∀ s ∈ segments, '<' ∉ s.2

/-- All replacements together are one scan. -/
theorem mark_strip_spell (start finish : Bool) {t : Text} {segments : List (Tag × Text)}
    (ht : '<' ∉ t) (hs : Unmarked segments) :
    mark (strip start finish (spell t segments)) = scan start finish t segments := by
  induction segments generalizing start finish t with
  | nil => rw [spell, strip_text start finish ht, mark_text ht, scan]
  | cons s rest ih =>
    obtain ⟨g, u⟩ := s
    have hu : '<' ∉ u := hs (g, u) List.mem_cons_self
    have hrest : Unmarked rest := fun r hr => hs r (List.mem_cons_of_mem _ hr)
    have htu : '<' ∉ t ++ u := by simp [ht, hu]
    have hjoin (b e : Bool) : t ++ strip b e (spell u rest) = strip b e (spell (t ++ u) rest) := by
      rw [spell_append, strip_append b e ht]
    rw [spell, strip_append start finish ht]
    cases g with
    | opening d =>
      rw [strip_keep Tag.noConfusion (fun _ => Tag.noConfusion) (fun _ => Tag.noConfusion),
        mark_opening ht, ih start finish hu hrest, scan]
    | closing d =>
      rw [strip_keep Tag.noConfusion (fun _ => Tag.noConfusion) (fun _ => Tag.noConfusion),
        mark_closing ht, ih start finish hu hrest, scan]
    -- what goes without a separator leaves one text behind, so that `t` is generalized
    | padding => rw [strip_padding, hjoin, ih start finish htu hrest, scan]
    | frameStart =>
      rw [scan]
      cases start with
      | true => rw [strip_frameStart, hjoin, ih false finish htu hrest, if_pos rfl]
      | false =>
        rw [strip_keep Tag.noConfusion Bool.noConfusion (fun _ => Tag.noConfusion),
          mark_frame ht (Or.inl rfl), ih false finish hu hrest, if_neg Bool.false_ne_true]
        rfl
    | frameEnd =>
      rw [scan]
      cases finish with
      | true => rw [strip_frameEnd, hjoin, ih start false htu hrest, if_pos rfl]
      | false =>
        rw [strip_keep Tag.noConfusion (fun _ => Tag.noConfusion) Bool.noConfusion,
          mark_frame ht (Or.inr rfl), ih start false hu hrest, if_neg Bool.false_ne_true]
        rfl

theorem normalize_spell {t : Text} {segments : List (Tag × Text)} (ht : '<' ∉ t)
    (hs : Unmarked segments) :
    normalize (spell t segments) = unescape (scan true true t segments) := by
  rw [normalize_eq, mark_strip_spell true true ht hs]

end LedgerExport.Reply
