import LedgerExport.Proofs.OrderedMap
import LedgerExport.Proofs.Reply.Page

/-! # Records and cells of any reply

A reply may hold its tags in any order, with texts anywhere between them. If its carriage returns
all belong to line breaks, every separator of the normalized text stems from one opening tag, and no
other part of the reply brings one. So the rows of a reply are counted by its record tags, and the
cells of a row by the opening tags up to the next record. The main statement is
`decode_tokens_shape`.
-/
namespace LedgerExport.Reply
open Text

/-- Every carriage return is followed by a line feed. -/
def Paired (t : Text) : Prop := ∀ s ∈ t.tails, ['\r'] <+: s → lineBreak <+: s

instance (t : Text) : Decidable (Paired t) := by unfold Paired; infer_instance

theorem paired_iff {t : Text} : Paired t ↔ ∀ s, s <:+ t → ['\r'] <+: s → lineBreak <+: s := by
  simp only [Paired, List.mem_tails]

theorem Paired.suffix {s t : Text} (h : Paired t) (hs : s <:+ t) : Paired s := by
  rw [paired_iff] at h ⊢
  intro u hu
  exact h u (hu.trans hs)

theorem Paired.append {s t : Text} (hs : Paired s) (ht : Paired t) : Paired (s ++ t) := by
  rw [paired_iff] at hs ht ⊢
  rintro u ⟨w, hw⟩ hr
  rcases List.append_eq_append_iff.mp hw with ⟨v, rfl, rfl⟩ | ⟨v, rfl, rfl⟩
  · cases v with
    | nil => exact ht t (List.suffix_refl t) hr
    | cons c cs =>
      have hc : ['\r'] <+: c :: cs := by simpa using hr
      exact (hs _ (List.suffix_append w _) hc).trans (List.prefix_append _ t)
  · exact ht u (List.suffix_append v u) hr

/-- A character that is no part of a line break settles what stands before it. -/
theorem Paired.of_append_cons {s t : Text} {c : Char} (hc : c ∉ lineBreak)
    (h : Paired (s ++ c :: t)) : Paired s := by
  rw [paired_iff] at h ⊢
  rintro u ⟨v, rfl⟩ hr
  have hlong : u ++ c :: t <:+ v ++ u ++ c :: t := ⟨v, by rw [List.append_assoc]⟩
  exact (prefix_append_cons_iff hc).mp (h _ hlong (hr.trans (List.prefix_append u _)))

theorem cr_not_mem_afterBreak {w : Text} (h : Paired w) : '\r' ∉ afterBreak w := by
  intro hr
  obtain ⟨a, b, hab⟩ := List.append_of_mem hr
  have hs : '\r' :: b <:+ afterBreak w := ⟨a, hab.symm⟩
  have hb := paired_iff.mp h _ (hs.trans (afterBreak_suffix w)) ⟨b, rfl⟩
  exact not_infix_afterBreak w (hb.isInfix.trans hs.isInfix)

/-- Cleaning takes the carriage returns away together with their line feeds. -/
theorem cr_not_mem_clean {t : Text} (h : Paired t) : '\r' ∉ clean t := by
  have hcollapse : '\r' ∉ collapse t := by
    induction t using run_induction with
    | run w hw =>
      rw [collapse_blank hw]
      exact cr_not_mem_afterBreak h
    | step w c r hw hc ih =>
      have hbreak := not_mem_lineBreak hc
      have hr : Paired r := h.suffix ((List.suffix_cons c r).trans (List.suffix_append w _))
      have hne : '\r' ≠ c := by
        rintro rfl
        exact hbreak (by decide)
      rw [collapse_append_cons hc, collapse_blank hw, List.mem_append, List.mem_cons, not_or,
        not_or]
      exact ⟨cr_not_mem_afterBreak (h.of_append_cons hbreak), hne, ih hr⟩
  intro hr
  obtain ⟨c, hc, he⟩ := List.mem_map.mp hr
  by_cases ht : c = '\t'
  · rw [if_pos ht] at he
    exact absurd he (by decide)
  · rw [if_neg ht] at he
    exact hcollapse (he ▸ hc)

def Free (t : Text) : Prop := ∀ c ∈ t, c ≠ '\r' ∧ c ≠ '\t'

instance (t : Text) : Decidable (Free t) :=
  List.decidableBAll (fun c => c ≠ '\r' ∧ c ≠ '\t') t

theorem Free.append {s t : Text} (hs : Free s) (ht : Free t) : Free (s ++ t) := by
  intro c hc
  rcases List.mem_append.mp hc with hc | hc
  · exact hs c hc
  · exact ht c hc

theorem Free.subset {s t : Text} (ht : Free t) (h : s ⊆ t) : Free s := fun c hc => ht c (h hc)

theorem Free.unescape {t : Text} (h : Free t) : Free (Text.unescape t) := by
  have hmem (m : Char) (hm : Plain m) (hu : m ∈ Text.unescape t) : m ∈ t := by
    rw [← List.singleton_infix_iff] at hu ⊢
    exact infix_of_infix_unescape (by simpa using hm) t hu
  intro c hc
  constructor
  · rintro rfl
    exact (h _ (hmem _ (by decide) hc)).1 rfl
  · rintro rfl
    exact (h _ (hmem _ (by decide) hc)).2 rfl

theorem free_clean {t : Text} (h : Paired t) : Free (clean t) := by
  intro c hc
  constructor
  · rintro rfl
    exact cr_not_mem_clean h hc
  · rintro rfl
    exact tab_not_mem_clean t hc

/-- Text without separators, in which the marks of the given numbers stand in order. -/
def Marked : List Digits → Text → Prop
  | [], x => Free x
  | d :: ds, x => ∃ a b, x = a ++ (d.mark ++ b) ∧ Free a ∧ Marked ds b

theorem Marked.append_left {ds : List Digits} {a x : Text} (ha : Free a) (h : Marked ds x) :
    Marked ds (a ++ x) := by
  cases ds with
  | nil => exact Free.append ha h
  | cons d ds =>
    obtain ⟨b, y, rfl, hb, hy⟩ := h
    exact ⟨a ++ b, y, by rw [List.append_assoc], ha.append hb, hy⟩

theorem Digits.mark_plain (d : Digits) : (∀ m ∈ d.mark, Plain m) ∧ d.mark ≠ [] := by
  unfold Digits.mark
  split
  · exact ⟨plain_lineBreak, by decide⟩
  · exact ⟨plain_tab, by decide⟩

theorem Marked.unescape {ds : List Digits} {x : Text} (h : Marked ds x) :
    Marked ds (Text.unescape x) := by
  induction ds generalizing x with
  | nil => exact Free.unescape h
  | cons d ds ih =>
    obtain ⟨a, b, rfl, ha, hb⟩ := h
    refine ⟨Text.unescape a, Text.unescape b, ?_, ha.unescape, ih hb⟩
    exact unescape_append_sep d.mark_plain.1 d.mark_plain.2 a b

def numbers : List (Tag × Text) → List Digits
  | [] => []
  | (.opening d, _) :: rest => d :: numbers rest
  | (_, _) :: rest => numbers rest

/-- The scan of a reply leaves one mark for each opening tag and no other separator. -/
theorem marked_scan (start finish : Bool) {t : Text} {segments : List (Tag × Text)}
    (ht : Paired t) (hs : ∀ s ∈ segments, Paired s.2) :
    Marked (numbers segments) (scan start finish t segments) := by
  induction segments generalizing start finish t with
  | nil => exact free_clean ht
  | cons s rest ih =>
    obtain ⟨g, u⟩ := s
    have hu : Paired u := hs (g, u) List.mem_cons_self
    have hrest : ∀ r ∈ rest, Paired r.2 := fun r hr => hs r (List.mem_cons_of_mem _ hr)
    have hjoin := ht.append hu
    cases g with
    | opening d =>
      exact ⟨_, _, rfl, (free_clean ht).subset (trimEnd_subset _), ih start finish hu hrest⟩
    | closing d => exact (ih start finish hu hrest).append_left (free_clean ht)
    | padding => exact ih start finish hjoin hrest
    | frameStart =>
      rw [scan]
      split
      · exact ih false finish hjoin hrest
      · exact ((ih start finish hu hrest).append_left (by decide)).append_left (free_clean ht)
    | frameEnd =>
      rw [scan]
      split
      · exact ih start false hjoin hrest
      · exact ((ih start finish hu hrest).append_left (by decide)).append_left (free_clean ht)

def Digits.isRecord (d : Digits) : Bool := d.text = ['0', '1']

theorem length_splitOn_tab (t : Text) : (splitOn tab t).length = 1 + t.count '\t' := by
  rw [Nat.add_comm]
  exact length_splitOn_singleton '\t' t

/-- A line holds one tab for each cell mark between two record marks. -/
theorem splitOn_marked {ds : List Digits} {x header : Text} (h : Marked ds x)
    (hh : '\r' ∉ header) :
    (splitOn lineBreak (header ++ x)).map (List.count '\t') =
      ((ds.splitOnP Digits.isRecord).map List.length).modifyHead (· + header.count '\t') := by
  induction ds generalizing x header with
  | nil =>
    have hx : '\r' ∉ header ++ x := by
      rw [List.mem_append, not_or]
      exact ⟨hh, fun hx => (h _ hx).1 rfl⟩
    have hone : ¬ lineBreak <:+: header ++ x := fun hi => hx (hi.subset (by decide))
    have hcount : x.count '\t' = 0 := List.count_eq_zero.mpr fun ht => (h _ ht).2 rfl
    simp [splitOn_eq_singleton hone, hcount]
  | cons d ds ih =>
    obtain ⟨a, b, rfl, ha, hb⟩ := h
    have hcr : '\r' ∉ header ++ a := by
      rw [List.mem_append, not_or]
      exact ⟨hh, fun hr => (ha _ hr).1 rfl⟩
    have hcount : a.count '\t' = 0 := List.count_eq_zero.mpr fun ht => (ha _ ht).2 rfl
    rw [List.splitOnP_cons_eq_if_modifyHead, Digits.mark]
    by_cases hd : d.text = ['0', '1']
    · have hstart : NoStart lineBreak (header ++ a) :=
        noStart_lineBreak fun hi => hcr (hi.subset (by decide))
      have hsplit := splitOn_append (by decide) hstart b
      have hnil := @ih b [] hb (by decide)
      have hid : List.modifyHead (fun n : Nat => n + 0) = id := List.modifyHead_id
      rw [if_pos hd, if_pos (by simpa [Digits.isRecord] using hd), ← List.append_assoc,
        ← List.append_assoc, hsplit, List.map_cons]
      rw [List.nil_append, List.count_nil, hid] at hnil
      simp [hnil, hcount]
    · have hassoc : header ++ (a ++ (tab ++ b)) = header ++ a ++ tab ++ b := by simp
      have hcr' : '\r' ∉ header ++ a ++ tab := by
        rw [List.mem_append, not_or]
        exact ⟨hcr, by decide⟩
      have hnext := ih hb hcr'
      rw [if_neg hd, if_neg (by simpa [Digits.isRecord] using hd), hassoc, hnext]
      cases hs : ds.splitOnP Digits.isRecord with
      | nil => rfl
      | cons first rest =>
        simp [hcount, tab]
        omega

inductive Token where
  | tag (g : Tag)
  | text (t : Text) (unmarked : '<' ∉ t)

namespace Token

def render : Token → Text
  | tag g => g.render
  | text t _ => t

def isRecord : Token → Bool
  | tag (.opening d) => d.isRecord
  | _ => false

def isCell : Token → Bool
  | tag (.opening d) => !d.isRecord
  | _ => false

end Token

def renderTokens (tokens : List Token) : Text := tokens.flatMap Token.render

/-- The text before the first tag, and each tag with the text behind it. -/
def segmentsOf : List Token → Text × List (Tag × Text)
  | [] => ([], [])
  | .tag g :: rest => ([], (g, (segmentsOf rest).1) :: (segmentsOf rest).2)
  | .text t _ :: rest => (t ++ (segmentsOf rest).1, (segmentsOf rest).2)

theorem renderTokens_eq_spell (tokens : List Token) :
    renderTokens tokens = spell (segmentsOf tokens).1 (segmentsOf tokens).2 := by
  induction tokens with
  | nil => rfl
  | cons k rest ih =>
    have hstep : renderTokens (k :: rest) = k.render ++ renderTokens rest := List.flatMap_cons
    cases k with
    | tag g => rw [hstep, ih]; rfl
    | text t ht => rw [hstep, ih, segmentsOf, spell_append]; rfl

theorem unmarked_segmentsOf (tokens : List Token) :
    '<' ∉ (segmentsOf tokens).1 ∧ Unmarked (segmentsOf tokens).2 := by
  induction tokens with
  | nil => simp [segmentsOf, Unmarked]
  | cons k rest ih =>
    cases k with
    | tag g => simpa [segmentsOf, Unmarked] using ih
    | text t ht => simpa [segmentsOf, ht] using ih

theorem map_countP_modifyHead {α : Type} (p : α → Bool) (a : α) (l : List (List α)) :
    (l.modifyHead (a :: ·)).map (List.countP p) =
      (l.map (List.countP p)).modifyHead (· + if p a then 1 else 0) := by
  cases l with
  | nil => rfl
  | cons first rest => simp [List.countP_cons]

theorem map_length_modifyHead {α : Type} (a : α) (l : List (List α)) :
    (l.modifyHead (a :: ·)).map List.length = (l.map List.length).modifyHead (· + 1) := by
  cases l <;> simp

/-- The opening tags between two record tags are the cells of the first. -/
theorem numbers_segmentsOf (tokens : List Token) :
    ((numbers (segmentsOf tokens).2).splitOnP Digits.isRecord).map List.length =
      (tokens.splitOnP Token.isRecord).map (List.countP Token.isCell) := by
  induction tokens with
  | nil => rfl
  | cons k rest ih =>
    have hskip (hr : k.isRecord = false) (hc : k.isCell = false)
        (hn : numbers (segmentsOf (k :: rest)).2 = numbers (segmentsOf rest).2) :
        ((numbers (segmentsOf (k :: rest)).2).splitOnP Digits.isRecord).map List.length =
          ((k :: rest).splitOnP Token.isRecord).map (List.countP Token.isCell) := by
      have hid (l : List Nat) : l.modifyHead (fun n => n) = l := by cases l <;> rfl
      simp [hn, ih, List.splitOnP_cons_eq_if_modifyHead, map_countP_modifyHead, hr, hc, hid]
    cases k with
    | text t ht => exact hskip rfl rfl rfl
    | tag g =>
      cases g with
      | closing d => exact hskip rfl rfl rfl
      | padding => exact hskip rfl rfl rfl
      | frameStart => exact hskip rfl rfl rfl
      | frameEnd => exact hskip rfl rfl rfl
      | opening d =>
        rw [segmentsOf, numbers, List.splitOnP_cons_eq_if_modifyHead,
          List.splitOnP_cons_eq_if_modifyHead]
        by_cases hd : d.isRecord = true
        · simp [Token.isRecord, hd, ih]
        · simp [Token.isRecord, Token.isCell, hd, ih, map_countP_modifyHead,
            map_length_modifyHead]

theorem paired_segments {t : Text} {segments : List (Tag × Text)} (h : Paired (spell t segments)) :
    Paired t ∧ ∀ s ∈ segments, Paired s.2 := by
  induction segments generalizing t with
  | nil => exact ⟨h, by simp⟩
  | cons s rest ih =>
    obtain ⟨g, u⟩ := s
    obtain ⟨c, cs, hg⟩ := List.exists_cons_of_ne_nil g.render_ne_nil
    have hc : c ∉ lineBreak := not_mem_lineBreak (g.render_solid c (by simp [hg]))
    have htail : Paired (spell u rest) :=
      h.suffix ((List.suffix_append g.render _).trans (List.suffix_append t _))
    rw [spell, hg, List.cons_append] at h
    obtain ⟨hu, hrest⟩ := ih htail
    refine ⟨h.of_append_cons hc, ?_⟩
    intro r hr
    rcases List.mem_cons.mp hr with rfl | hr
    · exact hu
    · exact hrest r hr

theorem length_splitOnP {α : Type} (p : α → Bool) (l : List α) :
    (l.splitOnP p).length = l.countP p + 1 := by
  induction l with
  | nil => rfl
  | cons a as ih =>
    rw [List.splitOnP_cons_eq_if_modifyHead, List.countP_cons]
    by_cases h : p a = true <;> simp [h, ih]

/-- The tabs in the lines of a reply, line by line behind the first. -/
theorem tail_splitOn_normalize {names : List Text} (hn : ∀ n ∈ names, '\r' ∉ n)
    {tokens : List Token} (hp : Paired (renderTokens tokens)) :
    ((splitOn lineBreak (join tab names ++ normalize (renderTokens tokens))).drop 1).map
        (List.count '\t') =
      ((tokens.splitOnP Token.isRecord).drop 1).map (List.countP Token.isCell) := by
  have hheader : '\r' ∉ join tab names := not_mem_join (by decide) hn
  have hmarked : Marked (numbers (segmentsOf tokens).2) (normalize (renderTokens tokens)) := by
    have hu := unmarked_segmentsOf tokens
    rw [renderTokens_eq_spell] at hp ⊢
    obtain ⟨ht, hs⟩ := paired_segments hp
    rw [normalize_spell hu.1 hu.2]
    exact (marked_scan true true ht hs).unescape
  rw [List.map_drop, splitOn_marked hmarked hheader, numbers_segmentsOf, List.map_drop,
    List.drop_modifyHead_of_pos Nat.one_pos]

/-- Decoding gives one row for each record tag, with one cell for it and one for each opening tag
up to the next record, whatever else the reply holds. -/
theorem decode_tokens_shape {names : List Text} (hn : ∀ n ∈ names, '\r' ∉ n) {tokens : List Token}
    (hp : Paired (renderTokens tokens)) :
    (decode names (renderTokens tokens)).length = tokens.countP Token.isRecord ∧
      (names.Nodup → (decode names (renderTokens tokens)).map OrderedMap.names =
        ((tokens.splitOnP Token.isRecord).drop 1).map fun between =>
          names.take (min names.length (1 + between.countP Token.isCell))) := by
  have htabs := tail_splitOn_normalize hn hp
  constructor
  · have hlen := congrArg List.length htabs
    rw [List.length_map, List.length_map, List.length_drop, List.length_drop,
      length_splitOnP] at hlen
    rw [decode, List.length_map, List.length_drop, hlen, Nat.add_sub_cancel]
  · intro hnodup
    have hrow (line : Text) : (Row.zip names (splitOn tab line)).names =
        names.take (1 + line.count '\t') := by
      rw [Row.names_zip hnodup, length_splitOn_tab]
    have hcut (n : Nat) : names.take (min names.length n) = names.take n := by
      rw [Nat.min_comm, ← List.take_eq_take_min]
    simp only [decode, List.map_map, Function.comp_def, hrow, hcut]
    simpa [List.map_map, Function.comp_def] using
      congrArg (List.map fun k => names.take (1 + k)) htabs

/-- Cells before the first record, a stray end tag, a second frame, and records of all lengths. -/
def strayTokens : List Token :=
  [.text "lost\r\n".toList (by decide), .tag (.opening (number 2)), .tag .frameStart,
    .tag (.opening (number 1)), .text " a \r\n\tb".toList (by decide), .tag .frameStart,
    .tag (.opening (number 7)), .tag .padding, .tag (.opening (number 100)), .tag .frameEnd,
    .tag (.opening (number 1)), .tag (.closing (number 1)), .tag .frameEnd,
    .text "&amp;#13;".toList (by decide)]

theorem decode_strayTokens :
    (decode ["date".toList, "text".toList] (renderTokens strayTokens)).length = 2 ∧
      (decode ["date".toList, "text".toList] (renderTokens strayTokens)).map OrderedMap.names =
        [["date".toList, "text".toList], ["date".toList]] := by
  have hpaired : Paired (renderTokens strayTokens) := by decide +kernel
  have hnames : ∀ n ∈ ["date".toList, "text".toList], '\r' ∉ n := by decide
  obtain ⟨hrows, hcells⟩ := decode_tokens_shape hnames hpaired
  exact ⟨hrows.trans (by decide), (hcells (by decide)).trans (by decide)⟩

end LedgerExport.Reply
