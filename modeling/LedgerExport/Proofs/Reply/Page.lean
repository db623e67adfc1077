import LedgerExport.Reply.Decode
import LedgerExport.Proofs.Reply.Scan
import LedgerExport.Proofs.Text.Entity
import LedgerExport.Proofs.Text.Numeral

/-! # Replies as the engine lays them out

A page is a list of records in the tags that a request asks for, with any white space between the
elements and padding behind the records. Decoding a page gives its cells back, cleaned and with
their entities read. The main statement is `decode_render`.
-/
namespace LedgerExport.Reply
open Text

structure Gap where
  text : Text
  blank : AllBlank text

/-- What stands between the tags of a cell, and the white space behind them. -/
structure Cell where
  raw : Text
  gap : Gap
  unmarked : '<' ∉ raw

/-- One or more cells and then padding, each with the white space behind it. -/
structure Record where
  cells : List Cell
  padding : List Gap
  ne_nil : cells ≠ []

/-- Records in their frame, with the white space around its two tags. -/
structure Page where
  lead : Gap
  start : Gap
  records : List Record
  finish : Gap

def Cell.render (n : Nat) (c : Cell) : Text :=
  '<' :: Request.fieldTag n ++ '>' :: c.raw ++
    "</".toList ++ Request.fieldTag n ++ '>' :: c.gap.text

/-- The cells in order, numbered from one, and the padding. -/
def Record.render (r : Record) : Text :=
  (r.cells.zipIdx 1).flatMap (fun e => e.1.render e.2) ++
    r.padding.flatMap (fun g => blankPair ++ g.text)

def Page.render (p : Page) : Text :=
  p.lead.text ++ frameStartText ++ p.start.text ++ p.records.flatMap Record.render ++
    frameEndText ++ p.finish.text

def Record.tail (r : Record) : Text :=
  (r.cells.getLast r.ne_nil).gap.text ++ r.padding.flatMap Gap.text

def Record.values (r : Record) : List Text := r.cells.map fun c => unescape (clean c.raw)

/-- Nothing, or white space up to a line break. -/
def Settled (w : Text) : Prop := w = [] ∨ lineBreak <:+ w

instance (w : Text) : Decidable (Settled w) := by unfold Settled; infer_instance

def number (n : Nat) : Digits where
  text := padZero 2 (decimal n)
  ne_nil h := by
    have hd : decimal n ≠ [] := Nat.toDigits_ne_nil
    exact hd (List.append_eq_nil_iff.mp h).2
  decimal c hc := by
    rcases List.mem_append.mp hc with h | h
    · rw [List.eq_of_mem_replicate h]
      decide
    · exact isDecimalDigit_of_isDigit (Nat.isDigit_of_mem_toDigits (by decide) (by decide) h)

theorem fieldTag_eq (n : Nat) : Request.fieldTag n = 'F' :: (number n).text := rfl

/-- Only the first column has the record tag, however many columns there are. -/
theorem number_eq_record_iff (n : Nat) : (number n).text = ['0', '1'] ↔ n = 1 := by
  constructor
  · intro h
    rw [← ofDigitChars_padZero 2 n]
    change Nat.ofDigitChars 10 (number n).text 0 = 1
    rw [h]
    decide
  · rintro rfl
    decide

def marked (k : Nat) (cells : List Cell) : Text :=
  (cells.zipIdx k).flatMap fun e => (number e.2).mark ++ clean e.1.raw

def Cell.segments (n : Nat) (c : Cell) : List (Tag × Text) :=
  [(.opening (number n), c.raw), (.closing (number n), c.gap.text)]

def Record.segments (r : Record) : List (Tag × Text) :=
  (r.cells.zipIdx 1).flatMap (fun e => e.1.segments e.2) ++
    r.padding.map fun g => (.padding, g.text)

def Page.segments (p : Page) : List (Tag × Text) :=
  (.frameStart, p.start.text) :: (p.records.flatMap Record.segments ++
    [(.frameEnd, p.finish.text)])

theorem spell_eq_flatMap (t : Text) (segments : List (Tag × Text)) :
    spell t segments = t ++ segments.flatMap fun s => s.1.render ++ s.2 := by
  induction segments generalizing t with
  | nil => simp [spell]
  | cons s rest ih =>
    rw [spell, ih, List.flatMap_cons, List.append_assoc]

theorem Cell.render_eq (n : Nat) (c : Cell) :
    c.render n = (c.segments n).flatMap fun s => s.1.render ++ s.2 := by
  simp [Cell.render, Cell.segments, Tag.render, fieldTag_eq]

theorem Record.render_eq (r : Record) :
    r.render = r.segments.flatMap fun s => s.1.render ++ s.2 := by
  rw [Record.render, Record.segments, List.flatMap_append, List.flatMap_assoc, List.flatMap_map]
  congr 1
  exact List.flatMap_congr fun e _ => e.1.render_eq e.2

theorem Page.render_eq (p : Page) : p.render = spell p.lead.text p.segments := by
  have hr : p.records.flatMap Record.render =
      (p.records.flatMap Record.segments).flatMap fun s => s.1.render ++ s.2 := by
    rw [List.flatMap_assoc]
    exact List.flatMap_congr fun r _ => r.render_eq
  rw [spell_eq_flatMap, Page.segments, Page.render, hr]
  simp only [List.flatMap_cons, List.flatMap_append, List.flatMap_nil, Tag.render,
    List.append_assoc, List.append_nil]

theorem trimEnd_clean_blank {w : Text} (hw : AllBlank w) : trimEnd (clean w) = [] :=
  trimEnd_blank hw.clean

theorem clean_settled {w : Text} (hw : AllBlank w) (hs : Settled w) : clean w = [] := by
  rcases hs with rfl | ⟨a, rfl⟩
  · rfl
  · have h : afterBreak (a ++ (lineBreak ++ [])) = [] := afterBreak_append a (by decide)
    rw [List.append_nil] at h
    rw [Reply.clean, collapse_blank hw, h, List.map_nil]

section Scanning
variable (start finish : Bool) {w : Text}

/-- The cells come one after the other, and the white space behind the last one is left. -/
theorem scan_cells {cells : List Cell} (hne : cells ≠ []) (k : Nat) (hw : AllBlank w)
    (rest : List (Tag × Text)) :
    scan start finish w ((cells.zipIdx k).flatMap (fun e => e.1.segments e.2) ++ rest) =
      marked k cells ++ scan start finish (cells.getLast hne).gap.text rest := by
  induction cells generalizing k w with
  | nil => exact absurd rfl hne
  | cons c cs ih =>
    rw [marked, List.zipIdx_cons, List.flatMap_cons, List.flatMap_cons, Cell.segments]
    simp only [List.cons_append, List.nil_append, scan, trimEnd_clean_blank hw]
    cases cs with
    | nil => simp
    | cons d ds =>
      rw [ih (List.cons_ne_nil d ds) (k + 1) c.gap.blank, marked, List.append_assoc,
        List.append_assoc]
      rfl

theorem scan_padding (padding : List Gap) (rest : List (Tag × Text)) (w : Text) :
    scan start finish w (padding.map (fun g => (Tag.padding, g.text)) ++ rest) =
      scan start finish (w ++ padding.flatMap Gap.text) rest := by
  induction padding generalizing w with
  | nil => simp
  | cons g gs ih =>
    rw [List.map_cons, List.cons_append, scan, ih, List.flatMap_cons, List.append_assoc]

theorem scan_record (r : Record) (hw : AllBlank w) (rest : List (Tag × Text)) :
    scan start finish w (r.segments ++ rest) =
      marked 1 r.cells ++ scan start finish r.tail rest := by
  rw [Record.segments, List.append_assoc, scan_cells start finish r.ne_nil 1 hw, scan_padding,
    Record.tail]

theorem Record.tail_blank (r : Record) : AllBlank r.tail := by
  refine AllBlank.append (Gap.blank _) ?_
  intro c hc
  obtain ⟨g, -, hg⟩ := List.mem_flatMap.mp hc
  exact g.blank c hg

def trailing (w : Text) (records : List Record) : Text :=
  (records.getLast?.map Record.tail).getD w

theorem trailing_cons (w : Text) (r : Record) (records : List Record) :
    trailing w (r :: records) = trailing r.tail records := by
  cases records with
  | nil => rfl
  | cons s rest =>
    rw [trailing, trailing, List.getLast?_cons_cons,
      List.getLast?_eq_some_getLast (List.cons_ne_nil s rest)]
    rfl

theorem scan_records (records : List Record) (hw : AllBlank w) (rest : List (Tag × Text)) :
    scan start finish w (records.flatMap Record.segments ++ rest) =
      records.flatMap (fun r => marked 1 r.cells) ++
        scan start finish (trailing w records) rest := by
  induction records generalizing w with
  | nil => rfl
  | cons r rs ih =>
    rw [List.flatMap_cons, List.append_assoc, scan_record start finish r hw, ih r.tail_blank,
      List.flatMap_cons, List.append_assoc, trailing_cons]

end Scanning

def Record.line (r : Record) : Text := join tab (r.cells.map fun c => clean c.raw)

theorem marked_eq_flatMap (cells : List Cell) {k : Nat} (hk : 1 < k) :
    marked k cells = (cells.map fun c => clean c.raw).flatMap (tab ++ ·) := by
  induction cells generalizing k with
  | nil => rfl
  | cons c cs ih =>
    have hmark : (number k).mark = tab := by
      rw [Digits.mark, if_neg]
      rw [number_eq_record_iff]
      omega
    rw [List.map_cons, List.flatMap_cons, ← ih (Nat.lt_succ_of_lt hk), marked, List.zipIdx_cons,
      List.flatMap_cons, hmark, marked]

/-- The first tag marks a record and the further ones mark its cells. -/
theorem marked_record (r : Record) : marked 1 r.cells = lineBreak ++ r.line := by
  obtain ⟨c, cs, hcs⟩ := List.exists_cons_of_ne_nil r.ne_nil
  have hmark : (number 1).mark = lineBreak := if_pos ((number_eq_record_iff 1).mpr rfl)
  rw [Record.line, hcs, List.map_cons, join_cons, ← marked_eq_flatMap cs (Nat.lt_succ_self 1),
    marked, List.zipIdx_cons, List.flatMap_cons, hmark, List.append_assoc]
  rfl

def Page.rest (p : Page) : Text :=
  trailing (p.lead.text ++ p.start.text) p.records ++ p.finish.text

theorem Page.scan_eq (p : Page) :
    scan true true p.lead.text p.segments =
      (p.records.map Record.line).flatMap (lineBreak ++ ·) ++ clean p.rest := by
  have hlead : AllBlank (p.lead.text ++ p.start.text) := p.lead.blank.append p.start.blank
  rw [Page.segments, scan, if_pos rfl, scan_records false true p.records hlead, scan, if_pos rfl,
    scan, List.flatMap_map]
  congr 1
  exact List.flatMap_congr fun r _ => marked_record r

theorem AllBlank.unmarked {w : Text} (hw : AllBlank w) : '<' ∉ w :=
  fun h => absurd (hw '<' h) (by decide)

theorem Page.unmarked_segments (p : Page) : Unmarked p.segments := by
  intro s hs
  rcases List.mem_cons.mp hs with rfl | hs
  · exact p.start.blank.unmarked
  rcases List.mem_append.mp hs with hs | hs
  · obtain ⟨r, -, hs⟩ := List.mem_flatMap.mp hs
    rcases List.mem_append.mp hs with hs | hs
    · obtain ⟨⟨c, n⟩, -, hs⟩ := List.mem_flatMap.mp hs
      rcases List.mem_cons.mp hs with rfl | hs
      · exact c.unmarked
      · rw [List.mem_singleton.mp hs]
        exact c.gap.blank.unmarked
    · obtain ⟨g, -, rfl⟩ := List.mem_map.mp hs
      exact g.blank.unmarked
  · rw [List.mem_singleton.mp hs]
    exact p.finish.blank.unmarked

theorem normalize_render (p : Page) :
    normalize p.render =
      unescape ((p.records.map Record.line).flatMap (lineBreak ++ ·) ++ clean p.rest) := by
  rw [p.render_eq, normalize_spell p.lead.blank.unmarked p.unmarked_segments, p.scan_eq]

theorem plain_lineBreak : ∀ m ∈ lineBreak, Plain m := forall_mem_of_all (by decide)

theorem plain_tab : ∀ m ∈ tab, Plain m := forall_mem_of_all (by decide)

def lines (t : Text) : List (List Text) := (splitOn lineBreak t).map (splitOn tab)

/-- No entity reaches over a line break or a tab and none stands for one, so that it does not matter
whether entities are read in the whole text or in each of its cells. -/
theorem lines_unescape (t : Text) :
    lines (unescape t) = (lines t).map fun line => line.map unescape := by
  rw [lines, splitOn_unescape plain_lineBreak (by decide), lines, List.map_map, List.map_map]
  apply List.map_congr_left
  intro line _
  exact splitOn_unescape plain_tab (by decide) line

/-- A text without a line break, at whose end none can begin. -/
theorem noStart_lineBreak {t : Text} (h : ¬ lineBreak <:+: t) : NoStart lineBreak t := by
  intro hi
  have hd : lineBreak.dropLast = ['\r'] := rfl
  rw [hd, List.infix_concat_iff] at hi
  rcases hi with hi | hi
  · obtain ⟨a, ha⟩ := hi
    have hlast := congrArg List.getLast? ha
    simp [lineBreak] at hlast
  · exact h hi

theorem Record.not_infix_line (r : Record) : ¬ lineBreak <:+: r.line := by
  rw [Record.line, tab, infix_join_iff (by decide) (by decide)]
  rintro ⟨t, ht, h⟩
  obtain ⟨c, -, rfl⟩ := List.mem_map.mp ht
  exact not_infix_clean c.raw h

theorem Record.splitOn_line (r : Record) : splitOn tab (unescape r.line) = r.values := by
  have hv : (r.cells.map fun c => clean c.raw).map unescape = r.values := by
    rw [List.map_map]
    rfl
  rw [Record.line, unescape_join plain_tab (by decide), hv]
  refine splitOn_join (by decide) (by simpa [Record.values] using r.ne_nil) fun t ht => ?_
  obtain ⟨c, -, rfl⟩ := List.mem_map.mp ht
  exact NoStart.unescape plain_tab (noStart_singleton.mpr (tab_not_mem_clean c.raw))

/-- The lines of the records are what the reply is split into behind the names. -/
theorem splitOn_lines {header : Text} (hh : '\r' ∉ header) (records : List Record) :
    splitOn lineBreak (header ++ unescape ((records.map Record.line).flatMap (lineBreak ++ ·))) =
      header :: records.map fun r => unescape r.line := by
  have hread := unescape_flatMap plain_lineBreak (by decide) [] (records.map Record.line)
  rw [List.map_map] at hread
  change unescape _ = (records.map fun r => unescape r.line).flatMap (lineBreak ++ ·) at hread
  rw [List.nil_append] at hread
  rw [hread]
  refine splitOn_flatMap (by decide) header _ fun t ht => ?_
  rcases List.mem_cons.mp ht with rfl | ht
  · have hbreak : ¬ lineBreak <:+: t := fun h => hh (h.subset (by decide))
    exact noStart_lineBreak hbreak
  · obtain ⟨r, -, rfl⟩ := List.mem_map.mp ht
    exact (noStart_lineBreak r.not_infix_line).unescape plain_lineBreak

/-- A page is read back record by record, whatever white space stands between its elements, if a
line break ends what follows the last cell. -/
theorem decode_render (p : Page) {names : List Text} (hn : ∀ n ∈ names, '\r' ∉ n)
    (hs : ∀ r ∈ p.records.getLast?, Settled (r.tail ++ p.finish.text)) :
    decode names p.render = p.records.map fun r => Row.zip names r.values := by
  have hheader : '\r' ∉ join tab names := not_mem_join (by decide) hn
  rw [decode, normalize_render]
  cases hlast : p.records.getLast? with
  | none =>
    -- without records the white space falls into the row of the names
    have hbreak : ¬ lineBreak <:+: join tab names ++ unescape (clean p.rest) := fun h =>
      not_infix_clean p.rest (infix_of_infix_unescape plain_lineBreak _
        ((infix_append_iff_of_head hheader).mp h))
    rw [List.getLast?_eq_none_iff.mp hlast, List.map_nil, List.flatMap_nil, List.nil_append,
      splitOn_eq_singleton hbreak]
    rfl
  | some r =>
    have hrest : clean p.rest = [] := by
      have htail : p.rest = r.tail ++ p.finish.text := by
        rw [Page.rest, trailing, hlast]
        rfl
      rw [htail]
      exact clean_settled (r.tail_blank.append p.finish.blank) (hs r hlast)
    rw [hrest, List.append_nil, splitOn_lines hheader, List.drop_succ_cons, List.drop_zero,
      List.map_map]
    refine List.map_congr_left fun s _ => ?_
    rw [Function.comp_apply, s.splitOn_line]

/-- Two records: one padded and with a text over two lines, the other with an entity of an entity
and a cell too many. -/
def twoVouchers : Page where
  lead := ⟨[], by decide⟩
  start := ⟨"\r\n ".toList, by decide⟩
  records :=
    [{ cells :=
        [⟨"20240401".toList, ⟨"\r\n\t".toList, by decide⟩, by decide⟩,
          ⟨"rent\tfor \r\n  May &amp; June ".toList, ⟨" ".toList, by decide⟩, by decide⟩]
       padding := [⟨"\r\n".toList, by decide⟩]
       ne_nil := by decide },
      { cells :=
          [⟨[], ⟨[], by decide⟩, by decide⟩, ⟨"&amp;lt;".toList, ⟨[], by decide⟩, by decide⟩,
            ⟨"1".toList, ⟨"\r\n".toList, by decide⟩, by decide⟩]
        padding := []
        ne_nil := by decide }]
  finish := ⟨" \r\n".toList, by decide⟩

theorem decode_twoVouchers :
    decode ["date".toList, "text".toList] twoVouchers.render =
      [⟨[("date".toList, "20240401".toList), ("text".toList, "rent for  May & June ".toList)]⟩,
        ⟨[("date".toList, []), ("text".toList, "&lt;".toList)]⟩] := by
  rw [decode_render twoVouchers (by decide) (by decide)]
  decide

end LedgerExport.Reply
