import LedgerExport.Proofs.OrderedMap
import LedgerExport.Proofs.Reply.Page

/-! # The layout of a page

White space is taken away where a numbered tag or a line break follows it. Behind the last cell of a
page no such tag follows, so that what stands there after the last line break stays in the cell. The
main statement is `decode_eq_iff_of_grid`, which says when two layouts of the same records are
decoded to the same rows.
-/
namespace LedgerExport.Reply
open Text

theorem plain_of_isBlank {c : Char} (hc : isBlank c = true) : Plain c := by
  have hsolid : ∀ e ∈ entities, e.1.all (fun d => isBlank d = false) = true ∧
      isBlank e.2 = false := by decide
  intro e he
  obtain ⟨hname, hvalue⟩ := hsolid e he
  refine ⟨fun hm => ?_, ?_⟩
  · exact absurd hc (by simp [forall_mem_of_all hname c hm])
  · rintro rfl
    exact absurd hc (by simp [hvalue])

/-- The texts of a page without its layout. -/
def Page.grid (p : Page) : List (List Text) := p.records.map fun r => r.cells.map Cell.raw

def readCells (raws : List Text) : List Text := raws.map fun t => unescape (clean t)

def Breaks (t x : Text) : Prop := ['\r'] <:+ t ∧ ['\n'] <+: x

instance (t x : Text) : Decidable (Breaks t x) := by unfold Breaks; infer_instance

/-- A line break in two texts, one behind the other, stands in one of them or where they meet. -/
theorem infix_append_iff_breaks {a b : Text} :
    lineBreak <:+: a ++ b ↔ lineBreak <:+: a ∨ lineBreak <:+: b ∨ Breaks a b := by
  rw [List.infix_append_iff_ne_nil]
  refine or_congr_right (or_congr_right ⟨?_, fun h => ⟨['\r'], ['\n'], by simp, by simp, rfl, h⟩⟩)
  rintro ⟨u, v, hu, hv, huv, ha, hb⟩
  obtain ⟨c, cs, rfl⟩ := List.exists_cons_of_ne_nil hu
  obtain ⟨d, ds, rfl⟩ := List.exists_cons_of_ne_nil hv
  obtain ⟨rfl, hrest⟩ := List.cons.inj huv
  cases cs with
  | nil =>
    have hlast : ['\n'] = d :: ds := hrest
    exact ⟨ha, hlast ▸ hb⟩
  | cons e es => simp at hrest

theorem splitOn_append_of_breaks {a b : Text} (ha : ¬ lineBreak <:+: a) (hb : ¬ lineBreak <:+: b)
    (h : Breaks a b) : splitOn lineBreak (a ++ b) = [a.dropLast, b.tail] := by
  obtain ⟨⟨u, rfl⟩, ⟨v, rfl⟩⟩ := h
  have hu : ¬ lineBreak <:+: u := fun hi => ha (hi.trans (List.prefix_append u _).isInfix)
  have hv : ¬ lineBreak <:+: v := fun hi => hb (hi.trans (List.suffix_append _ v).isInfix)
  have hsplit := splitOn_append (by decide) (noStart_lineBreak hu) v
  rw [splitOn_eq_singleton hv] at hsplit
  simpa [lineBreak] using hsplit

theorem splitOn_append_of_not_breaks {a b : Text} (ha : ¬ lineBreak <:+: a)
    (hb : ¬ lineBreak <:+: b) (h : ¬ Breaks a b) : splitOn lineBreak (a ++ b) = [a ++ b] := by
  refine splitOn_eq_singleton ?_
  rw [infix_append_iff_breaks, not_or, not_or]
  exact ⟨ha, hb, h⟩

theorem exists_append_afterBreak {t : Text} (h : lineBreak <:+: t) :
    ∃ a, t = a ++ (lineBreak ++ afterBreak t) := by
  cases hk : beforeLastBreak t with
  | none => exact absurd h (beforeLastBreak_eq_none_iff.mp hk)
  | some k =>
    obtain ⟨a, rest, rfl, -, hn⟩ := beforeLastBreak_eq_some hk
    exact ⟨a, by rw [afterBreak_append a hn]⟩

/-- A text is cleaned up to its end, but for a line break that ends it. -/
theorem cr_suffix_clean_iff (t : Text) : ['\r'] <:+ clean t ↔ ['\r'] <:+ t := by
  induction t using run_induction with
  | run w hw =>
    have hmap : ['\r'] <:+ clean w ↔ ['\r'] <:+ afterBreak w := by
      rw [clean, collapse_blank hw, List.singleton_suffix_iff_getLast?_eq_some,
        List.singleton_suffix_iff_getLast?_eq_some, List.getLast?_map]
      cases (afterBreak w).getLast? with
      | none => rfl
      | some c => by_cases hc : c = '\t' <;> simp [hc]
    rw [hmap]
    by_cases hb : lineBreak <:+: w
    · obtain ⟨a, ha⟩ := exists_append_afterBreak hb
      -- what goes ends in a line feed, so that a carriage return at the end is behind it
      have hn : '\n' ≠ '\r' := by decide
      have hsplit : w = (a ++ ['\r']) ++ '\n' :: afterBreak w := by
        rw [List.append_assoc]
        exact ha
      rw [hsplit, suffix_append_cons_iff hn, ← hsplit]
    · rw [afterBreak_eq_self hb]
  | step w c r hw hc ih =>
    have hne : c ≠ '\r' := by
      rintro rfl
      exact absurd hc (by decide)
    rw [clean_append_cons hc, suffix_append_cons_iff hne, suffix_append_cons_iff hne, ih]

section Lines
variable (raws : List Text) (t x : Text)

theorem tab_not_mem_readCells : ∀ v ∈ readCells raws, '\t' ∉ v := by
  intro v hv
  obtain ⟨t, -, rfl⟩ := List.mem_map.mp hv
  have ht : NoStart tab (clean t) := noStart_singleton.mpr (tab_not_mem_clean t)
  exact noStart_singleton.mp (ht.unescape plain_tab)

theorem not_infix_join_readCells : ¬ lineBreak <:+: join tab (readCells raws) := by
  rw [tab, infix_join_iff (by decide) (by decide)]
  rintro ⟨v, hv, h⟩
  obtain ⟨t, -, rfl⟩ := List.mem_map.mp hv
  exact not_infix_clean t (infix_of_infix_unescape plain_lineBreak _ h)

theorem join_concat_append (values : List Text) (v : Text) :
    join tab (values ++ [v]) ++ x = join tab (values ++ [v ++ x]) := by
  rw [join_concat, join_concat, List.append_assoc]

theorem cr_suffix_join_iff (values : List Text) (v : Text) :
    ['\r'] <:+ join tab (values ++ [v]) ↔ ['\r'] <:+ v := by
  rw [join_concat]
  rcases List.eq_nil_or_concat values with rfl | ⟨us, u, rfl⟩
  · rfl
  · have hsplit : (us.concat u).flatMap (· ++ tab) ++ v =
        us.flatMap (· ++ tab) ++ u ++ '\t' :: v := by
      simp [tab]
    rw [hsplit]
    exact suffix_append_cons_iff (by decide) _ v

/-- The line of a record ends in a carriage return where its last text does. -/
theorem breaks_line_iff :
    Breaks (join tab (readCells (raws ++ [t]))) x ↔ Breaks t x := by
  have hcr : Plain '\r' := by decide
  rw [readCells, List.map_append, List.map_singleton, Breaks, Breaks, cr_suffix_join_iff,
    suffix_unescape_iff hcr, cr_suffix_clean_iff]

end Lines

theorem unescape_append_blank (t : Text) {w : Text} (hw : AllBlank w) :
    unescape (t ++ w) = unescape t ++ w :=
  unescape_append_plain (fun c hc => plain_of_isBlank (hw c hc)) t

namespace Page
variable (p : Page)

theorem grid_ne_nil : ∀ raws ∈ p.grid, raws ≠ [] := by
  intro raws hraws
  obtain ⟨r, -, rfl⟩ := List.mem_map.mp hraws
  simpa using r.ne_nil

theorem rest_blank : AllBlank p.rest := by
  refine AllBlank.append ?_ p.finish.blank
  rw [trailing]
  cases p.records.getLast? with
  | none => exact p.lead.blank.append p.start.blank
  | some r => exact r.tail_blank

/-- A normalized page is its grid and the white space behind the last record. -/
theorem normalize_render_grid :
    normalize p.render =
      (p.grid.map fun raws => join tab (readCells raws)).flatMap (lineBreak ++ ·) ++
        clean p.rest := by
  have hline (r : Record) : unescape r.line = join tab (readCells (r.cells.map Cell.raw)) := by
    rw [Record.line, unescape_join plain_tab (by decide), readCells, List.map_map, List.map_map]
    rfl
  have hmap : (p.records.map Record.line).map unescape =
      p.grid.map fun raws => join tab (readCells raws) := by
    rw [grid, List.map_map, List.map_map]
    exact List.map_congr_left fun r _ => hline r
  have hlines := unescape_flatMap plain_lineBreak (by decide) [] (p.records.map Record.line)
  rw [List.nil_append, hmap] at hlines
  rw [normalize_render, unescape_append_blank _ p.rest_blank.clean, hlines]
  rfl

end Page

def lastRows (names raws : List Text) (x : Text) : List Row :=
  (splitOn lineBreak (join tab (readCells raws) ++ x)).map fun line =>
    Row.zip names (splitOn tab line)

section Rows
variable {names : List Text} (hn : ∀ n ∈ names, '\r' ∉ n) {p : Page}
include hn

theorem decode_of_grid_nil (hp : p.grid = []) : decode names p.render = [] := by
  have hbreak : ¬ lineBreak <:+: join tab names ++ clean p.rest := fun h =>
    not_infix_clean p.rest ((infix_append_iff_of_head (not_mem_join (by decide) hn)).mp h)
  rw [decode, p.normalize_render_grid, hp, List.map_nil, List.flatMap_nil, List.nil_append,
    splitOn_eq_singleton hbreak]
  rfl

/-- Only the last record meets the white space behind it. -/
theorem decode_of_grid_concat {grid : List (List Text)} {raws : List Text}
    (hp : p.grid = grid ++ [raws]) :
    decode names p.render =
      grid.map (fun raws => Row.zip names (readCells raws)) ++
        lastRows names raws (clean p.rest) := by
  have hlines : ∀ t ∈ join tab names :: grid.map (fun raws => join tab (readCells raws)),
      NoStart lineBreak t := by
    refine List.forall_mem_cons.mpr ⟨noStart_lineBreak fun h => ?_, fun t ht => ?_⟩
    · exact not_mem_join (by decide) hn (h.subset (by decide))
    · obtain ⟨raws, -, rfl⟩ := List.mem_map.mp ht
      exact noStart_lineBreak (not_infix_join_readCells raws)
  rw [decode, p.normalize_render_grid, hp, List.map_append, List.map_singleton,
    List.flatMap_append, List.flatMap_singleton, List.append_assoc, List.append_assoc,
    splitOn_flatMap_append (by decide) _ _ hlines, List.drop_succ_cons, List.drop_zero,
    List.map_append, List.map_map]
  congr 1
  refine List.map_congr_left fun raws hraws => ?_
  have hne : readCells raws ≠ [] := by
    simpa [readCells] using p.grid_ne_nil raws (hp ▸ List.mem_append_left _ hraws)
  rw [Function.comp_apply, tab, splitOn_join_singleton hne (tab_not_mem_readCells raws)]

end Rows

section LastRows
variable {names raws : List Text} {t w v : Text}

theorem lastRows_of_breaks (h : Breaks t (clean w)) :
    lastRows names (raws ++ [t]) (clean w) =
      [Row.zip names (splitOn tab (join tab (readCells (raws ++ [t]))).dropLast),
        Row.zip names [(clean w).tail]] := by
  have htab : ¬ tab <:+: (clean w).tail := fun hi => by
    rw [tab, List.singleton_infix_iff] at hi
    exact tab_not_mem_clean w (List.mem_of_mem_tail hi)
  rw [lastRows, splitOn_append_of_breaks (not_infix_join_readCells _) (not_infix_clean w)
    ((breaks_line_iff raws t _).mpr h), List.map_cons, List.map_singleton,
    splitOn_eq_singleton htab]

theorem lastRows_of_not_breaks (h : ¬ Breaks t (clean w)) :
    lastRows names (raws ++ [t]) (clean w) =
      [Row.zip names (readCells raws ++ [unescape (clean t) ++ clean w])] := by
  have hcells : ∀ u ∈ readCells raws ++ [unescape (clean t) ++ clean w], NoStart tab u := by
    intro u hu
    rw [tab, noStart_singleton]
    rcases List.mem_append.mp hu with hu | hu
    · exact tab_not_mem_readCells raws u hu
    · rw [List.mem_singleton.mp hu, List.mem_append, not_or]
      exact ⟨tab_not_mem_readCells [t] _ List.mem_cons_self, tab_not_mem_clean w⟩
  rw [lastRows, splitOn_append_of_not_breaks (not_infix_join_readCells _) (not_infix_clean w)
    fun hb => h ((breaks_line_iff raws t _).mp hb), List.map_singleton, readCells, List.map_append,
    List.map_singleton, join_concat_append, ← readCells,
    splitOn_join (by decide) (by simp) hcells]

end LastRows

/-- Two texts behind the last record make the same rows: they are the same, or they go to a cell
without a name, or either begins a row of its own and there are no names. -/
def SameEnd (names raws : List Text) (x y : Text) : Prop :=
  let t := raws.getLastD []
  x = y ∨ (names.length < raws.length ∧ ¬ Breaks t x ∧ ¬ Breaks t y) ∨
    (names = [] ∧ Breaks t x ∧ Breaks t y)

instance (names raws : List Text) (x y : Text) : Decidable (SameEnd names raws x y) := by
  unfold SameEnd; infer_instance

/-- The rows of the last record show the text behind it, where there is a name to show it under. -/
theorem lastRows_inj {names raws : List Text} (hraws : raws ≠ []) (w v : Text) :
    lastRows names raws (clean w) = lastRows names raws (clean v) ↔
      SameEnd names raws (clean w) (clean v) := by
  obtain ⟨init, t, rfl⟩ := (List.eq_nil_or_concat raws).resolve_left hraws
  rw [List.concat_eq_append, SameEnd, List.getLastD_concat, List.length_append,
    List.length_singleton, Nat.lt_succ_iff]
  have hinit : (readCells init).length = init.length := List.length_map _
  by_cases hw : Breaks t (clean w)
  · by_cases hv : Breaks t (clean v)
    · -- the same line ends in both, and the row behind it has what is left as its only cell
      have htails : (clean w).tail = (clean v).tail ↔ clean w = clean v := by
        obtain ⟨-, a, ha⟩ := hw
        obtain ⟨-, b, hb⟩ := hv
        rw [← ha, ← hb]
        simp
      have hlast := @Row.zip_concat_inj names [] (clean w).tail (clean v).tail
      rw [List.nil_append, List.nil_append, htails, List.length_nil, Nat.le_zero,
        List.length_eq_zero_iff] at hlast
      rw [lastRows_of_breaks hw, lastRows_of_breaks hv, List.cons_inj_right, List.cons_eq_cons,
        hlast]
      simp [hw, hv]
    · rw [lastRows_of_breaks hw, lastRows_of_not_breaks hv]
      have hne : clean w ≠ clean v := fun he => hv (he ▸ hw)
      simp [hw, hv, hne]
  · by_cases hv : Breaks t (clean v)
    · rw [lastRows_of_not_breaks hw, lastRows_of_breaks hv]
      have hne : clean w ≠ clean v := fun he => hw (he ▸ hv)
      simp [hw, hv, hne]
    · rw [lastRows_of_not_breaks hw, lastRows_of_not_breaks hv, List.singleton_inj,
        Row.zip_concat_inj, List.append_cancel_left_eq, hinit]
      simp [hw, hv]

/-- Two layouts of the same records are decoded to the same rows exactly if the white space behind
the last cell shows in the same way; no other white space and no padding matters. -/
theorem decode_eq_iff_of_grid {names : List Text} (hn : ∀ n ∈ names, '\r' ∉ n) {p q : Page}
    (hg : p.grid = q.grid) :
    decode names p.render = decode names q.render ↔
      ∀ raws ∈ p.grid.getLast?, SameEnd names raws (clean p.rest) (clean q.rest) := by
  rcases List.eq_nil_or_concat p.grid with hp | ⟨grid, raws, hp⟩
  · rw [decode_of_grid_nil hn hp, decode_of_grid_nil hn (hg ▸ hp), hp]
    simp
  · rw [List.concat_eq_append] at hp
    have hraws : raws ≠ [] := p.grid_ne_nil raws (hp ▸ List.mem_append_right _ List.mem_cons_self)
    rw [decode_of_grid_concat hn hp, decode_of_grid_concat hn (hg ▸ hp), List.append_cancel_left_eq,
      lastRows_inj hraws, hp, List.getLast?_concat]
    simp

def slip (gap : Gap) (padding : List Gap) : Page where
  lead := ⟨[], allBlank_nil⟩
  start := ⟨[], allBlank_nil⟩
  records :=
    [{ cells := [⟨"a".toList, gap, by decide⟩]
       padding := padding
       ne_nil := List.cons_ne_nil _ [] }]
  finish := ⟨[], allBlank_nil⟩

def compactSlip : Page := slip ⟨[], allBlank_nil⟩ []
def prettySlip : Page := slip ⟨"\n\t".toList, by decide⟩ [⟨"\t\r\n".toList, by decide⟩]
def looseSlip : Page := slip ⟨"\n".toList, by decide⟩ []

theorem decode_prettySlip :
    decode ["x".toList] prettySlip.render = decode ["x".toList] compactSlip.render := by
  have hnames : ∀ n ∈ ["x".toList], '\r' ∉ n := by decide
  have hgrid : prettySlip.grid = compactSlip.grid := rfl
  exact (decode_eq_iff_of_grid hnames hgrid).mpr (by decide)

/-- White space at the end that no line break ends does matter. -/
theorem not_decode_eq_of_grid :
    ¬ ∀ (names : List Text) (p q : Page), (∀ n ∈ names, '\r' ∉ n) → p.grid = q.grid →
      decode names p.render = decode names q.render := by
  intro h
  have hslips := h ["x".toList] compactSlip looseSlip (by decide) rfl
  exact absurd hslips (by decide)

end LedgerExport.Reply
