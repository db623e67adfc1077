import LedgerExport.Proofs.Reply.Spacing
import Mathlib.Data.List.Zip

/-! # The header of names

The names are put before a reply only to take up what precedes its first record, and their line is
dropped. It is one line unless a line break stands in a name or comes about behind the last one;
then a part of the names is returned as a row. The main statement is `decode_eq_rowsOf_iff`.
-/
namespace LedgerExport

def Row.cells (r : Row) : List Text := r.entries.map Prod.snd

theorem map_snd_zip_eq_take {α β : Type} (as : List α) (bs : List β) :
    (as.zip bs).map Prod.snd = bs.take as.length := by
  rw [← List.zip_swap bs as, List.map_map]
  exact map_fst_zip_eq_take bs as

theorem Row.cells_zip {names : List Text} (h : names.Nodup) (cells : List Text) :
    (Row.zip names cells).cells = cells.take names.length := by
  rw [Row.cells, Row.entries_zip h, map_snd_zip_eq_take]

namespace Reply
open Text

/-! ## Line breaks behind a header -/

def BreaksWithin (h x : Text) : Prop := lineBreak <:+: h ∨ Breaks h x

instance (h x : Text) : Decidable (BreaksWithin h x) := by unfold BreaksWithin; infer_instance

section Within
variable {c : Char} {cs h x : Text}

theorem not_breaksWithin_nil : ¬ BreaksWithin [] x := by
  simp [BreaksWithin, Breaks, lineBreak]

theorem breaksWithin_cons_iff :
    BreaksWithin (c :: cs) x ↔ lineBreak <+: c :: (cs ++ x) ∨ BreaksWithin cs x := by
  cases cs with
  | nil =>
    have hsingle : ¬ lineBreak <:+: [c] := fun h => Nat.not_succ_le_self 1 h.length_le
    have hsuffix : ['\r'] <:+ [c] ↔ '\r' = c := by
      rw [List.singleton_suffix_iff_getLast?_eq_some]
      simp [eq_comm]
    have hstarts : lineBreak <+: c :: ([] ++ x) ↔ '\r' = c ∧ ['\n'] <+: x :=
      List.cons_prefix_cons
    rw [hstarts, BreaksWithin, Breaks, hsuffix]
    simp [hsingle, not_breaksWithin_nil]
  | cons d ds =>
    have hsuffix : ['\r'] <:+ c :: d :: ds ↔ ['\r'] <:+ d :: ds := by
      rw [List.suffix_cons_iff]
      simp
    have hstarts : lineBreak <+: c :: d :: ds ↔ lineBreak <+: c :: (d :: ds ++ x) := by
      simp [lineBreak, List.cons_prefix_cons]
    rw [BreaksWithin, BreaksWithin, Breaks, Breaks, hsuffix, List.infix_cons_iff, hstarts, or_assoc]

/-- Each line break makes one more line. -/
theorem length_splitOn_cons : (splitOn lineBreak (c :: x)).length =
    (splitOn lineBreak x).length + if lineBreak <+: c :: x then 1 else 0 := by
  have hfirst (d : Char) (t : Text) :
      (consFirst d (splitOn lineBreak t)).length = (splitOn lineBreak t).length := by
    obtain ⟨first, rest, hsplit⟩ := List.exists_cons_of_ne_nil (splitOn_ne_nil lineBreak t)
    rw [hsplit]
    rfl
  by_cases hstart : lineBreak <+: c :: x
  · obtain ⟨r, hr⟩ := hstart
    obtain ⟨rfl, hx⟩ := List.cons.inj hr
    obtain rfl : '\n' :: r = x := hx
    -- the line feed begins no break of its own
    have hmatch : splitOn lineBreak ('\r' :: '\n' :: r) = [] :: splitOn lineBreak r :=
      splitOn_match (by decide) r
    have hskip : ¬ lineBreak <+: '\n' :: r := by simp [lineBreak]
    have hstarts : lineBreak <+: '\r' :: '\n' :: r := List.prefix_append lineBreak r
    rw [if_pos hstarts, hmatch, splitOn_skip hskip, hfirst, List.length_cons]
  · rw [splitOn_skip hstart, hfirst, if_neg hstart, Nat.add_zero]

theorem length_splitOn_le (h x : Text) :
    (splitOn lineBreak x).length ≤ (splitOn lineBreak (h ++ x)).length := by
  induction h with
  | nil => exact Nat.le_refl _
  | cons c cs ih =>
    rw [List.cons_append, length_splitOn_cons]
    omega

theorem length_splitOn_lt (hb : BreaksWithin h x) :
    (splitOn lineBreak x).length < (splitOn lineBreak (h ++ x)).length := by
  induction h with
  | nil => exact absurd hb not_breaksWithin_nil
  | cons c cs ih =>
    rw [List.cons_append, length_splitOn_cons]
    rcases breaksWithin_cons_iff.mp hb with hstart | hb
    · have hle := length_splitOn_le cs x
      rw [if_pos hstart]
      omega
    · have hlt := ih hb
      omega

/-- Without a break in it the header is a part of the first line only. -/
theorem drop_splitOn_append (hb : ¬ BreaksWithin h x) :
    (splitOn lineBreak (h ++ x)).drop 1 = (splitOn lineBreak x).drop 1 := by
  induction h with
  | nil => rfl
  | cons c cs ih =>
    rw [breaksWithin_cons_iff, not_or] at hb
    rw [List.cons_append, splitOn_skip hb.1, ← ih hb.2]
    cases splitOn lineBreak (cs ++ x) <;> rfl

end Within

/-! ## Rows behind a header -/

/-- The lines of a text but the first, as rows. -/
def rowsOf (names : List Text) (t : Text) : List Row :=
  ((splitOn lineBreak t).drop 1).map fun line => Row.zip names (splitOn tab line)

/-- No line break stands in a name, and none comes about between the last name and the text. -/
def StaysApart (names : List Text) (x : Text) : Prop :=
  (∀ n ∈ names, ¬ lineBreak <:+: n) ∧ ¬ Breaks (names.getLastD []) x

instance (names : List Text) (x : Text) : Decidable (StaysApart names x) := by
  unfold StaysApart; infer_instance

theorem staysApart_iff {names : List Text} {x : Text} :
    StaysApart names x ↔ ¬ BreaksWithin (join tab names) x := by
  have hnames : lineBreak <:+: join tab names ↔ ∃ n ∈ names, lineBreak <:+: n :=
    infix_join_iff (by decide) (by decide)
  have hlast : Breaks (join tab names) x ↔ Breaks (names.getLastD []) x := by
    rcases List.eq_nil_or_concat names with rfl | ⟨init, last, rfl⟩
    · rfl
    · rw [List.concat_eq_append, List.getLastD_concat, Breaks, Breaks, cr_suffix_join_iff]
  rw [StaysApart, BreaksWithin, hnames, hlast]
  simp

theorem length_rowsOf (names : List Text) (t : Text) :
    (rowsOf names t).length = (splitOn lineBreak t).length - 1 := by
  rw [rowsOf, List.length_map, List.length_drop]

theorem length_rowsOf_lt {names : List Text} {x : Text} (h : ¬ StaysApart names x)
    (names' : List Text) :
    (rowsOf names' x).length < (rowsOf names (join tab names ++ x)).length := by
  have hlt := length_splitOn_lt (not_not.mp (mt staysApart_iff.mpr h))
  have hpos := List.length_pos_iff.mpr (splitOn_ne_nil lineBreak x)
  rw [length_rowsOf, length_rowsOf]
  omega

theorem decode_of_staysApart {names : List Text} {reply : Text}
    (h : StaysApart names (normalize reply)) :
    decode names reply = rowsOf names (normalize reply) :=
  congrArg (List.map _) (drop_splitOn_append (staysApart_iff.mp h))

theorem length_decode_lt {names : List Text} {reply : Text}
    (h : ¬ StaysApart names (normalize reply)) (names' : List Text) :
    (rowsOf names' (normalize reply)).length < (decode names reply).length :=
  length_rowsOf_lt h names'

theorem map_cells_rowsOf {names : List Text} (h : names.Nodup) (t : Text) :
    (rowsOf names t).map Row.cells =
      ((splitOn lineBreak t).drop 1).map fun line => (splitOn tab line).take names.length := by
  rw [rowsOf, List.map_map]
  exact List.map_congr_left fun line _ => Row.cells_zip h (splitOn tab line)

/-- Decoding gives the lines of the reply behind the first as rows if and only if the names stay
apart from it, and to names that do it gives the same texts in the same places as to as many
others if and only if these do, too. -/
theorem decode_eq_rowsOf_iff (names : List Text) (reply : Text) :
    (decode names reply = rowsOf names (normalize reply) ↔ StaysApart names (normalize reply)) ∧
      ∀ names' : List Text, StaysApart names (normalize reply) → names.Nodup → names'.Nodup →
        names'.length = names.length →
          ((decode names' reply).map Row.cells = (decode names reply).map Row.cells ↔
            StaysApart names' (normalize reply)) := by
  constructor
  · refine ⟨fun h => ?_, decode_of_staysApart⟩
    by_contra hapart
    have hlt := length_decode_lt hapart names
    rw [h] at hlt
    exact Nat.lt_irrefl _ hlt
  · intro names' hapart hnodup hnodup' hlength
    rw [decode_of_staysApart hapart]
    constructor
    · intro h
      by_contra hapart'
      have hlt := length_decode_lt hapart' names
      have heq := congrArg List.length h
      rw [List.length_map, List.length_map] at heq
      omega
    · intro hapart'
      rw [decode_of_staysApart hapart', map_cells_rowsOf hnodup', map_cells_rowsOf hnodup, hlength]

/-- Names that end or begin with a part of a line break. -/
def brokenNames : List Text := ["\n".toList, "a\r".toList, "\n\t\r".toList]

def headedReply : Text := "head\r <F01>1</F01><F02>&lt;</F02>\r\n<F01>2</F01></ENVELOPE>".toList

theorem decode_brokenNames :
    StaysApart brokenNames (normalize headedReply) ∧
      decode brokenNames headedReply = rowsOf brokenNames (normalize headedReply) ∧
      (decode ["x".toList, "y".toList, []] headedReply).map Row.cells =
        (decode brokenNames headedReply).map Row.cells := by
  have happart : StaysApart brokenNames (normalize headedReply) := by decide
  obtain ⟨hrows, hcells⟩ := decode_eq_rowsOf_iff brokenNames headedReply
  exact ⟨happart, hrows.mpr happart,
    (hcells _ happart (by decide) (by decide) rfl).mpr (by decide)⟩

/-- The end of a name with a line break in it is returned as a row. -/
theorem not_decode_eq_rowsOf :
    ¬ ∀ (names : List Text) (reply : Text),
      decode names reply = rowsOf names (normalize reply) := by
  intro h
  have hname := h ["a\r\nb".toList] []
  exact absurd hname (by decide)

end Reply

end LedgerExport
