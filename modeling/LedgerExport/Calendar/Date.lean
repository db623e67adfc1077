import LedgerExport.Text.Characters
import LedgerExport.Text.Numeral

/-! # Calendar dates

Days of the Gregorian calendar, extended to all years from -262143 to 262142; the year 0 exists. A
date is written with a year of at least four digits, with a sign before a negative year and before
one above 9999. A date is read with white space allowed before each number, one or two digits for
month and day, and any number of digits for a year with a sign.
-/
namespace LedgerExport

namespace Calendar

def isLeap (year : Int) : Bool := year % 4 = 0 && (year % 100 ≠ 0 || year % 400 = 0)

def daysIn (year : Int) (month : Nat) : Nat :=
  match month with
  | 4 | 6 | 9 | 11 => 30
  | 2 => if isLeap year then 29 else 28
  | _ => 31

def Valid (year : Int) (month day : Nat) : Prop :=
  -262143 ≤ year ∧ year ≤ 262142 ∧ 1 ≤ month ∧ month ≤ 12 ∧ 1 ≤ day ∧ day ≤ daysIn year month

instance (year : Int) (month day : Nat) : Decidable (Valid year month day) := by
  unfold Valid; infer_instance

end Calendar

structure Date where
  year : Int
  month : Nat
  day : Nat
  valid : Calendar.Valid year month day
  deriving DecidableEq

namespace Date

def ofNumbers? (year : Int) (month day : Nat) : Option Date :=
  if h : Calendar.Valid year month day then some ⟨year, month, day, h⟩ else none

/-- A year with at least four digits; a sign stands before a negative one and before one of more
than four digits. -/
def yearText (year : Int) : Text :=
  let digits := Text.padZero 4 (Text.decimal year.natAbs)
  if year < 0 then '-' :: digits else if 9999 < year then '+' :: digits else digits

def twoDigits (n : Nat) : Text := Text.padZero 2 (Text.decimal n)

/-- Year, month and day without anything between them, as the engine reads a date. -/
def compact (d : Date) : Text := yearText d.year ++ twoDigits d.month ++ twoDigits d.day

def dashed (d : Date) : Text :=
  yearText d.year ++ '-' :: twoDigits d.month ++ '-' :: twoDigits d.day

/-- The longest run of at most `limit` ASCII digits at the head, and what follows it. -/
def takeDigits : Nat → Text → Text × Text
  | 0, t => ([], t)
  | _ + 1, [] => ([], [])
  | n + 1, c :: cs =>
    if c.isDigit then ((takeDigits n cs).1.cons c, (takeDigits n cs).2) else ([], c :: cs)

def number? (limit : Nat) (t : Text) : Option (Nat × Text) :=
  match takeDigits limit t with
  | ([], _) => none
  | (digits, rest) => some (Text.digitsValue digits, rest)

/-- With a sign a year takes all digits that follow, without one at most four. -/
def year? (t : Text) : Option (Int × Text) :=
  match Text.skipBlank t with
  | '-' :: rest => (number? rest.length rest).map fun (n, r) => (-(n : Int), r)
  | '+' :: rest => (number? rest.length rest).map fun (n, r) => ((n : Int), r)
  | rest => (number? 4 rest).map fun (n, r) => ((n : Int), r)

def parse? (t : Text) : Option Date := do
  let (year, t) ← year? (Text.trim t)
  let t ← Text.after? ['-'] t
  let (month, t) ← number? 2 (Text.skipBlank t)
  let t ← Text.after? ['-'] t
  let (day, t) ← number? 2 (Text.skipBlank t)
  if t.isEmpty then ofNumbers? year month day else none

end Date

end LedgerExport
