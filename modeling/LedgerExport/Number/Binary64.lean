import LedgerExport.Text.Numeral

/-! # Binary floating-point values

The finite non-negative values of the 64-bit binary format, as a whole mantissa times a power of
two. A ratio is rounded to the nearest value, ties going to the even mantissa. The shortest decimal
of a value is the one with the fewest digits that rounds to it, and of those the nearest.
-/
namespace LedgerExport

/-- The value `mantissa · 2 ^ exponent`. -/
structure Binary64 where
  mantissa : Nat
  exponent : Int
  deriving Repr, DecidableEq

namespace Binary64

/-- `base ^ e` as a numerator and a denominator. -/
def power (base : Nat) (e : Int) : Nat × Nat := (Nat.pow base e.toNat, Nat.pow base (-e).toNat)

def zero : Binary64 := ⟨0, 0⟩

/-- The whole number nearest to a ratio, ties going to the even one. -/
def roundEven (num den : Nat) : Nat :=
  let q := num / den
  let r := num % den
  if 2 * r < den then q else if den < 2 * r then q + 1 else if q % 2 = 0 then q else q + 1

/-- The greatest `e` with `base ^ e ≤ num / den`, from a guess that is right or one too high. -/
def floorLog (base : Nat) (guess : Int) (num den : Nat) : Int :=
  let p := power base guess
  if p.1 * den ≤ num * p.2 then guess else guess - 1

/-- The value nearest to a ratio; `none` beyond the greatest finite value. -/
def ofRatio? (num den : Nat) : Option Binary64 :=
  if num = 0 then some zero
  else
    let top := floorLog 2 ((num.log2 : Int) - den.log2) num den
    let e := max (top - 52) (-1074)
    let p := power 2 e
    let m := roundEven (num * p.2) (den * p.1)
    let v : Binary64 := if m = Nat.pow 2 53 then ⟨Nat.pow 2 52, e + 1⟩ else ⟨m, e⟩
    if 971 < v.exponent then none else some v

def numerator (v : Binary64) : Nat := v.mantissa * (power 2 v.exponent).1
def denominator (v : Binary64) : Nat := (power 2 v.exponent).2

def mul? (v w : Binary64) : Option Binary64 :=
  ofRatio? (v.numerator * w.numerator) (v.denominator * w.denominator)

def div? (v w : Binary64) : Option Binary64 :=
  ofRatio? (v.numerator * w.denominator) (v.denominator * w.numerator)

def ofDecimal? (digits : Nat) (e : Int) : Option Binary64 :=
  let size := e + (Text.decimal digits).length
  if digits = 0 ∨ size < -400 then some zero
  else if 400 < size then none
  else
    let p := power 10 e
    ofRatio? (digits * p.1) p.2

/-- A decimal with the digits of `n` on the grid of the powers `10 ^ k`, if one of the two
neighbours of the value on that grid rounds to the value. -/
def decimalOn? (v : Binary64) (k : Int) : Option Nat :=
  let ten := power 10 k
  let two := power 2 (2 - v.exponent)
  let a := ten.1 * two.1
  let b := ten.2 * two.2
  let below := if v.mantissa = Nat.pow 2 52 ∧ -1074 < v.exponent then 1 else 2
  let low := (4 * v.mantissa - below) * b
  let mid := 4 * v.mantissa * b
  let high := (4 * v.mantissa + 2) * b
  let inside (c : Nat) : Bool :=
    if v.mantissa % 2 = 0 then low ≤ c * a && c * a ≤ high else low < c * a && c * a < high
  let d := mid / a
  let nearer := if 2 * mid < (2 * d + 1) * a then d
    else if (2 * d + 1) * a < 2 * mid then d + 1 else if d % 2 = 0 then d else d + 1
  if inside nearer then some nearer
  else if inside d then some d
  else if inside (d + 1) then some (d + 1)
  else none

def stripZeros : Nat → Nat → Int → Nat × Int
  | 0, digits, k => (digits, k)
  | fuel + 1, digits, k =>
    if digits % 10 = 0 then stripZeros fuel (digits / 10) (k + 1) else (digits, k)

/-- The shortest decimal `digits · 10 ^ k` that rounds to the value. -/
def shortest (v : Binary64) : Nat × Int :=
  if v.mantissa = 0 then (0, 0)
  else
    let num := v.numerator
    let den := v.denominator
    let top := floorLog 10 (((Text.decimal num).length : Int) - (Text.decimal den).length) num den
    let found := (List.range 17).findSome? fun (n : Nat) =>
      (v.decimalOn? (top - (n : Int))).map fun digits => (digits, top - (n : Int))
    match found with
    | some (digits, k) => stripZeros 18 digits k
    | none => (0, 0)

/-- Digits with a point among them, and at least one digit on each side of it. -/
def positional (digits : Text) (k : Int) : Text :=
  let point := (digits.length : Int) + k
  if 0 ≤ k then digits ++ List.replicate k.toNat '0' ++ ".0".toList
  else if 0 < point then digits.take point.toNat ++ '.' :: digits.drop point.toNat
  else "0.".toList ++ List.replicate (-point).toNat '0' ++ digits

/-- One digit before the point, and an exponent with a sign and at least two digits. -/
def scientific (digits : Text) (k : Int) : Text :=
  let e := (digits.length : Int) + k - 1
  let fraction := if digits.length ≤ 1 then [] else '.' :: digits.drop 1
  digits.take 1 ++ fraction ++ 'e' :: (if e < 0 then '-' else '+') ::
    Text.padZero 2 (Text.decimal e.natAbs)

def text (isPositional : Int → Bool) (v : Binary64) : Text :=
  let (digits, k) := v.shortest
  let ds := Text.decimal digits
  if isPositional ((ds.length : Int) + k - 1) then positional ds k else scientific ds k

end Binary64

end LedgerExport
