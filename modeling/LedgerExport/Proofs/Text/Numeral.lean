import LedgerExport.Text.Numeral
import Mathlib.Algebra.Group.Nat.Defs

/-! # Numerals with leading zeros

Zeros in front of a numeral leave its number alone, and numerals of one width stand in the order of
their numbers.
-/
namespace LedgerExport.Text

theorem digitsValue_eq (t : Text) : digitsValue t = Nat.ofDigitChars 10 t 0 := by
  have hf : (fun acc c => acc * 10 + (c.toNat - 48) : Nat → Char → Nat) =
      fun acc c => 10 * acc + (c.toNat - '0'.toNat) := by
    funext acc c
    rw [Nat.mul_comm]
    rfl
  rw [digitsValue, hf]
  rfl

theorem digitsValue_decimal (n : Nat) : digitsValue (decimal n) = n := by
  rw [digitsValue_eq, decimal, Nat.ofDigitChars_ten_toDigits]

theorem isDigit_of_mem_decimal {n : Nat} {c : Char} (h : c ∈ decimal n) : c.isDigit = true :=
  Nat.isDigit_of_mem_toDigits (by decide) (by decide) h

theorem isDigit_of_mem_padZero {width n : Nat} {c : Char} (h : c ∈ padZero width (decimal n)) :
    c.isDigit = true := by
  rcases List.mem_append.mp h with hz | hd
  · rw [List.eq_of_mem_replicate hz]
    decide
  · exact isDigit_of_mem_decimal hd

theorem ofDigitChars_padZero (width n : Nat) :
    Nat.ofDigitChars 10 (padZero width (decimal n)) 0 = n := by
  rw [padZero, Nat.ofDigitChars_append, Nat.ofDigitChars_replicate_zero, Nat.mul_zero, decimal,
    Nat.ofDigitChars_ten_toDigits]

/-- Numbers are told apart by their digits, with zeros in front or without. -/
theorem padZero_injective {width m n : Nat}
    (h : padZero width (decimal m) = padZero width (decimal n)) : m = n := by
  rw [← ofDigitChars_padZero width m, h, ofDigitChars_padZero]

theorem length_padZero {width n : Nat} (hw : 0 < width) (hn : n < 10 ^ width) :
    (padZero width (decimal n)).length = width := by
  have hlen : (decimal n).length ≤ width :=
    (Nat.length_toDigits_le_iff (by decide) hw).mpr hn
  rw [padZero, List.length_append, List.length_replicate]
  omega

theorem ofDigitChars_cons_eq (c : Char) (cs : Text) :
    Nat.ofDigitChars 10 (c :: cs) 0 =
      10 ^ cs.length * (c.toNat - 48) + Nat.ofDigitChars 10 cs 0 := by
  rw [Nat.ofDigitChars_cons, Nat.ofDigitChars_eq_ofDigitChars_zero, Nat.mul_zero, Nat.zero_add]
  rfl

theorem ofDigitChars_lt_pow {t : Text} (h : ∀ c ∈ t, c.isDigit = true) :
    Nat.ofDigitChars 10 t 0 < 10 ^ t.length := by
  induction t with
  | nil => decide
  | cons c cs ih =>
    have hc := toNat_of_isDigit (h c List.mem_cons_self)
    have hcs := ih (fun d hd => h d (List.mem_cons_of_mem c hd))
    have hle : 10 ^ cs.length * (c.toNat - 48) ≤ 10 ^ cs.length * 9 :=
      Nat.mul_le_mul_left _ (by omega)
    rw [ofDigitChars_cons_eq, List.length_cons, Nat.pow_succ]
    omega

/-- A greater first digit outweighs all digits that follow it. -/
theorem lead_lt_iff {p x y u v : Nat} (hu : u < p) (hv : v < p) :
    p * x + u < p * y + v ↔ x < y ∨ x = y ∧ u < v := by
  rcases Nat.lt_trichotomy x y with h | rfl | h
  · have hle : p * (x + 1) ≤ p * y := Nat.mul_le_mul_left p h
    rw [Nat.mul_add, Nat.mul_one] at hle
    omega
  · omega
  · have hle : p * (y + 1) ≤ p * x := Nat.mul_le_mul_left p h
    rw [Nat.mul_add, Nat.mul_one] at hle
    omega

/-- Texts of as many digits stand in the order of their numbers. -/
theorem lt_iff_ofDigitChars_lt {s t : Text} (hl : s.length = t.length)
    (hs : ∀ c ∈ s, c.isDigit = true) (ht : ∀ c ∈ t, c.isDigit = true) :
    s < t ↔ Nat.ofDigitChars 10 s 0 < Nat.ofDigitChars 10 t 0 := by
  induction s generalizing t with
  | nil =>
    cases t with
    | nil => simp
    | cons d ds => exact absurd hl (Nat.succ_ne_zero _).symm
  | cons c cs ih =>
    cases t with
    | nil => exact absurd hl (Nat.succ_ne_zero _)
    | cons d ds =>
      have hlen : cs.length = ds.length := Nat.succ.inj hl
      have hcs : ∀ x ∈ cs, x.isDigit = true := fun x hx => hs x (List.mem_cons_of_mem c hx)
      have hds : ∀ x ∈ ds, x.isDigit = true := fun x hx => ht x (List.mem_cons_of_mem d hx)
      have hc := toNat_of_isDigit (hs c List.mem_cons_self)
      have hd := toNat_of_isDigit (ht d List.mem_cons_self)
      have hlt : c < d ↔ c.toNat - 48 < d.toNat - 48 := by
        rw [Char.lt_def, UInt32.lt_iff_toNat_lt]
        change c.toNat < d.toNat ↔ _
        omega
      have heq : c = d ↔ c.toNat - 48 = d.toNat - 48 := by
        rw [← Char.toNat_inj]
        omega
      have hu := ofDigitChars_lt_pow hcs
      have hv := ofDigitChars_lt_pow hds
      rw [← hlen] at hv
      rw [List.cons_lt_cons_iff, ofDigitChars_cons_eq, ofDigitChars_cons_eq, ← hlen,
        lead_lt_iff hu hv, hlt, heq, ih hlen hcs hds]

end LedgerExport.Text
