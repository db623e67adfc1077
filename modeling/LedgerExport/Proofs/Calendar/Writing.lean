import LedgerExport.Proofs.Calendar.Reading
import LedgerExport.Proofs.Text.Numeral

/-! # Dates that are written

Both ways of writing a date tell which date it is: the one with dashes is read back, whatever white
space is around it, and the compact one ends in four digits for month and day, so that what stands
before them is the year. Compact dates of the years 0 to 9999 stand in the order of the days.
-/
namespace LedgerExport.Date
open Text

def Before (d e : Date) : Prop :=
  d.year < e.year ∨ d.year = e.year ∧ (d.month < e.month ∨ d.month = e.month ∧ d.day < e.day)

/-- The text is the date written with dashes, with white space around it at most. -/
def Spaced (v : Text) (d : Date) : Prop :=
  ∃ a b : Text, (∀ c ∈ a, isBlank c = true) ∧ (∀ c ∈ b, isBlank c = true) ∧ v = a ++ d.dashed ++ b

/-- The years that are written with four digits and no sign. -/
def ShortYear (d : Date) : Prop := 0 ≤ d.year ∧ d.year ≤ 9999

section Parts

theorem writes_padZero (width n : Nat) : Writes (padZero width (decimal n)) n where
  ne_nil := List.append_ne_nil_of_right_ne_nil _ Nat.toDigits_ne_nil
  decimal _ hc := isDigit_of_mem_padZero hc
  value := ofDigitChars_padZero width n

/-- A year is written as years are read. -/
theorem writesYear_yearText (year : Int) : WritesYear (yearText year) year := by
  have hw := writes_padZero 4 year.natAbs
  rw [yearText]
  split
  · next hneg =>
    have hm := WritesYear.minus hw
    rwa [show -(year.natAbs : Int) = year by omega] at hm
  · next hneg =>
    have habs : (year.natAbs : Int) = year := by omega
    split
    · have hp := WritesYear.plus hw
      rwa [habs] at hp
    · next hshort =>
      have hlen : (padZero 4 (decimal year.natAbs)).length = 4 :=
        length_padZero (by decide) (by omega)
      have hb := WritesYear.bare hw (Nat.le_of_eq hlen)
      rwa [habs] at hb

theorem yearText_injective : Function.Injective yearText := by
  intro x y h
  have hx := year?_append (writesYear_yearText x) ended_nil
  have hy := year?_append (writesYear_yearText y) ended_nil
  rw [h, hy] at hx
  exact (Prod.mk.inj (Option.some.inj hx)).1.symm

theorem daysIn_le (year : Int) (month : Nat) : Calendar.daysIn year month ≤ 31 := by
  have hleap : (if Calendar.isLeap year then 29 else 28) ≤ 31 := by
    split
    · decide
    · decide
  unfold Calendar.daysIn
  split
  case h_5 => exact hleap
  all_goals decide

theorem month_lt (d : Date) : d.month < 100 := by
  obtain ⟨-, -, -, hm, -⟩ := d.valid
  omega

theorem day_lt (d : Date) : d.day < 100 := by
  obtain ⟨-, -, -, -, -, hd⟩ := d.valid
  have hmost := daysIn_le d.year d.month
  omega

theorem length_twoDigits {n : Nat} (hn : n < 100) : (twoDigits n).length = 2 :=
  length_padZero (by decide) hn

theorem eq_of_parts_eq {d e : Date} (hy : d.year = e.year) (hm : d.month = e.month)
    (hd : d.day = e.day) : d = e := by
  cases d
  cases e
  cases hy
  cases hm
  cases hd
  rfl

end Parts

section Dashed

def spelling (d : Date) : Spelling := ⟨yearText d.year, [], twoDigits d.month, [], twoDigits d.day⟩

theorem render_spelling (d : Date) : d.spelling.render = d.dashed := by
  simp only [Spelling.render, spelling, dashed, List.nil_append, List.append_assoc,
    List.cons_append]

theorem names_spelling (d : Date) : d.spelling.Names d where
  year := writesYear_yearText d.year
  monthGap := List.forall_mem_nil _
  month := ⟨writes_padZero 2 d.month, Nat.le_of_eq (length_twoDigits d.month_lt)⟩
  dayGap := List.forall_mem_nil _
  day := ⟨writes_padZero 2 d.day, Nat.le_of_eq (length_twoDigits d.day_lt)⟩

theorem WritesYear.not_blank {y : Text} {k : Int} (h : WritesYear y k) {c : Char} (hc : c ∈ y) :
    isBlank c = false := by
  have hdigits {digits : Text} {n : Nat} (hw : Writes digits n) (hc : c ∈ digits) :
      isBlank c = false := isBlank_of_isDigit (hw.decimal c hc)
  cases h with
  | bare hw hl => exact hdigits hw hc
  | plus hw =>
    rcases List.mem_cons.mp hc with rfl | hc
    · rfl
    · exact hdigits hw hc
  | minus hw =>
    rcases List.mem_cons.mp hc with rfl | hc
    · rfl
    · exact hdigits hw hc

theorem not_blank_of_mem_dashed {d : Date} {c : Char} (h : c ∈ d.dashed) : isBlank c = false := by
  have hnumber {n : Nat} (hc : c ∈ twoDigits n) : isBlank c = false :=
    isBlank_of_isDigit (isDigit_of_mem_padZero hc)
  simp only [dashed, List.mem_append, List.mem_cons] at h
  rcases h with (h | rfl | h) | rfl | h
  · exact (writesYear_yearText d.year).not_blank h
  · rfl
  · exact hnumber h
  · rfl
  · exact hnumber h

theorem trim_append {a b t : Text} (ha : ∀ c ∈ a, isBlank c = true)
    (hb : ∀ c ∈ b, isBlank c = true) (hne : t ≠ []) (ht : ∀ c ∈ t, isBlank c = false) :
    trim (a ++ t ++ b) = t := by
  obtain ⟨c, cs, rfl⟩ := List.exists_cons_of_ne_nil hne
  obtain ⟨d, ds, hlast⟩ := List.exists_cons_of_ne_nil (List.reverse_ne_nil_iff.mpr hne)
  have hd : isBlank d = false := by
    apply ht
    rw [← List.mem_reverse, hlast]
    exact List.mem_cons_self
  have hfront : skipBlank (a ++ c :: cs ++ b) = c :: cs ++ b := by
    rw [List.append_assoc]
    exact skipBlank_append ha (ht c List.mem_cons_self) (cs ++ b)
  have hback : skipBlank (b.reverse ++ d :: ds) = d :: ds :=
    skipBlank_append (fun c hc => hb c (List.mem_reverse.mp hc)) hd ds
  rw [trim, hfront, List.reverse_append, hlast, hback, ← hlast, List.reverse_reverse]

/-- A date that is written with dashes is read back. -/
theorem Spaced.parse? {v : Text} {d : Date} (h : Spaced v d) : parse? v = some d := by
  obtain ⟨a, b, ha, hb, rfl⟩ := h
  have hne : d.dashed ≠ [] := List.append_ne_nil_of_right_ne_nil _ (List.cons_ne_nil _ _)
  apply parse?_of_names d.names_spelling
  rw [trim_append ha hb hne fun c hc => not_blank_of_mem_dashed hc, render_spelling]

end Dashed

section Compact

theorem compact_injective : Function.Injective compact := by
  intro d e h
  rw [compact, compact, List.append_assoc, List.append_assoc] at h
  have hlen (d : Date) : (twoDigits d.month ++ twoDigits d.day).length = 4 := by
    rw [List.length_append, length_twoDigits d.month_lt, length_twoDigits d.day_lt]
  obtain ⟨hyear, htail⟩ := List.append_inj' h ((hlen d).trans (hlen e).symm)
  obtain ⟨hmonth, hday⟩ := List.append_inj htail
    ((length_twoDigits d.month_lt).trans (length_twoDigits e.month_lt).symm)
  exact eq_of_parts_eq (yearText_injective hyear) (padZero_injective hmonth)
    (padZero_injective hday)

theorem mem_compact {d : Date} {c : Char} (h : c ∈ d.compact) :
    c.isDigit = true ∨ c ∈ "+-".toList := by
  have hsign {s : Char} {digits : Text} (hs : s ∈ "+-".toList) (hd : c ∈ digits → c.isDigit = true)
      (hc : c ∈ s :: digits) : c.isDigit = true ∨ c ∈ "+-".toList := by
    rcases List.mem_cons.mp hc with rfl | hc
    · exact Or.inr hs
    · exact Or.inl (hd hc)
  rcases List.mem_append.mp h with h | h
  · rcases List.mem_append.mp h with h | h
    · rw [Date.yearText] at h
      split at h
      · exact hsign (by decide) isDigit_of_mem_padZero h
      · split at h
        · exact hsign (by decide) isDigit_of_mem_padZero h
        · exact Or.inl (isDigit_of_mem_padZero h)
    · exact Or.inl (isDigit_of_mem_padZero h)
  · exact Or.inl (isDigit_of_mem_padZero h)

theorem not_mem_compact {c : Char} (hd : c.isDigit = false) (hs : c ∉ "+-".toList) (d : Date) :
    c ∉ d.compact := by
  intro h
  rcases mem_compact h with h | h
  · rw [hd] at h
    exact absurd h (by decide)
  · exact hs h

theorem brace_not_mem_compact (d : Date) : '{' ∉ d.compact :=
  not_mem_compact (by decide) (by decide) d

theorem digit_mem_compact (d : Date) : 0 < d.compact.countP Char.isDigit := by
  have hne : decimal d.day ≠ [] := Nat.toDigits_ne_nil
  obtain ⟨c, cs, hcs⟩ := List.exists_cons_of_ne_nil hne
  have hc : c ∈ decimal d.day := hcs ▸ List.mem_cons_self
  have hmem : c ∈ d.compact := List.mem_append_right _ (List.mem_append_right _ hc)
  exact List.countP_pos_iff.mpr
    ⟨c, hmem, Nat.isDigit_of_mem_toDigits (by decide) (by decide) hc⟩

variable {d e : Date}

theorem ShortYear.yearText (h : ShortYear d) :
    yearText d.year = padZero 4 (decimal d.year.natAbs) ∧ d.year.natAbs < 10 ^ 4 := by
  obtain ⟨hlow, hhigh⟩ := h
  rw [Date.yearText, if_neg (by omega), if_neg (by omega)]
  exact ⟨rfl, by omega⟩

theorem ShortYear.length_compact (h : ShortYear d) : d.compact.length = 8 := by
  obtain ⟨hyear, hlt⟩ := h.yearText
  rw [compact, hyear, List.length_append, List.length_append, length_padZero (by decide) hlt,
    length_twoDigits d.month_lt, length_twoDigits d.day_lt]

theorem ShortYear.isDigit (h : ShortYear d) {c : Char} (hc : c ∈ d.compact) : c.isDigit = true := by
  rw [compact, h.yearText.1, List.mem_append, List.mem_append] at hc
  rcases hc with (hc | hc) | hc
  · exact isDigit_of_mem_padZero hc
  · exact isDigit_of_mem_padZero hc
  · exact isDigit_of_mem_padZero hc

theorem ShortYear.value_compact (h : ShortYear d) :
    Nat.ofDigitChars 10 d.compact 0 = 100 * (100 * d.year.natAbs + d.month) + d.day := by
  have hnumber {n m : Nat} (hn : n < 100) :
      Nat.ofDigitChars 10 (twoDigits n) m = 100 * m + n := by
    rw [Nat.ofDigitChars_eq_ofDigitChars_zero, length_twoDigits hn, twoDigits,
      ofDigitChars_padZero]
  rw [compact, h.yearText.1, Nat.ofDigitChars_append, Nat.ofDigitChars_append,
    ofDigitChars_padZero, hnumber d.month_lt, hnumber d.day_lt]

/-- Compact dates without signs stand in the order of the days. -/
theorem ShortYear.compact_lt_iff (hd : ShortYear d) (he : ShortYear e) :
    d.compact < e.compact ↔ d.Before e := by
  have hlen : d.compact.length = e.compact.length :=
    hd.length_compact.trans he.length_compact.symm
  rw [lt_iff_ofDigitChars_lt hlen (fun c hc => hd.isDigit hc) (fun c hc => he.isDigit hc),
    hd.value_compact, he.value_compact, lead_lt_iff d.day_lt e.day_lt, Before]
  have hm := d.month_lt
  have hm' := e.month_lt
  obtain ⟨hlow, -⟩ := hd
  obtain ⟨hlow', -⟩ := he
  omega

end Compact

end LedgerExport.Date
