import LedgerExport.Calendar.Date
import LedgerExport.Proofs.Text.Numeral
import Mathlib.Data.List.TakeWhile

/-! # How a date may be written

A date text falls into the parts of a `Spelling`. The main statement, `parse?_eq_some_iff`, is that
a text is read as a date exactly if its parts write the numbers of the date. Each reader of a part
takes the part and leaves what follows, so that a text has no two spellings of a date.
-/
namespace LedgerExport.Date
open Text

/-- ASCII digits, at least one, that write a number. -/
structure Writes (digits : Text) (n : Nat) : Prop where
  ne_nil : digits ≠ []
  decimal : ∀ c ∈ digits, c.isDigit = true
  value : Nat.ofDigitChars 10 digits 0 = n

/-- Up to four digits write a year, and any number of them with a sign. -/
inductive WritesYear : Text → Int → Prop
  | bare {digits : Text} {n : Nat} : Writes digits n → digits.length ≤ 4 → WritesYear digits n
  | plus {digits : Text} {n : Nat} : Writes digits n → WritesYear ('+' :: digits) n
  | minus {digits : Text} {n : Nat} : Writes digits n → WritesYear ('-' :: digits) (-n)

structure Spelling where
  year : Text
  monthGap : Text
  month : Text
  dayGap : Text
  day : Text

namespace Spelling

def render (s : Spelling) : Text :=
  s.year ++ '-' :: (s.monthGap ++ (s.month ++ '-' :: (s.dayGap ++ s.day)))

/-- The parts write the numbers of the date, month and day with one or two digits and perhaps with
white space before them. -/
structure Names (s : Spelling) (d : Date) : Prop where
  year : WritesYear s.year d.year
  monthGap : ∀ c ∈ s.monthGap, isBlank c = true
  month : Writes s.month d.month ∧ s.month.length ≤ 2
  dayGap : ∀ c ∈ s.dayGap, isBlank c = true
  day : Writes s.day d.day ∧ s.day.length ≤ 2

/-- Four digits for the year, two for month and day each, and nothing else. -/
structure Strict (s : Spelling) : Prop where
  year : s.year.length = 4 ∧ ∀ c ∈ s.year, c.isDigit = true
  monthGap : s.monthGap = []
  month : s.month.length = 2
  dayGap : s.dayGap = []
  day : s.day.length = 2

end Spelling

section Characters

theorem isBlank_of_isDigit {c : Char} (h : c.isDigit = true) : isBlank c = false := by
  have hc := toNat_of_isDigit h
  simp only [isBlank, Bool.or_eq_false_iff, Bool.and_eq_false_iff, decide_eq_false_iff_not,
    beq_eq_false_iff_ne]
  omega

theorem ne_of_isDigit {c d : Char} (h : c.isDigit = true) (hd : d.isDigit = false) : c ≠ d := by
  rintro rfl
  rw [h] at hd
  exact Bool.noConfusion hd

def Ended (t : Text) : Prop := ∀ c cs, t = c :: cs → c.isDigit = false

theorem ended_nil : Ended [] := by
  intro c cs h
  exact absurd h.symm (List.cons_ne_nil c cs)

theorem ended_dash (t : Text) : Ended ('-' :: t) := by
  intro c cs h
  rw [← (List.cons.inj h).1]
  rfl

theorem skipBlank_append {w : Text} (hw : ∀ c ∈ w, isBlank c = true) {c : Char}
    (hc : isBlank c = false) (t : Text) : skipBlank (w ++ c :: t) = c :: t := by
  rw [skipBlank, List.dropWhile_append_of_pos hw, List.dropWhile_cons_of_neg]
  rw [hc]
  exact Bool.false_ne_true

theorem exists_append_skipBlank (t : Text) :
    ∃ w, (∀ c ∈ w, isBlank c = true) ∧ t = w ++ skipBlank t :=
  ⟨t.takeWhile isBlank, fun _ hc => List.mem_takeWhile_imp hc,
    List.takeWhile_append_dropWhile.symm⟩

end Characters

section Numbers
variable {digits rest t : Text} {n limit : Nat}

theorem takeDigits_append (hd : ∀ c ∈ digits, c.isDigit = true) (hl : digits.length ≤ limit)
    (hr : Ended rest) : takeDigits limit (digits ++ rest) = (digits, rest) := by
  induction digits generalizing limit with
  | nil =>
    cases limit with
    | zero => rfl
    | succ m =>
      cases rest with
      | nil => rfl
      | cons c cs => simp [takeDigits, hr c cs rfl]
  | cons c cs ih =>
    obtain ⟨m, rfl⟩ := Nat.exists_eq_succ_of_ne_zero (Nat.ne_of_gt (Nat.lt_of_lt_of_le
      (Nat.zero_lt_succ cs.length) hl))
    have htail := ih (fun d hd' => hd d (List.mem_cons_of_mem c hd')) (Nat.le_of_succ_le_succ hl)
    rw [List.cons_append, takeDigits, if_pos (hd c List.mem_cons_self), htail]

theorem takeDigits_spec (limit : Nat) (t : Text) :
    t = (takeDigits limit t).1 ++ (takeDigits limit t).2 ∧
      (∀ c ∈ (takeDigits limit t).1, c.isDigit = true) ∧ (takeDigits limit t).1.length ≤ limit := by
  induction limit generalizing t with
  | zero => simp [takeDigits]
  | succ m ih =>
    cases t with
    | nil => simp [takeDigits]
    | cons c cs =>
      obtain ⟨happ, hdig, hlen⟩ := ih cs
      rw [takeDigits]
      split
      · next hc =>
        refine ⟨congrArg (c :: ·) happ, ?_, Nat.succ_le_succ hlen⟩
        intro d hd
        rcases List.mem_cons.mp hd with rfl | hd
        · exact hc
        · exact hdig d hd
      · exact ⟨rfl, List.forall_mem_nil _, Nat.zero_le _⟩

theorem number?_append (hw : Writes digits n) (hl : digits.length ≤ limit) (hr : Ended rest) :
    number? limit (digits ++ rest) = some (n, rest) := by
  obtain ⟨c, cs, rfl⟩ := List.exists_cons_of_ne_nil hw.ne_nil
  rw [number?, takeDigits_append hw.decimal hl hr, ← hw.value, ← digitsValue_eq]

theorem exists_writes_of_number? (h : number? limit t = some (n, rest)) :
    ∃ digits, t = digits ++ rest ∧ Writes digits n ∧ digits.length ≤ limit := by
  obtain ⟨happ, hdig, hlen⟩ := takeDigits_spec limit t
  rw [number?] at h
  cases hd : takeDigits limit t with
  | mk digits tail =>
    rw [hd] at h happ hdig hlen
    cases digits with
    | nil => exact absurd h (by simp)
    | cons c cs =>
      obtain ⟨rfl, rfl⟩ := Prod.mk.inj (Option.some.inj h)
      exact ⟨c :: cs, happ, ⟨List.cons_ne_nil c cs, hdig, (digitsValue_eq _).symm⟩, hlen⟩

end Numbers

section Years
variable {y rest t : Text} {k : Int}

theorem year?_signed (x : Text) :
    year? ('+' :: x) = (number? x.length x).map (fun p => ((p.1 : Int), p.2)) ∧
      year? ('-' :: x) = (number? x.length x).map (fun p => (-(p.1 : Int), p.2)) :=
  ⟨rfl, rfl⟩

theorem year?_digit {c : Char} (hc : c.isDigit = true) (x : Text) :
    year? (c :: x) = (number? 4 (c :: x)).map (fun p => ((p.1 : Int), p.2)) := by
  have hskip : skipBlank (c :: x) = c :: x :=
    skipBlank_append (List.forall_mem_nil _) (isBlank_of_isDigit hc) x
  rw [year?, hskip]
  split
  · next heq => exact absurd (List.cons.inj heq).1 (ne_of_isDigit hc rfl)
  · next heq => exact absurd (List.cons.inj heq).1 (ne_of_isDigit hc rfl)
  · rfl

/-- A year is read from what writes it, and ends where the digits do. -/
theorem year?_append (hy : WritesYear y k) (hr : Ended rest) :
    year? (y ++ rest) = some (k, rest) := by
  have hmany {digits : Text} {n : Nat} (hw : Writes digits n) :
      number? (digits ++ rest).length (digits ++ rest) = some (n, rest) :=
    number?_append hw (List.prefix_append digits rest).length_le hr
  cases hy with
  | bare hw hl =>
    have hnumber := number?_append hw hl hr
    obtain ⟨c, cs, rfl⟩ := List.exists_cons_of_ne_nil hw.ne_nil
    rw [List.cons_append] at hnumber ⊢
    rw [year?_digit (hw.decimal c List.mem_cons_self), hnumber, Option.map_some]
  | plus hw => rw [List.cons_append, (year?_signed _).1, hmany hw, Option.map_some]
  | minus hw => rw [List.cons_append, (year?_signed _).2, hmany hw, Option.map_some]

theorem exists_writes_of_map {limit : Nat} {f : Nat → Int}
    (h : (number? limit t).map (fun p => (f p.1, p.2)) = some (k, rest)) :
    ∃ digits n, t = digits ++ rest ∧ Writes digits n ∧ digits.length ≤ limit ∧ f n = k := by
  obtain ⟨⟨n, r⟩, hn, hk⟩ := Option.map_eq_some_iff.mp h
  obtain ⟨rfl, rfl⟩ := Prod.mk.inj hk
  obtain ⟨digits, ht, hw, hl⟩ := exists_writes_of_number? hn
  exact ⟨digits, n, ht, hw, hl, rfl⟩

theorem exists_writesYear_of_year? (h : year? t = some (k, rest)) :
    ∃ y, skipBlank t = y ++ rest ∧ WritesYear y k := by
  rw [year?] at h
  split at h
  · next x heq =>
    obtain ⟨digits, n, rfl, hw, -, rfl⟩ := exists_writes_of_map (f := fun n => -(n : Int)) h
    exact ⟨'-' :: digits, heq, .minus hw⟩
  · next x heq =>
    obtain ⟨digits, n, rfl, hw, -, rfl⟩ := exists_writes_of_map h
    exact ⟨'+' :: digits, heq, .plus hw⟩
  · obtain ⟨digits, n, ht, hw, hl, rfl⟩ := exists_writes_of_map h
    exact ⟨digits, ht, .bare hw hl⟩

theorem skipBlank_trim (t : Text) : skipBlank (trim t) = trim t := by
  have hpre : trim t <+: skipBlank t := by
    have h := List.dropWhile_suffix isBlank (l := (skipBlank t).reverse)
    rw [← List.reverse_prefix, List.reverse_reverse] at h
    exact h
  cases htrim : trim t with
  | nil => rfl
  | cons c cs =>
    obtain ⟨r, hr⟩ := htrim ▸ hpre
    have hne : skipBlank t ≠ [] := by simp [← hr]
    have hhead : (skipBlank t).head hne = c := by simp [← hr]
    have hc : isBlank c = false := by
      rw [← hhead]
      exact List.head_dropWhile_not isBlank hne
    exact skipBlank_append (List.forall_mem_nil _) hc cs

end Years

section Dates

theorem ofNumbers?_self (d : Date) : ofNumbers? d.year d.month d.day = some d :=
  dif_pos d.valid

theorem ofNumbers?_eq_some {year : Int} {month day : Nat} {d : Date}
    (h : ofNumbers? year month day = some d) :
    year = d.year ∧ month = d.month ∧ day = d.day := by
  rw [ofNumbers?] at h
  split at h
  · obtain rfl := Option.some.inj h
    exact ⟨rfl, rfl, rfl⟩
  · exact absurd h (by simp)

/-- A number of up to two digits is read behind white space. -/
theorem number?_skipBlank_append {gap digits rest : Text} {n : Nat}
    (hgap : ∀ c ∈ gap, isBlank c = true) (hw : Writes digits n) (hl : digits.length ≤ 2)
    (hr : Ended rest) : number? 2 (skipBlank (gap ++ (digits ++ rest))) = some (n, rest) := by
  obtain ⟨c, cs, rfl⟩ := List.exists_cons_of_ne_nil hw.ne_nil
  have hc := isBlank_of_isDigit (hw.decimal c List.mem_cons_self)
  have hskip : skipBlank (gap ++ (c :: cs ++ rest)) = c :: cs ++ rest :=
    skipBlank_append hgap hc (cs ++ rest)
  rw [hskip, number?_append hw hl hr]

theorem parse?_of_names {s : Spelling} {d : Date} (h : s.Names d) {t : Text}
    (ht : trim t = s.render) : parse? t = some d := by
  have hyear := year?_append h.year
    (ended_dash (s.monthGap ++ (s.month ++ '-' :: (s.dayGap ++ s.day))))
  have hmonth := number?_skipBlank_append h.monthGap h.month.1 h.month.2
    (ended_dash (s.dayGap ++ s.day))
  have hday := number?_skipBlank_append h.dayGap h.day.1 h.day.2 ended_nil
  rw [List.append_nil] at hday
  have hdash (x : Text) : after? ['-'] ('-' :: x) = some x := after?_append ['-'] x
  simp [parse?, ht, Spelling.render, hyear, hmonth, hday, hdash, ofNumbers?_self]

/-- A date that is read has parts that name it. -/
theorem exists_names_of_parse? {t : Text} {d : Date} (h : parse? t = some d) :
    ∃ s : Spelling, trim t = s.render ∧ s.Names d := by
  simp only [parse?, Option.bind_eq_bind, Option.bind_eq_some_iff, Prod.exists] at h
  obtain ⟨k, t₁, hyear, t₂, hdash₁, m, t₃, hmonth, t₄, hdash₂, n, t₅, hday, h⟩ := h
  split at h
  · next hend =>
    obtain ⟨rfl, rfl, rfl⟩ := ofNumbers?_eq_some h
    obtain ⟨y, hy, hwy⟩ := exists_writesYear_of_year? hyear
    obtain ⟨gap₁, hgap₁, heq₁⟩ := exists_append_skipBlank t₂
    obtain ⟨gap₂, hgap₂, heq₂⟩ := exists_append_skipBlank t₄
    obtain ⟨ms, hms, hwm, hlm⟩ := exists_writes_of_number? hmonth
    obtain ⟨ds, hds, hwd, hld⟩ := exists_writes_of_number? hday
    rw [after?_eq_some_iff] at hdash₁ hdash₂
    rw [List.isEmpty_iff.mp hend, List.append_nil] at hds
    refine ⟨⟨y, gap₁, ms, gap₂, ds⟩, ?_, hwy, hgap₁, ⟨hwm, hlm⟩, hgap₂, ⟨hwd, hld⟩⟩
    calc trim t = y ++ t₁ := by rw [← skipBlank_trim, hy]
      _ = y ++ '-' :: (gap₁ ++ (ms ++ t₃)) := by rw [hdash₁, heq₁, hms]; rfl
      _ = y ++ '-' :: (gap₁ ++ (ms ++ '-' :: (gap₂ ++ ds))) := by rw [hdash₂, heq₂, hds]; rfl
  · exact absurd h (by simp)

/-- The texts that are read as a date, white space at the two ends aside. -/
theorem parse?_eq_some_iff {t : Text} {d : Date} :
    parse? t = some d ↔ ∃ s : Spelling, trim t = s.render ∧ s.Names d := by
  constructor
  · exact exists_names_of_parse?
  · rintro ⟨s, ht, h⟩
    exact parse?_of_names h ht

/-- A reader that leaves what follows settles where its part ends. -/
theorem append_inj_of_read {α : Type} {f : Text → Option (α × Text)} {a b x y : Text} {m n : α}
    (ha : f (a ++ x) = some (m, x)) (hb : f (b ++ y) = some (n, y)) (h : a ++ x = b ++ y) :
    a = b ∧ x = y := by
  rw [h, hb] at ha
  obtain ⟨-, rfl⟩ := Prod.mk.inj (Option.some.inj ha)
  exact ⟨List.append_cancel_right h, rfl⟩

theorem gap_append_inj {gap gap' digits digits' : Text} {m n : Nat}
    (hgap : ∀ c ∈ gap, isBlank c = true) (hgap' : ∀ c ∈ gap', isBlank c = true)
    (hw : Writes digits m) (hw' : Writes digits' n) (h : gap ++ digits = gap' ++ digits') :
    gap = gap' ∧ digits = digits' := by
  have hskip {g ds : Text} {k : Nat} (hg : ∀ c ∈ g, isBlank c = true) (hds : Writes ds k) :
      skipBlank (g ++ ds) = ds := by
    obtain ⟨c, cs, rfl⟩ := List.exists_cons_of_ne_nil hds.ne_nil
    exact skipBlank_append hg (isBlank_of_isDigit (hds.decimal c List.mem_cons_self)) cs
  have hdigits : digits = digits' := by
    rw [← hskip hgap hw, h, hskip hgap' hw']
  rw [hdigits] at h
  exact ⟨List.append_cancel_right h, hdigits⟩

/-- A text has at most one spelling of a date. -/
theorem Spelling.eq_of_render_eq {s r : Spelling} {d e : Date} (hs : s.Names d) (hr : r.Names e)
    (h : s.render = r.render) : s = r := by
  have hyear {q : Spelling} {d : Date} (hq : q.Names d) (x : Text) :
      year? (q.year ++ '-' :: x) = some (d.year, '-' :: x) :=
    year?_append hq.year (ended_dash x)
  have hmonth {q : Spelling} {d : Date} (hq : q.Names d) (x : Text) :
      number? 2 (skipBlank (q.monthGap ++ q.month ++ '-' :: x)) = some (d.month, '-' :: x) := by
    rw [List.append_assoc]
    exact number?_skipBlank_append hq.monthGap hq.month.1 hq.month.2 (ended_dash x)
  rw [render, render] at h
  obtain ⟨hy, h⟩ := append_inj_of_read (hyear hs _) (hyear hr _) h
  have h := (List.cons.inj h).2
  rw [← List.append_assoc, ← List.append_assoc r.monthGap] at h
  obtain ⟨hm, h⟩ := append_inj_of_read (f := fun t => number? 2 (skipBlank t))
    (hmonth hs _) (hmonth hr _) h
  obtain ⟨hgap₁, hm⟩ := gap_append_inj hs.monthGap hr.monthGap hs.month.1 hr.month.1 hm
  obtain ⟨hgap₂, hd⟩ := gap_append_inj hs.dayGap hr.dayGap hs.day.1 hr.day.1 (List.cons.inj h).2
  cases s
  cases r
  simp only [Spelling.mk.injEq]
  exact ⟨hy, hgap₁, hm, hgap₂, hd⟩

end Dates

end LedgerExport.Date
