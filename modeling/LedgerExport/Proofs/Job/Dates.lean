import LedgerExport.Job.Config
import LedgerExport.Proofs.Calendar.Reading
import LedgerExport.Proofs.Steps

/-! # The dates of a job

A job should give its period as two dates of four, two and two digits. It is read with more freedom:
a year may have fewer digits or a sign, a month or a day one digit or white space before it. The
main statement tells which texts are accepted, and that just the dates written with such freedom
keep the period from being the documented one.
-/
namespace LedgerExport.JobConfig

/-- The text is a date in one of the ways in which dates are read. -/
def Reads (v : Text) (d : Date) : Prop :=
  ∃ s : Date.Spelling, Text.trim v = s.render ∧ s.Names d

/-- The text is a date of four digits, two and two, with white space around it at most. -/
def Documented (v : Text) (d : Date) : Prop :=
  ∃ s : Date.Spelling, Text.trim v = s.render ∧ s.Names d ∧ s.Strict

/-- The text is a date that is written in another way. -/
def Loose (v : Text) : Prop :=
  ∃ (s : Date.Spelling) (d : Date), Text.trim v = s.render ∧ s.Names d ∧ ¬ s.Strict

/-- The period is accepted if both of its texts are dates by `names`, as the days that they name.
Otherwise the first text that is none is reported as it was given, with its place. -/
structure AcceptsBy (names : Text → Date → Prop) (c : JobConfig) : Prop where
  accepted : ∀ p, c.period = .ok p ↔ names c.fromDate p.1 ∧ names c.toDate p.2
  refused : ∀ e, c.period = .error e ↔
    e = ⟨.start, c.fromDate⟩ ∧ (∀ d, ¬ names c.fromDate d) ∨
      e = ⟨.finish, c.toDate⟩ ∧ (∃ d, names c.fromDate d) ∧ ∀ d, ¬ names c.toDate d

section Texts
variable {v : Text} {d : Date}

theorem readDate_eq_ok_iff (which : PeriodEnd) : readDate which v = .ok d ↔ Reads v d := by
  rw [Reads, ← Date.parse?_eq_some_iff, readDate]
  cases Date.parse? v with
  | none => simp
  | some e => simp

theorem readDate_eq_error_iff {which : PeriodEnd} {e : InvalidDate} :
    readDate which v = .error e ↔ e = ⟨which, v⟩ ∧ ∀ d, ¬ Reads v d := by
  have hreads (d : Date) : Reads v d ↔ Date.parse? v = some d := Date.parse?_eq_some_iff.symm
  simp only [hreads, readDate]
  cases Date.parse? v with
  | none => simp [eq_comm]
  | some d => simp

theorem Documented.reads (h : Documented v d) : Reads v d := by
  obtain ⟨s, ht, hn, -⟩ := h
  exact ⟨s, ht, hn⟩

theorem Reads.documented (h : Reads v d) (hl : ¬ Loose v) : Documented v d := by
  obtain ⟨s, ht, hn⟩ := h
  refine ⟨s, ht, hn, ?_⟩
  by_contra hs
  exact hl ⟨s, d, ht, hn, hs⟩

theorem documented_iff_reads (hl : ¬ Loose v) : Documented v d ↔ Reads v d :=
  ⟨Documented.reads, fun h => h.documented hl⟩

theorem Loose.exists_reads (h : Loose v) : ∃ d, Reads v d := by
  obtain ⟨s, d, ht, hn, -⟩ := h
  exact ⟨d, s, ht, hn⟩

/-- A date has one spelling, so that no text is written in both ways. -/
theorem Loose.not_documented (h : Loose v) (d : Date) : ¬ Documented v d := by
  obtain ⟨s, e, ht, hn, hs⟩ := h
  rintro ⟨r, hr, hm, hstrict⟩
  have heq : s = r := Date.Spelling.eq_of_render_eq hn hm (ht.symm.trans hr)
  exact hs (heq ▸ hstrict)

end Texts

section Period
variable (c : JobConfig)

theorem period_eq_ok_iff (p : Date × Date) : c.period = .ok p ↔
    readDate .start c.fromDate = .ok p.1 ∧ readDate .finish c.toDate = .ok p.2 := by
  constructor
  · intro h
    obtain ⟨start, hstart, h⟩ := bind_eq_ok_iff.mp h
    obtain ⟨finish, hfinish, h⟩ := bind_eq_ok_iff.mp h
    obtain rfl := Except.ok.inj h
    exact ⟨hstart, hfinish⟩
  · rintro ⟨hstart, hfinish⟩
    exact bind_eq_ok_iff.mpr ⟨p.1, hstart, bind_eq_ok_iff.mpr ⟨p.2, hfinish, rfl⟩⟩

theorem period_eq_error_iff (e : InvalidDate) : c.period = .error e ↔
    readDate .start c.fromDate = .error e ∨
      (∃ d, readDate .start c.fromDate = .ok d) ∧ readDate .finish c.toDate = .error e := by
  constructor
  · intro h
    rcases bind_eq_error_iff.mp h with hstart | ⟨start, hstart, h⟩
    · exact Or.inl hstart
    · rcases bind_eq_error_iff.mp h with hfinish | ⟨finish, -, h⟩
      · exact Or.inr ⟨⟨start, hstart⟩, hfinish⟩
      · cases h
  · rintro (hstart | ⟨⟨start, hstart⟩, hfinish⟩)
    · exact bind_eq_error_iff.mpr (Or.inl hstart)
    · exact bind_eq_error_iff.mpr (Or.inr ⟨start, hstart, bind_eq_error_iff.mpr (Or.inl hfinish)⟩)

theorem acceptsBy_reads : AcceptsBy Reads c where
  accepted p := by
    rw [period_eq_ok_iff, readDate_eq_ok_iff, readDate_eq_ok_iff]
  refused e := by
    rw [period_eq_error_iff, readDate_eq_error_iff, readDate_eq_error_iff]
    simp only [readDate_eq_ok_iff]
    exact or_congr_right and_left_comm

variable {c}

/-- Without loosely written dates just the documented ones are accepted. -/
theorem AcceptsBy.documented (hfrom : ¬ Loose c.fromDate)
    (hto : ∀ d, Documented c.fromDate d → ¬ Loose c.toDate) : AcceptsBy Documented c := by
  have hstart (d : Date) : Documented c.fromDate d ↔ Reads c.fromDate d :=
    documented_iff_reads hfrom
  have hfinish {s : Date} (hs : Reads c.fromDate s) (d : Date) :
      Documented c.toDate d ↔ Reads c.toDate d :=
    documented_iff_reads (hto s ((hstart s).mpr hs))
  have hreads := acceptsBy_reads c
  constructor
  · intro p
    rw [hreads.accepted, hstart]
    exact and_congr_right fun hs => (hfinish hs p.2).symm
  · intro e
    rw [hreads.refused]
    simp only [hstart]
    refine or_congr_right (and_congr_right fun _ => and_congr_right fun ⟨s, hs⟩ => ?_)
    exact forall_congr' fun d => not_congr (hfinish hs d).symm

/-- A loosely written date is accepted, though it is not a documented one. -/
theorem AcceptsBy.not_loose (h : AcceptsBy Documented c) :
    ¬ Loose c.fromDate ∧ ∀ d, Documented c.fromDate d → ¬ Loose c.toDate := by
  have hreads := acceptsBy_reads c
  constructor
  · intro hl
    obtain ⟨d, hd⟩ := hl.exists_reads
    have herror : c.period = .error ⟨.start, c.fromDate⟩ :=
      (h.refused _).mpr (Or.inl ⟨rfl, hl.not_documented⟩)
    rcases (hreads.refused _).mp herror with ⟨-, hnone⟩ | ⟨heq, -⟩
    · exact hnone d hd
    · exact absurd (congrArg InvalidDate.which heq) (by simp)
  · intro d hd hl
    obtain ⟨f, hf⟩ := hl.exists_reads
    have hok : c.period = .ok (d, f) := (hreads.accepted _).mpr ⟨hd.reads, hf⟩
    exact hl.not_documented f ((h.accepted _).mp hok).2

end Period

theorem acceptsBy_documented_iff (c : JobConfig) : AcceptsBy Documented c ↔
    ¬ Loose c.fromDate ∧ ∀ d, Documented c.fromDate d → ¬ Loose c.toDate :=
  ⟨AcceptsBy.not_loose, fun h => .documented h.1 h.2⟩

/-- The texts that a job takes for the ends of its period, and when these are just the documented
ones. -/
theorem period_accepts (c : JobConfig) :
    AcceptsBy Reads c ∧ (AcceptsBy Documented c ↔
      ¬ Loose c.fromDate ∧ ∀ d, Documented c.fromDate d → ¬ Loose c.toDate) :=
  ⟨acceptsBy_reads c, acceptsBy_documented_iff c⟩

def shortYearJob : JobConfig where
  definition := "d.yaml".toList
  fromDate := "24-04-01".toList
  toDate := "2025-03-31".toList
  server := "localhost".toList
  port := 9000

/-- The year 24 is accepted, although its text is not the documented one. -/
theorem not_acceptsBy_documented :
    shortYearJob.period = .ok (⟨24, 4, 1, by decide⟩, ⟨2025, 3, 31, by decide⟩) ∧
      ¬ AcceptsBy Documented shortYearJob := by
  refine ⟨rfl, fun h => h.not_loose.1 ?_⟩
  have hdigits {ds : Text} {n : Nat} (h : ds ≠ [] ∧ ds.all Char.isDigit = true ∧
      Nat.ofDigitChars 10 ds 0 = n) : Date.Writes ds n :=
    ⟨h.1, List.all_eq_true.mp h.2.1, h.2.2⟩
  refine ⟨⟨"24".toList, [], "04".toList, [], "01".toList⟩, ⟨24, 4, 1, by decide⟩, rfl, ?_, ?_⟩
  · constructor
    · exact .bare (hdigits ⟨by decide, by decide, rfl⟩) (by decide)
    · exact List.forall_mem_nil _
    · exact ⟨hdigits ⟨by decide, by decide, rfl⟩, by decide⟩
    · exact List.forall_mem_nil _
    · exact ⟨hdigits ⟨by decide, by decide, rfl⟩, by decide⟩
  · intro hs
    exact absurd hs.year.1 (by decide)

end LedgerExport.JobConfig
