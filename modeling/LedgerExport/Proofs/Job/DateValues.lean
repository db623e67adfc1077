import LedgerExport.Proofs.Calendar.Writing
import LedgerExport.Proofs.Job.Dates
import LedgerExport.Proofs.Text.Replacement

/-! # From the dates of a job to the values in its requests

A date of a job that is written with dashes comes into the requests as the compact scalar of the
same day, and no other day has that scalar. The main statement is `dates_survive`.
-/
namespace LedgerExport.JobConfig
open Request Text

/-- The job is accepted with the days `d` and `e`, and its requests get their scalars. -/
structure Carries (c : JobConfig) (d e : Date) : Prop where
  period : c.period = .ok (d, e)
  values : ∃ values, c.substitutions = .ok values ∧
    values.get? fromDateKey = some (.ofDate d) ∧ values.get? toDateKey = some (.ofDate e)

theorem readDate_of_spaced {v : Text} {d : Date} (h : Date.Spaced v d) (which : PeriodEnd) :
    readDate which v = .ok d := by
  rw [readDate, h.parse?]

theorem carries_of_spaced {c : JobConfig} {d e : Date} (hd : Date.Spaced c.fromDate d)
    (he : Date.Spaced c.toDate e) : Carries c d e := by
  have hperiod : c.period = .ok (d, e) :=
    (period_eq_ok_iff c (d, e)).mpr ⟨readDate_of_spaced hd .start, readDate_of_spaced he .finish⟩
  refine ⟨hperiod, c.valuesOf (d, e), ?_, rfl, rfl⟩
  rw [substitutions, hperiod]
  rfl

theorem ofDate_injective : Function.Injective Value.ofDate := by
  intro d e h
  exact Date.compact_injective (Value.scalar.inj h)

/-- Dates are read as the days that they name, and their scalars tell the days apart. Scalars of
years that need no sign are eight digits, in the order of the days. -/
theorem dates_survive :
    (∀ which v d, Date.Spaced v d → readDate which v = .ok d) ∧
    (∀ c d e, Date.Spaced c.fromDate d → Date.Spaced c.toDate e → Carries c d e) ∧
    Function.Injective Value.ofDate ∧
    (∀ d : Date, d.ShortYear → ∃ digits, Value.ofDate d = .scalar digits ∧ digits.length = 8 ∧
      ∀ c ∈ digits, c.isDigit = true) ∧
    ∀ d e : Date, d.ShortYear → e.ShortYear →
      ((Value.ofDate d).render < (Value.ofDate e).render ↔ d.Before e) := by
  refine ⟨?_, ?_, ofDate_injective, ?_, ?_⟩
  · intro which v d h
    exact readDate_of_spaced h which
  · intro c d e hd he
    exact carries_of_spaced hd he
  · intro d h
    exact ⟨d.compact, rfl, h.length_compact, fun c hc => h.isDigit hc⟩
  · intro d e hd he
    exact hd.compact_lt_iff he

/-- A job from the year -44 to the year 12024, with white space around its dates. -/
def longJob : JobConfig where
  definition := "d.yaml".toList
  fromDate := " -0044-03-15\n".toList
  toDate := "\t+12024-02-29".toList
  server := "localhost".toList
  port := 9000

theorem longJob_carries :
    Carries longJob ⟨-44, 3, 15, by decide⟩ ⟨12024, 2, 29, by decide⟩ := by
  refine dates_survive.2.1 longJob _ _ ?_ ?_
  · exact ⟨[' '], ['\n'], forall_mem_of_all (by decide), forall_mem_of_all (by decide), rfl⟩
  · exact ⟨['\t'], [], forall_mem_of_all (by decide), forall_mem_of_all (by decide), rfl⟩

end LedgerExport.JobConfig
