import LedgerExport.Proofs.Run.Period

/-! # Requests without their period

An end of the period for which a run has no value stays open in every document, whatever the other
values are, so that no table is sent. The main statement is `run_refuses_unbound`.
-/
namespace LedgerExport.Run
open Request Text
namespace Session
variable {s : Session} (hvalues : ∀ e ∈ s.values.entries, Braceless e.1)
include hvalues

theorem mem_openKeys_of_unbound {key : Text} (hkey : key ∈ periodKeys)
    (hunbound : s.values.get? key = none) (t : Table) : key ∈ s.openKeys t := by
  rw [openKeys_eq, List.mem_filter, decide_eq_true_iff]
  exact ⟨hkey, infix_substitute_of_unbound (braceless_of_mem_periodKeys key hkey) hvalues hunbound
    (infix_compile_of_mem_periodKeys hkey t s.company)⟩

/-- No table is ready while an end of the period has no value. -/
theorem not_ready_of_unbound {key : Text} (hkey : key ∈ periodKeys)
    (hunbound : s.values.get? key = none) (t : Table) : ¬ s.Ready t := by
  rw [← openKeys_eq_nil_iff]
  exact List.ne_nil_of_mem (mem_openKeys_of_unbound hvalues hkey hunbound t)

theorem openKeys_eq_periodKeys (hunbound : ∀ key ∈ periodKeys, s.values.get? key = none)
    (t : Table) : s.openKeys t = periodKeys := by
  refine List.filter_eq_self.mpr fun key hkey => ?_
  have hmem := mem_openKeys_of_unbound hvalues hkey (hunbound key hkey) t
  exact (List.mem_filter.mp hmem).2

/-- A run without a value for an end of the period refuses every table, names that end among those
that are open, and sends nothing. -/
theorem run_refuses_unbound {key : Text} (hkey : key ∈ periodKeys)
    (hunbound : s.values.get? key = none) :
    (∀ sent t, ∃ keys, s.outcome sent t = .failed ⟨t.name, .unresolved keys⟩ ∧
      key ∈ keys ∧ ((∀ k ∈ periodKeys, s.values.get? k = none) → keys = periodKeys) ∧
      s.sentAfter sent t = sent) ∧
    ∀ tables, (s.run tables).sent = [] := by
  have hblocked (t : Table) : ¬ s.Ready t := not_ready_of_unbound hvalues hkey hunbound t
  have hnothing (tables : List Table) : s.requests tables = [] := by
    simp [requests, hblocked]
  refine ⟨fun sent t => ⟨s.openKeys t, s.outcome_of_not_ready (hblocked t) sent, ?_, ?_, ?_⟩, ?_⟩
  · exact mem_openKeys_of_unbound hvalues hkey hunbound t
  · exact fun hall => openKeys_eq_periodKeys hvalues hall t
  · rw [sentAfter_eq, hnothing, List.append_nil]
  · intro tables
    rw [run_sent, hnothing]

end Session

/-- Values that make up placeholders among themselves, but none for either end of the period. -/
def undated : Session where
  channel := .scripted [.ok "<F01>Assets</F01>\r\n".toList]
  company := placeholder ("from".toList ++ placeholder "a".toList) ++ " & ".toList ++
    placeholder toDateKey
  values := .ofList [("a".toList, .scalar "Date".toList), ("from".toList, .text ['{']),
    ([], .scalar ('{' :: fromDateKey)), ("z".toList, .text (placeholder toDateKey ++ ['}']))]

theorem undated_run_refuses :
    (undated.run [groups]).sent = [] ∧
      undated.outcome [] groups = .failed ⟨"groups".toList, .unresolved periodKeys⟩ := by
  have hvalues : ∀ e ∈ undated.values.entries, Braceless e.1 := by decide
  have hunbound : ∀ key ∈ periodKeys, undated.values.get? key = none := by decide
  have hkey : fromDateKey ∈ periodKeys := by decide
  obtain ⟨hrefused, hsent⟩ := Session.run_refuses_unbound hvalues hkey (hunbound _ hkey)
  obtain ⟨keys, houtcome, -, hall, -⟩ := hrefused [] groups
  exact ⟨hsent [groups], by rw [houtcome, hall hunbound]; rfl⟩

end LedgerExport.Run
