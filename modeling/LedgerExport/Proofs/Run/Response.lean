import LedgerExport.Proofs.Json.Writing
import LedgerExport.Proofs.Run.ExportedData
import LedgerExport.Proofs.Run.Transcript
import LedgerExport.Run.Response

/-! # Responses as texts

The text of a success can be read back to the exported data, which have no name twice, so that
different data make different texts. The main statement is `success_keeps`.
-/
namespace LedgerExport.Run
open Json

/-! ## Responses have no numbers -/

theorem plain_ofMembers_map {α : Type} {f : α → Json} (hf : ∀ a, Plain (f a)) (m : OrderedMap α) :
    Plain (ofMembers (m.entries.map fun e => (e.1, f e.2))) := by
  apply Plain.ofMembers
  intro member hmember
  obtain ⟨e, -, rfl⟩ := List.mem_map.mp hmember
  exact hf e.2

theorem plain_rowJson (row : Row) : Plain (rowJson row) := plain_ofMembers_map Plain.string row

theorem plain_rowsJson (rows : List Row) : Plain (rowsJson rows) := by
  apply Plain.array
  intro v hv
  obtain ⟨row, -, rfl⟩ := List.mem_map.mp hv
  exact plain_rowJson row

theorem plain_dataJson (data : ExportData) : Plain (dataJson data) :=
  plain_ofMembers_map plain_rowsJson data

/-- A response holds no numbers and nothing that cannot be read. -/
theorem Response.plain_toJson (r : Response) : Plain r.toJson := by
  apply Plain.ofMembers
  intro m hm
  rcases List.mem_cons.mp hm with rfl | hm
  · exact .string r.status
  rcases List.mem_cons.mp hm with rfl | hm
  · exact .string r.message
  rcases List.mem_append.mp hm with hm | hm
  · obtain ⟨data, -, rfl⟩ := List.mem_map.mp hm
    exact plain_dataJson data
  · obtain ⟨error, -, rfl⟩ := List.mem_map.mp hm
    exact .string error

/-! ## Different data have different values -/

theorem ofMembers_map_injective {α : Type} {f : α → Json} (hf : Function.Injective f) :
    Function.Injective fun m : OrderedMap α => ofMembers (m.entries.map fun e => (e.1, f e.2)) := by
  rintro ⟨entries⟩ ⟨entries'⟩ h
  simp only [ofMembers, Json.object.injEq, List.map_map] at h
  have hinj : Function.Injective fun e : Text × α =>
      ((.ok e.1 : Except JsonFault Text), f e.2) := by
    intro e e' he
    obtain ⟨hname, hvalue⟩ := Prod.mk.inj he
    exact Prod.ext (Except.ok.inj hname) (hf hvalue)
  exact congrArg OrderedMap.mk (List.map_injective_iff.mpr hinj h)

theorem rowJson_injective : Function.Injective rowJson :=
  ofMembers_map_injective fun _ _ h => Json.string.inj h

theorem rowsJson_injective : Function.Injective rowsJson := by
  intro rows rows' h
  exact List.map_injective_iff.mpr rowJson_injective (Json.array.inj h)

theorem dataJson_injective : Function.Injective dataJson :=
  ofMembers_map_injective rowsJson_injective

/-! ## The rows of reports -/

/-- All rows were filled cell by cell, as rows are (`Session.run_filled`). -/
def Report.Filled (r : Report) : Prop :=
  ∀ table rows, .exported table rows ∈ r.outcomes → ∀ row ∈ rows, row.Filled

theorem Report.exported_of_mem_data {r : Report} {e : Text × List Row} (h : e ∈ r.data.entries) :
    .exported e.1 e.2 ∈ r.outcomes := by
  rw [data_eq_ofList] at h
  obtain ⟨o, ho, hexport⟩ := List.mem_filterMap.mp (OrderedMap.mem_of_mem_entries_ofList h)
  cases o with
  | exported table rows =>
    obtain rfl := Option.some.inj hexport
    exact ho
  | failed error => exact absurd hexport (Option.some_ne_none e).symm

theorem filled_of_mem_decode {names : List Text} {reply : Text} {row : Row}
    (h : row ∈ Reply.decode names reply) : row.Filled := by
  obtain ⟨line, -, rfl⟩ := List.mem_map.mp h
  exact ⟨_, rfl⟩

theorem Session.filled_of_answer {t : Table} {reply : Except TransportFault Text} {name : Text}
    {rows : List Row} (h : answer t reply = .exported name rows) : ∀ row ∈ rows, row.Filled := by
  cases reply with
  | ok reply =>
    obtain ⟨-, rfl⟩ := Outcome.exported.inj h
    exact fun row => filled_of_mem_decode
  | error fault => cases h

/-- The report of every run has rows that were filled cell by cell. -/
theorem Session.run_filled (s : Session) (tables : List Table) : (s.run tables).report.Filled := by
  intro name rows hmem
  obtain ⟨i, hi⟩ := List.mem_iff_getElem?.mp hmem
  rw [run_outcomes] at hi
  obtain ⟨t, -, ht⟩ := Option.map_eq_some_iff.mp hi
  by_cases hr : s.Ready t
  · rw [s.outcome_of_ready hr] at ht
    exact filled_of_answer ht
  · rw [s.outcome_of_not_ready hr] at ht
    cases ht

/-! ## The text of a success -/

def envelope (data : ExportData) : Json :=
  .ofMembers [
    ("status".toList, .string "success".toList),
    ("message".toList, .string "Data retrieved successfully".toList),
    ("data".toList, .ofMembers (data.entries.map fun table =>
      (table.1, .array (table.2.map fun row =>
        .ofMembers (row.entries.map fun cell => (cell.1, .string cell.2))))))]

/-- What the text of a success keeps of the exported data. -/
structure Keeps (text : Text) (data : ExportData) : Prop where
  spelled : Spells text (.value (envelope data))
  /-- Nothing is left over when the text is read. -/
  read : scan text = (envelope data, some [])
  tables : data.names.Nodup
  cells : ∀ table ∈ data.entries, ∀ row ∈ table.2, row.names.Nodup
  /-- No report with other data has the text. -/
  only : ∀ r : Report, compact (Response.success r.data).toJson = text ↔ r.data = data

theorem envelope_injective : Function.Injective envelope := by
  intro data data' h
  simp only [envelope, ofMembers, Json.object.injEq, List.map_cons, List.cons.injEq, Prod.mk.injEq,
    true_and, and_true] at h
  exact dataJson_injective (congrArg Json.object h)

/-- The text of a success loses nothing of the exported data. -/
theorem success_keeps (r : Report) (h : r.Filled) :
    Keeps (compact (Response.success r.data).toJson) r.data := by
  have hvalue (data : ExportData) : (Response.success data).toJson = envelope data := rfl
  have hspells := (Response.success r.data).plain_toJson.spells
  refine ⟨hspells, hspells.scan_eq, ?_, ?_, ?_⟩
  · rw [r.data_eq_ofList]
    exact (OrderedMap.registers_ofList _).nodup
  · intro table htable row hrow
    exact (h table.1 table.2 (Report.exported_of_mem_data htable) row hrow).nodup
  · intro r'
    rw [compact_inj (Response.plain_toJson _) (Response.plain_toJson _), hvalue, hvalue]
    exact envelope_injective.eq_iff

/-- A table that is exported twice, with a name twice in its second row. -/
def noisyReport : Report := ⟨[
  .exported "B\"cher".toList [],
  .failed ⟨"Lager".toList, .transport .unreachable⟩,
  .exported "B\"cher".toList [
    .ofList [("Soll\\".toList, "€ \x01".toList)],
    .ofList [("Haben".toList, "\n".toList), ("".toList, "😀".toList), ("Haben".toList, "".toList)]],
  .exported "Ämter".toList []]⟩

theorem noisyReport_keeps :
    noisyReport.Filled ∧ noisyReport.data.names = ["B\"cher".toList, "Ämter".toList] ∧
      Keeps (compact (Response.success noisyReport.data).toJson) noisyReport.data := by
  have hfilled : noisyReport.Filled := by
    intro table rows hmem row hrow
    simp only [noisyReport, List.mem_cons, Outcome.exported.injEq, reduceCtorEq, false_or,
      List.not_mem_nil, or_false] at hmem
    rcases hmem with ⟨-, rfl⟩ | ⟨-, rfl⟩ | ⟨-, rfl⟩
    · exact absurd hrow List.not_mem_nil
    · simp only [List.mem_cons, List.not_mem_nil, or_false] at hrow
      rcases hrow with rfl | rfl <;> exact ⟨_, rfl⟩
    · exact absurd hrow List.not_mem_nil
  exact ⟨hfilled, by decide, success_keeps noisyReport hfilled⟩

end LedgerExport.Run
