import LedgerExport.Proofs.OrderedMap
import LedgerExport.Run.Report
import Mathlib.Data.Finset.Card

/-! # The exported data of a report

Only exports leave a trace in the data of a report, which are the map that they make one after the
other. So a name comes where its first export is and has the rows of its last one, wherever
failures stand in between. The main statement is `collects_push`.
-/
namespace LedgerExport.Run

def Outcome.export? : Outcome → Option (Text × List Row)
  | .exported table rows => some (table, rows)
  | .failed _ => none

theorem Outcome.export?_exported (table : Text) (rows : List Row) :
    (exported table rows).export? = some (table, rows) := rfl

theorem Outcome.export?_failed (error : TableError) : (failed error).export? = none := rfl

namespace Report

theorem foldl_collect (outcomes : List Outcome) (data : ExportData) :
    outcomes.foldl collect data =
      (outcomes.filterMap Outcome.export?).foldl (fun m e => m.put e.1 e.2) data := by
  induction outcomes generalizing data with
  | nil => rfl
  | cons o rest ih =>
    cases o with
    | exported table rows => exact ih (data.put table rows)
    | failed error => exact ih data

theorem data_eq_ofList (r : Report) :
    r.data = OrderedMap.ofList (r.outcomes.filterMap Outcome.export?) :=
  foldl_collect r.outcomes .empty

theorem outcomes_foldl_push (outcomes : List Outcome) (r : Report) :
    (outcomes.foldl push r).outcomes = r.outcomes ++ outcomes := by
  induction outcomes generalizing r with
  | nil => simp
  | cons o rest ih => rw [List.foldl_cons, ih, push, List.append_assoc, List.singleton_append]

theorem filterMap_export_split (before after : List Outcome) (table : Text) (rows : List Row) :
    (before ++ .exported table rows :: after).filterMap Outcome.export? =
      before.filterMap Outcome.export? ++ (table, rows) :: after.filterMap Outcome.export? := by
  rw [List.filterMap_append, List.filterMap_cons_some (Outcome.export?_exported table rows)]

theorem mem_map_fst_export_iff {outcomes : List Outcome} {name : Text} :
    name ∈ (outcomes.filterMap Outcome.export?).map Prod.fst ↔
      ∃ rows, .exported name rows ∈ outcomes := by
  constructor
  · intro h
    obtain ⟨e, he, rfl⟩ := List.mem_map.mp h
    obtain ⟨o, ho, hoe⟩ := List.mem_filterMap.mp he
    cases o with
    | exported table rows =>
      obtain rfl := Option.some.inj hoe
      exact ⟨rows, ho⟩
    | failed error => exact absurd hoe (Option.some_ne_none e).symm
  · rintro ⟨rows, h⟩
    exact List.mem_map.mpr ⟨(name, rows), List.mem_filterMap.mpr ⟨_, h, rfl⟩, rfl⟩

theorem map_fst_export (outcomes : List Outcome) :
    (outcomes.filterMap Outcome.export?).map Prod.fst =
      (outcomes.filter Outcome.isExported).map Outcome.table := by
  induction outcomes with
  | nil => rfl
  | cons o rest ih =>
    cases o with
    | exported table rows =>
      rw [List.filterMap_cons_some (Outcome.export?_exported table rows),
        List.filter_cons_of_pos rfl, List.map_cons, List.map_cons, ih]
      rfl
    | failed error =>
      rw [List.filterMap_cons_none (Outcome.export?_failed error),
        List.filter_cons_of_neg Bool.false_ne_true, ih]

/-- What a report holds of the outcomes that were pushed to it. -/
structure Collects (outcomes : List Outcome) (r : Report) : Prop where
  mem : ∀ name, name ∈ r.data.names ↔ ∃ rows, .exported name rows ∈ outcomes
  nodup : r.data.names.Nodup
  /-- Whatever stands before a name was exported before each export of that name. -/
  ordered : r.data.names.Pairwise fun a b => ∀ before rows after,
    outcomes = before ++ .exported b rows :: after → ∃ earlier, .exported a earlier ∈ before
  /-- The rows are those of the last export. -/
  last : ∀ before name rows after, outcomes = before ++ .exported name rows :: after →
    (∀ later, .exported name later ∉ after) → r.data.get? name = some rows
  /-- A failure could as well not be there. -/
  failed : ∀ before error after, outcomes = before ++ .failed error :: after →
    r.data = ((before ++ after).foldl push {}).data
  size : r.data.size = ((outcomes.filter Outcome.isExported).map Outcome.table).toFinset.card
  size_le : r.data.size ≤ r.exported

/-- The data of a report are the last rows of each exported table, in the order of the first
exports, whatever the outcomes are. -/
theorem collects_push (outcomes : List Outcome) :
    Collects outcomes (outcomes.foldl push {}) := by
  have houtcomes (l : List Outcome) : (l.foldl push {}).outcomes = l := outcomes_foldl_push l {}
  have hdata (l : List Outcome) :
      (l.foldl push {}).data = OrderedMap.ofList (l.filterMap Outcome.export?) := by
    rw [data_eq_ofList, houtcomes]
  have hregisters := OrderedMap.registers_ofList (outcomes.filterMap Outcome.export?)
  rw [← hdata] at hregisters
  have hsize : (outcomes.foldl push {}).data.size =
      ((outcomes.filter Outcome.isExported).map Outcome.table).toFinset.card := by
    have hlength :
        (outcomes.foldl push {}).data.size = (outcomes.foldl push {}).data.names.length :=
      (List.length_map Prod.fst).symm
    rw [← map_fst_export, hlength, ← List.toFinset_card_of_nodup hregisters.nodup]
    congr 1
    ext name
    rw [List.mem_toFinset, List.mem_toFinset]
    exact hregisters.mem name
  refine ⟨fun name => ?_, hregisters.nodup, ?_, ?_, ?_, hsize, ?_⟩
  · rw [hregisters.mem, mem_map_fst_export_iff]
  · refine hregisters.ordered.imp fun {a b} h before rows after heq => ?_
    refine mem_map_fst_export_iff.mp (h _ rows (after.filterMap Outcome.export?) ?_)
    rw [heq, filterMap_export_split]
  · intro before name rows after heq hlater
    rw [hdata, heq, filterMap_export_split]
    refine OrderedMap.get?_ofList (fun h => ?_) rows
    obtain ⟨later, hmem⟩ := mem_map_fst_export_iff.mp h
    exact hlater later hmem
  · intro before error after heq
    rw [hdata, hdata, heq, List.filterMap_append, List.filterMap_append,
      List.filterMap_cons_none (Outcome.export?_failed error)]
  · rw [hsize, exported, houtcomes, ← List.length_map Outcome.table]
    exact List.toFinset_card_le _

end Report

end LedgerExport.Run
