import LedgerExport.Engine.Status
import LedgerExport.OrderedMap
import LedgerExport.Request.Substitution

/-! # Reports

What became of each table of a run, in the order of the tables.
-/
namespace LedgerExport.Run

inductive TransportFault where
  | unreachable
  | status (code : Nat)
  deriving Repr, DecidableEq

def TransportFault.message : TransportFault → Text
  | .unreachable => "request to engine failed".toList
  | .status code => "engine answered with status ".toList ++ Engine.statusText code

inductive TableFault where
  | transport (fault : TransportFault)
  /-- Placeholders are left in the request, so that it was not sent. -/
  | unresolved (keys : List Text)
  deriving Repr, DecidableEq

def TableFault.message : TableFault → Text
  | .transport fault => fault.message
  | .unresolved keys =>
    "unresolved placeholders after substitution: ".toList ++ Text.join ", ".toList keys

structure TableError where
  table : Text
  fault : TableFault
  deriving Repr, DecidableEq

def TableError.message (e : TableError) : Text :=
  "table ".toList ++ e.table ++ ": ".toList ++ e.fault.message

inductive Outcome where
  | exported (table : Text) (rows : List Row)
  | failed (error : TableError)
  deriving Repr, DecidableEq

namespace Outcome

def table : Outcome → Text
  | .exported table _ => table
  | .failed error => error.table

def isExported : Outcome → Bool
  | .exported .. => true
  | .failed _ => false

def error? : Outcome → Option TableError
  | .exported .. => none
  | .failed error => some error

end Outcome

/-- The rows of the exported tables under the names of the tables. -/
abbrev ExportData := OrderedMap (List Row)

structure Report where
  outcomes : List Outcome := []
  deriving Repr, DecidableEq

namespace Report

def push (r : Report) (o : Outcome) : Report := ⟨r.outcomes ++ [o]⟩

def exported (r : Report) : Nat := (r.outcomes.filter Outcome.isExported).length

def failures (r : Report) : List TableError := r.outcomes.filterMap Outcome.error?

def collect (data : ExportData) : Outcome → ExportData
  | .exported table rows => data.put table rows
  | .failed _ => data

def data (r : Report) : ExportData := r.outcomes.foldl collect .empty

end Report

end LedgerExport.Run
