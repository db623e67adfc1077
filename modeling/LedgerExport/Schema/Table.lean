import LedgerExport.Text.Basic

/-! # Tables to export

A table names the collection that the engine walks and the fields that are taken from each record.
-/
namespace LedgerExport

/-- What a field holds; it selects the expression that the engine evaluates for it. -/
inductive FieldKind where
  | text | logical | date | number | amount | quantity | rate | raw | unknown
  deriving Repr, DecidableEq

namespace FieldKind

def named : List FieldKind := [.text, .logical, .date, .number, .amount, .quantity, .rate, .raw]

def name : FieldKind → Text
  | .text => "text".toList
  | .logical => "logical".toList
  | .date => "date".toList
  | .number => "number".toList
  | .amount => "amount".toList
  | .quantity => "quantity".toList
  | .rate => "rate".toList
  | .raw => "raw".toList
  | .unknown => "unknown".toList

/-- The kind of that name; any other name is an unknown kind. -/
def ofName (t : Text) : FieldKind := (named.find? fun k => k.name = t).getD .unknown

end FieldKind

/-- One column: `name` is its key in the rows, `source` the engine's method or an expression. -/
structure Field where
  name : Text
  source : Text
  kind : FieldKind := .raw
  deriving Repr, DecidableEq

structure Table where
  name : Text
  collection : Text
  fields : List Field
  fetch : List Text := []
  filters : List Text := []
  deriving Repr, DecidableEq

structure Definition where
  master : List Table := []
  transaction : List Table := []
  deriving Repr, DecidableEq

/-- The tables of a run: masters first, each list in its own order. -/
def Definition.select (d : Definition) (master transaction : Bool) : List Table :=
  (if master then d.master else []) ++ (if transaction then d.transaction else [])

end LedgerExport
