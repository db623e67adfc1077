import LedgerExport.Text.Basic

/-! # Maps in order of first insertion

A name keeps the place where it was first put and holds the value that was put last. A row holds the
texts of its cells under the names of the fields.
-/
namespace LedgerExport

structure OrderedMap (α : Type) where
  entries : List (Text × α) := []
  deriving Repr, DecidableEq

namespace OrderedMap
variable {α : Type}

def empty : OrderedMap α := {}

/-- Replaces the value of the first entry named `name`, or adds an entry at the end. -/
def putIn (name : Text) (value : α) : List (Text × α) → List (Text × α)
  | [] => [(name, value)]
  | (n, v) :: rest => if n = name then (n, value) :: rest else (n, v) :: putIn name value rest

def put (m : OrderedMap α) (name : Text) (value : α) : OrderedMap α :=
  ⟨putIn name value m.entries⟩

def get? (m : OrderedMap α) (name : Text) : Option α :=
  (m.entries.find? fun e => e.1 = name).map Prod.snd

def contains (m : OrderedMap α) (name : Text) : Bool := (m.get? name).isSome

def names (m : OrderedMap α) : List Text := m.entries.map Prod.fst

def size (m : OrderedMap α) : Nat := m.entries.length

def ofList (pairs : List (Text × α)) : OrderedMap α :=
  pairs.foldl (fun m e => m.put e.1 e.2) empty

end OrderedMap

abbrev Row := OrderedMap Text

/-- Pairs names with cells by position. A name without a cell is absent from the row, and a cell
without a name is dropped. -/
def Row.zip (names cells : List Text) : Row := OrderedMap.ofList (names.zip cells)

end LedgerExport
