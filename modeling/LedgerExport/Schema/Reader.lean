import LedgerExport.Schema.Table
import LedgerExport.Yaml.Core

/-! # Reading export definitions

Definitions are written in YAML. Where a record or a list is wanted, nothing stands for an empty
one; where a text is wanted, any scalar stands for itself. A fault carries the place of the node
that it belongs to, and the first one wins. The aliases that are followed are counted, since each of
them may lead to many others.
-/
namespace LedgerExport
open Yaml

structure PlacedMisfit where
  place : Text
  misfit : Misfit
  deriving Repr, DecidableEq

/-- The place comes first, unless it is the whole document. -/
def PlacedMisfit.message (m : PlacedMisfit) : Text :=
  if m.place.isEmpty then m.misfit.message else m.place ++ ": ".toList ++ m.misfit.message

/-- Why a text is no export definition: it is not one well-formed document, or that document does
not fit. -/
inductive DefinitionFault where
  | malformed (message : Text)
  | misfit (m : PlacedMisfit)
  /-- Aliases are followed too often. -/
  | entangled
  deriving Repr, DecidableEq

def DefinitionFault.message : DefinitionFault → Text
  | .malformed message => message
  | .misfit m => m.message
  | .entangled => "repetition limit exceeded".toList

namespace Yaml

def memberPlace (place name : Text) : Text :=
  if place.isEmpty then name else place ++ '.' :: name

def itemPlace (place : Text) (n : Nat) : Text := place ++ '[' :: Text.decimal n ++ [']']

/-- Reading with a count of the aliases that have been followed. -/
abbrev Read (α : Type) := StateT Nat (Except DefinitionFault) α

def faultAt {α : Type} (place : Text) (m : Misfit) : Read α := throw (.misfit ⟨place, m⟩)

/-- The node itself, or the one that an alias stands for. -/
def follow (d : Document) (v : Node) : Read Node := do
  if let .alias _ := v then
    let n ← get
    if d.aliasLimit ≤ n then throw .entangled
    set (n + 1)
  return d.resolve v

abbrev Reader (α : Type) := Document → Text → Node → Read α

def readText : Reader Text := fun d place v => do
  match ← follow d v with
  | .scalar _ _ _ t => return t
  | v => faultAt place (v.misfit "a string".toList)

/-- Whether nothing is written in place of a collection. -/
def standsForNothing : Node → Bool
  | .scalar _ _ true [] => true
  | _ => false

def readItems {α : Type} (read : Reader α) (d : Document) (place : Text) :
    Nat → List Node → Read (List α)
  | _, [] => return []
  | n, v :: rest => do
    let a ← read d (itemPlace place n) v
    return a :: (← readItems read d place (n + 1) rest)

def readList {α : Type} (read : Reader α) : Reader (List α) := fun d place v => do
  match ← follow d v with
  | .sequence _ _ items => readItems read d place 0 items
  | v =>
    if standsForNothing v then return [] else faultAt place (v.misfit "a sequence".toList)

def readKey (d : Document) (place : Text) (k : Node) : Read (Text × Text) := do
  match ← follow d k with
  | .scalar _ _ _ name =>
    match k with
    | .alias _ => return (name, memberPlace place ['?'])
    | _ => return (name, memberPlace place name)
  | v => faultAt place (v.misfit "field identifier".toList)

def readEntries {δ : Type} (add : Document → Text → Text → Text → Node → δ → Read δ) (d : Document)
    (place : Text) : List (Node × Node) → δ → Read δ
  | [], draft => return draft
  | (k, v) :: rest, draft => do
    let (name, valuePlace) ← readKey d place k
    readEntries add d place rest (← add d place name valuePlace v draft)

/-- Reads a mapping into a draft; `add` takes the name, place and node of a member. -/
def readRecord {δ : Type} (expected : Text)
    (add : Document → Text → Text → Text → Node → δ → Read δ) (draft : δ) : Reader δ :=
  fun d place v => do
    match ← follow d v with
    | .mapping _ _ entries => readEntries add d place entries draft
    | v => if standsForNothing v then return draft else faultAt place (v.misfit expected)

/-- Reads a member that must not have been there before. -/
def once {α : Type} (old : Option α) (read : Reader α) (d : Document)
    (place name valuePlace : Text) (v : Node) : Read (Option α) :=
  match old with
  | some _ => faultAt place (.duplicateField name)
  | none => some <$> read d valuePlace v

def required {α : Type} (place name : Text) : Option α → Read α
  | some a => return a
  | none => faultAt place (.missingField name)

end Yaml

namespace FieldKind

/-- A local tag that names a kind has nothing behind it. -/
def ofTag (place name : Text) : Node → Read FieldKind
  | .scalar _ _ isPlain t =>
    if isPlain && (t.isEmpty || Core.isNull t) then return ofName name
    else faultAt place (.invalidValue (Core.string t).describe "null".toList)
  | v => faultAt place (v.misfit "unit".toList)

def tagName? : Option Text → Option Text
  | some ('!' :: name) => some name
  | _ => none

def tagExpected : Text := "a YAML tag starting with '!'".toList

/-- A kind is named by a scalar or by a local tag. -/
def read : Reader FieldKind := fun d place v => do
  let v ← follow d v
  match v with
  | .scalar _ tag _ t =>
    match tagName? tag with
    | some name => ofTag place name v
    | none => return ofName t
  | .sequence _ tag _ | .mapping _ tag _ =>
    match tagName? tag with
    | some name => ofTag place name v
    | none => faultAt place (v.misfit tagExpected)
  | .alias _ => return .unknown

end FieldKind

namespace Field

structure Draft where
  name : Option Text := none
  source : Option Text := none
  kind : Option FieldKind := none

def Draft.add (d : Document) (place name valuePlace : Text) (v : Node) (f : Draft) :
    Read Draft := do
  if name = "name".toList then
    return { f with name := ← once f.name readText d place name valuePlace v }
  else if name = "field".toList then
    return { f with source := ← once f.source readText d place name valuePlace v }
  else if name = "type".toList then
    return { f with kind := ← once f.kind FieldKind.read d place name valuePlace v }
  else return f

def read : Reader Field := fun d place v => do
  let f ← readRecord "struct FieldSpec".toList Draft.add {} d place v
  let name ← required place "name".toList f.name
  let source ← required place "field".toList f.source
  return { name, source, kind := f.kind.getD .raw }

end Field

namespace Table

structure Draft where
  name : Option Text := none
  collection : Option Text := none
  fields : Option (List Field) := none
  fetch : Option (List Text) := none
  filters : Option (List Text) := none

def Draft.add (d : Document) (place name valuePlace : Text) (v : Node) (t : Draft) :
    Read Draft := do
  if name = "name".toList then
    return { t with name := ← once t.name readText d place name valuePlace v }
  else if name = "collection".toList then
    return { t with collection := ← once t.collection readText d place name valuePlace v }
  else if name = "fields".toList then
    return { t with fields := ← once t.fields (readList Field.read) d place name valuePlace v }
  else if name = "fetch".toList then
    return { t with fetch := ← once t.fetch (readList readText) d place name valuePlace v }
  else if name = "filters".toList then
    return { t with filters := ← once t.filters (readList readText) d place name valuePlace v }
  else return t

def read : Reader Table := fun d place v => do
  let t ← readRecord "struct TableSpec".toList Draft.add {} d place v
  let name ← required place "name".toList t.name
  let collection ← required place "collection".toList t.collection
  let fields ← required place "fields".toList t.fields
  return { name, collection, fields, fetch := t.fetch.getD [], filters := t.filters.getD [] }

end Table

namespace Definition

structure Draft where
  master : Option (List Table) := none
  transaction : Option (List Table) := none

def Draft.add (d : Document) (place name valuePlace : Text) (v : Node) (s : Draft) :
    Read Draft := do
  if name = "master".toList then
    return { s with master := ← once s.master (readList Table.read) d place name valuePlace v }
  else if name = "transaction".toList then
    return { s with
      transaction := ← once s.transaction (readList Table.read) d place name valuePlace v }
  else return s

def read : Reader Definition := fun d place v => do
  let s ← readRecord "struct ExportDefinition".toList Draft.add {} d place v
  return { master := s.master.getD [], transaction := s.transaction.getD [] }

def parse (t : Text) : Except DefinitionFault Definition :=
  match Document.parse? t with
  | none => .error (.malformed "not a well-formed document".toList)
  | some d =>
    match d.root with
    | none => .ok {}
    | some v => (read d [] v).run' 0

end Definition

end LedgerExport
