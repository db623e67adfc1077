import LedgerExport.Job.Config
import LedgerExport.Json.Reader

/-! # Reading job configurations

A record is an object with its fields under their names, or an array of them in order. Members are
taken in the order of the text and the first fault wins; unknown members are skipped.
-/
namespace LedgerExport
open Json

namespace Json

def readText (expected : Text) : Json → Except ReadError Text
  | .string t => .ok t
  | v => unexpected v expected

def readOptionalText : Json → Except ReadError (Option Text)
  | .null => .ok none
  | v => (readText "a string".toList v).map some

def readBool : Json → Except ReadError Bool
  | .bool b => .ok b
  | v => unexpected v "a boolean".toList

def readPort : Json → Except ReadError UInt16
  | .number (.natural n) =>
    if n < 65536 then .ok (UInt16.ofNat n)
    else .error (.misfit (.invalidValue (describe (.number (.natural n))) "u16".toList))
  | .number (.negative n) =>
    .error (.misfit (.invalidValue (describe (.number (.negative n))) "u16".toList))
  | v => unexpected v "u16".toList

def skip (v : Json) : Except ReadError Unit :=
  match skipFault? v with
  | some fault => .error (.malformed fault)
  | none => .ok ()

/-- Reads a field that must not have been there before. -/
def once {α : Type} (name : Text) (old : Option α) (read : Json → Except ReadError α) (v : Json) :
    Except ReadError (Option α) :=
  match old with
  | some _ => .error (.misfit (.duplicateField name))
  | none => (read v).map some

def required {α : Type} (name : Text) : Option α → Except ReadError α
  | some a => .ok a
  | none => .error (.misfit (.missingField name))

/-- Reads the next item of an array; `length` is how many there have been, if there is none. -/
def next {α : Type} (length : Nat) (expected : Text) (read : Json → Except ReadError α) :
    List Json → Except ReadError (α × List Json)
  | [] => .error (.misfit (.invalidLength length expected))
  | v :: rest => (read v).map fun a => (a, rest)

def nextOr {α : Type} (default : α) (read : Json → Except ReadError α) :
    List Json → Except ReadError (α × List Json)
  | [] => .ok (default, [])
  | v :: rest => (read v).map fun a => (a, rest)

def noMore : List Json → Except ReadError Unit
  | [] => .ok ()
  | .broken .endInList _ :: _ => .error (.malformed .endInList)
  | .broken .trailingComma _ :: _ => .error (.malformed .trailingComma)
  | _ => .error (.malformed .trailingCharacters)

end Json

namespace JobConfig

/-- The fields that have been read so far. -/
structure Draft where
  definition : Option Text := none
  fromDate : Option Text := none
  toDate : Option Text := none
  company : Option (Option Text) := none
  server : Option Text := none
  port : Option UInt16 := none
  importMaster : Option Bool := none
  importTransaction : Option Bool := none

def readPath : Json → Except ReadError Text := readText "path string".toList
def readString : Json → Except ReadError Text := readText "a string".toList

def Draft.add (d : Draft) (key : Text) (v : Json) : Except ReadError Draft :=
  if key = "definition".toList then
    (once key d.definition readPath v).map fun x => { d with definition := x }
  else if key = "fromDate".toList then
    (once key d.fromDate readString v).map fun x => { d with fromDate := x }
  else if key = "toDate".toList then
    (once key d.toDate readString v).map fun x => { d with toDate := x }
  else if key = "company".toList then
    (once key d.company readOptionalText v).map fun x => { d with company := x }
  else if key = "server".toList then
    (once key d.server readString v).map fun x => { d with server := x }
  else if key = "port".toList then
    (once key d.port readPort v).map fun x => { d with port := x }
  else if key = "importMaster".toList then
    (once key d.importMaster readBool v).map fun x => { d with importMaster := x }
  else if key = "importTransaction".toList then
    (once key d.importTransaction readBool v).map fun x => { d with importTransaction := x }
  else (skip v).map fun _ => d

def Draft.addAll (d : Draft) : List (Except JsonFault Text × Json) → Except ReadError Draft
  | [] => .ok d
  | (.error fault, _) :: _ => .error (.malformed fault)
  | (.ok key, v) :: rest => do (← d.add key v).addAll rest

def Draft.finish (d : Draft) : Except ReadError JobConfig := do
  let definition ← required "definition".toList d.definition
  let fromDate ← required "fromDate".toList d.fromDate
  let toDate ← required "toDate".toList d.toDate
  let server ← required "server".toList d.server
  let port ← required "port".toList d.port
  return {
    definition, fromDate, toDate, server, port
    company := d.company.getD none
    importMaster := d.importMaster.getD true
    importTransaction := d.importTransaction.getD true }

def arrayForm : Text := "struct JobConfig with 8 elements".toList

def ofItems (items : List Json) : Except ReadError JobConfig := do
  let (definition, items) ← next 0 arrayForm readPath items
  let (fromDate, items) ← next 1 arrayForm readString items
  let (toDate, items) ← next 2 arrayForm readString items
  let (company, items) ← nextOr none readOptionalText items
  let (server, items) ← next 4 arrayForm readString items
  let (port, items) ← next 5 arrayForm readPort items
  let (importMaster, items) ← nextOr true readBool items
  let (importTransaction, items) ← nextOr true readBool items
  noMore items
  return {
    definition, fromDate, toDate, company, server, port, importMaster, importTransaction }

def ofJson : Json → Except ReadError JobConfig
  | .object members => do (← Draft.addAll {} members).finish
  | .array items => ofItems items
  | v => unexpected v "struct JobConfig".toList

def parse (t : Text) : Except ReadError JobConfig := readWith ofJson t

end JobConfig

structure ExportRequest where
  config : JobConfig
  deriving Repr, DecidableEq

namespace ExportRequest

def addAll (config : Option JobConfig) :
    List (Except JsonFault Text × Json) → Except ReadError (Option JobConfig)
  | [] => .ok config
  | (.error fault, _) :: _ => .error (.malformed fault)
  | (.ok key, v) :: rest =>
    if key = "config".toList then do addAll (← once key config JobConfig.ofJson v) rest
    else do skip v; addAll config rest

def ofJson : Json → Except ReadError ExportRequest
  | .object members => do
    return ⟨← required "config".toList (← addAll none members)⟩
  | .array items => do
    let (config, rest) ← next 0 "struct ExportRequest with 1 element".toList JobConfig.ofJson items
    noMore rest
    return ⟨config⟩
  | v => unexpected v "struct ExportRequest".toList

def parse (t : Text) : Except ReadError ExportRequest := readWith ofJson t

end ExportRequest

end LedgerExport
