import LedgerExport.Request.Document
import LedgerExport.Calendar.Date

/-! # Filling in placeholders

A set binds keys to values and keeps its keys in increasing order of their characters. Each key in
turn replaces every `{key}` of the document, so a value may bring in placeholders of later keys.
-/
namespace LedgerExport.Request

inductive Value where
  /-- Free text, escaped when it is inserted. -/
  | text (t : Text)
  /-- Already in the engine's form, inserted as it is. -/
  | scalar (t : Text)
  deriving Repr, DecidableEq

namespace Value

def render : Value → Text
  | .text t => Text.escape t
  | .scalar t => t

def ofDate (d : Date) : Value := .scalar d.compact

def ofInt (n : Int) : Value := .scalar (Text.integer n)

end Value

/-- Values bound to keys, in increasing order of the keys. -/
structure SubstitutionSet where
  entries : List (Text × Value) := []
  deriving Repr, DecidableEq

namespace SubstitutionSet

def empty : SubstitutionSet := {}

/-- Puts the pair where its key belongs; an equal key is replaced. -/
def insertIn (key : Text) (value : Value) : List (Text × Value) → List (Text × Value)
  | [] => [(key, value)]
  | (k, v) :: rest =>
    if key = k then (key, value) :: rest
    else if key < k then (key, value) :: (k, v) :: rest
    else (k, v) :: insertIn key value rest

def insert (s : SubstitutionSet) (key : Text) (value : Value) : SubstitutionSet :=
  ⟨insertIn key value s.entries⟩

def get? (s : SubstitutionSet) (key : Text) : Option Value :=
  (s.entries.find? fun e => e.1 = key).map Prod.snd

def size (s : SubstitutionSet) : Nat := s.entries.length

def ofList (pairs : List (Text × Value)) : SubstitutionSet :=
  pairs.foldl (fun s e => s.insert e.1 e.2) empty

end SubstitutionSet

/-- Replaces every placeholder that has a value, one key after the other. -/
def substitute (document : Text) (values : SubstitutionSet) : Text :=
  values.entries.foldl (fun t e => Text.replaceAll (placeholder e.1) e.2.render t) document

def unresolved (document : Text) (keys : List Text) : List Text :=
  keys.filter fun key => Text.contains (placeholder key) document

end LedgerExport.Request
