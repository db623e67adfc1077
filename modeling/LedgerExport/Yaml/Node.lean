import LedgerExport.OrderedMap
import LedgerExport.Yaml.Lexer

/-! # Documents

A document is a tree of scalars, sequences and mappings. An alias stands for a node that has an
anchor; the tree only holds the anchor's number, so a node may stand inside itself.
-/
namespace LedgerExport.Yaml

inductive Node where
  | scalar (anchor : Option Nat) (tag : Option Text) (isPlain : Bool) (text : Text)
  | sequence (anchor : Option Nat) (tag : Option Text) (items : List Node)
  | mapping (anchor : Option Nat) (tag : Option Text) (entries : List (Node × Node))
  | alias (anchor : Nat)
  deriving Repr

namespace Node

def empty : Node := .scalar none none true []

mutual

def anchored : Node → List (Nat × Node)
  | .scalar (some n) tag isPlain text => [(n, .scalar (some n) tag isPlain text)]
  | .sequence (some n) tag items => (n, .sequence (some n) tag items) :: anchoredItems items
  | .sequence none _ items => anchoredItems items
  | .mapping (some n) tag entries => (n, .mapping (some n) tag entries) :: anchoredEntries entries
  | .mapping none _ entries => anchoredEntries entries
  | _ => []

def anchoredItems : List Node → List (Nat × Node)
  | [] => []
  | v :: rest => anchored v ++ anchoredItems rest

def anchoredEntries : List (Node × Node) → List (Nat × Node)
  | [] => []
  | (k, v) :: rest => anchored k ++ anchored v ++ anchoredEntries rest

end

mutual

/-- Scalars and aliases are one event each, and other nodes have a start and an end. -/
def events : Node → Nat
  | .scalar .. | .alias _ => 1
  | .sequence _ _ items => eventsOfItems items + 2
  | .mapping _ _ entries => eventsOfEntries entries + 2

def eventsOfItems : List Node → Nat
  | [] => 0
  | v :: rest => events v + eventsOfItems rest

def eventsOfEntries : List (Node × Node) → Nat
  | [] => 0
  | (k, v) :: rest => events k + events v + eventsOfEntries rest

end

end Node

/-- The only document of a text; there is none if nothing but comments is written. -/
structure Document where
  root : Option Node
  deriving Repr

/-! ## Grammar -/

structure Parsing where
  tokens : List Token
  anchors : OrderedMap Nat := .empty
  handles : List (Text × Text) := []

abbrev Grammar (α : Type) := StateT Parsing Option α

namespace Grammar

def peek : Grammar (Option Token) := return (← get).tokens.head?

def skip : Grammar Unit := modify fun s => { s with tokens := s.tokens.drop 1 }

def sees (ts : List Token) : Grammar Bool := return (← peek).any ts.elem

def accept (t : Token) : Grammar Bool := do
  if (← peek) == some t then skip; return true
  else return false

def expect (t : Token) : Grammar Unit := do
  unless ← accept t do failure

/-- An anchor gets the number of names that there have been; a name that comes again gets a new
number. -/
def declare (name : Text) : Grammar Nat := do
  let n := (← get).anchors.size
  modify fun s => { s with anchors := s.anchors.put name n }
  return n

def anchor? : Grammar (Option Nat) := do
  match ← peek with
  | some (.anchor name) => skip; return some (← declare name)
  | _ => return none

def defaultHandles : List (Text × Text) :=
  [("!".toList, "!".toList), ("!!".toList, "tag:yaml.org,2002:".toList)]

def resolveTag (handle suffix : Text) : Grammar Text := do
  if handle.isEmpty then return suffix
  else
    match ((← get).handles ++ defaultHandles).lookup handle with
    | some front => return front ++ suffix
    | none => failure

def tag? : Grammar (Option Text) := do
  match ← peek with
  | some (.tag handle suffix) => skip; return some (← resolveTag handle suffix)
  | _ => return none

def properties : Grammar (Option Nat × Option Text) := do
  match ← anchor? with
  | some n => return (some n, ← tag?)
  | none =>
    match ← tag? with
    | some t => return (← anchor?, some t)
    | none => return (none, none)

/-- The mark alone is no tag for a scalar that is written. -/
def scalarTag (tag : Option Text) : Option Text := if tag == some ['!'] then none else tag

mutual

/-- A node. In a block it may be a block, and as a part of a mapping a sequence without indentation
of its own. -/
def node (inBlock asPart : Bool) : Nat → Grammar Node
  | 0 => failure
  | fuel + 1 => do
    match ← peek with
    | some (.alias name) =>
      skip
      match (← get).anchors.get? name with
      | some n => return .alias n
      | none => failure
    | _ =>
      let (anchor, tag) ← properties
      match ← peek with
      | some (.scalar isPlain text) =>
        skip
        return .scalar anchor (scalarTag tag) isPlain text
      | some .flowSequenceStart => skip; return .sequence anchor tag (← flowItems true fuel)
      | some .flowMappingStart => skip; return .mapping anchor tag (← flowEntries true fuel)
      | t =>
        if asPart && t == some .blockEntry then
          return .sequence anchor tag (← looseItems fuel)
        else if inBlock && t == some .blockSequenceStart then
          skip; return .sequence anchor tag (← blockItems fuel)
        else if inBlock && t == some .blockMappingStart then
          skip; return .mapping anchor tag (← blockEntries fuel)
        else if anchor.isSome || tag.isSome then return .scalar anchor tag true []
        else failure

def blockItems : Nat → Grammar (List Node)
  | 0 => failure
  | fuel + 1 => do
    if ← accept .blockEntry then
      let v ← if ← sees [.blockEntry, .blockEnd] then pure .empty else node true false fuel
      return v :: (← blockItems fuel)
    else expect .blockEnd; return []

/-- The items of a sequence without indentation of its own. -/
def looseItems : Nat → Grammar (List Node)
  | 0 => failure
  | fuel + 1 => do
    if ← accept .blockEntry then
      let v ← if ← sees [.blockEntry, .key, .value, .blockEnd] then pure .empty
        else node true false fuel
      return v :: (← looseItems fuel)
    else return []

def blockPart : Nat → Grammar Node
  | 0 => failure
  | fuel + 1 => do
    if ← sees [.key, .value, .blockEnd] then return .empty else node true true fuel

def blockEntries : Nat → Grammar (List (Node × Node))
  | 0 => failure
  | fuel + 1 => do
    if ← accept .key then
      let k ← blockPart fuel
      let v ← if ← accept .value then blockPart fuel else pure .empty
      return (k, v) :: (← blockEntries fuel)
    else expect .blockEnd; return []

def flowValue (ends : List Token) : Nat → Grammar Node
  | 0 => failure
  | fuel + 1 => do
    if ← accept .value then
      if ← sees ends then return .empty else node false false fuel
    else return .empty

/-- The items of a flow sequence up to its end. An item with the mark of a key is a mapping of one
entry; the token behind a mark without a key is taken with it. -/
def flowItems (isFirst : Bool) : Nat → Grammar (List Node)
  | 0 => failure
  | fuel + 1 => do
    if ← accept .flowSequenceEnd then return []
    else
      unless isFirst do expect .flowEntry
      if ← accept .key then
        let k ←
          if ← sees [.value, .flowEntry, .flowSequenceEnd] then skip; pure .empty
          else node false false fuel
        let v ← flowValue [.flowEntry, .flowSequenceEnd] fuel
        return .mapping none none [(k, v)] :: (← flowItems false fuel)
      else if ← accept .flowSequenceEnd then return []
      else
        let v ← node false false fuel
        return v :: (← flowItems false fuel)

/-- The entries of a flow mapping up to its end. A node without the mark of a key has no value. -/
def flowEntries (isFirst : Bool) : Nat → Grammar (List (Node × Node))
  | 0 => failure
  | fuel + 1 => do
    if ← accept .flowMappingEnd then return []
    else
      unless isFirst do expect .flowEntry
      if ← accept .key then
        let k ← if ← sees [.value, .flowEntry, .flowMappingEnd] then pure .empty
          else node false false fuel
        let v ← flowValue [.flowEntry, .flowMappingEnd] fuel
        return (k, v) :: (← flowEntries false fuel)
      else if ← accept .flowMappingEnd then return []
      else
        let k ← node false false fuel
        return (k, .empty) :: (← flowEntries false fuel)

end

/-! ## Documents -/

/-- The directives in front of a document: one version at most, and each handle once. -/
def directives : Bool → Nat → Grammar Unit
  | _, 0 => failure
  | hasVersion, fuel + 1 => do
    match ← peek with
    | some (.version major minor) =>
      skip
      if hasVersion || major ≠ 1 || (minor ≠ 1 && minor ≠ 2) then failure
      directives true fuel
    | some (.tagPrefix handle value) =>
      skip
      if ((← get).handles.lookup handle).isSome then failure
      modify fun s => { s with handles := s.handles ++ [(handle, value)] }
      directives hasVersion fuel
    | _ => return ()

def isBare : Option Token → Bool
  | none => true
  | some .documentStart | some .documentEnd | some (.version ..) | some (.tagPrefix ..) => true
  | _ => false

/-- The first document of a text. It needs a start mark if it has directives. -/
def document (fuel : Nat) : Grammar Document := do
  match ← peek with
  | none => return ⟨none⟩
  | some .documentStart | some (.version ..) | some (.tagPrefix ..) =>
    directives false fuel
    expect .documentStart
    if isBare (← peek) then return ⟨some .empty⟩ else return ⟨some (← node true false fuel)⟩
  | _ => return ⟨some (← node true false fuel)⟩

def onlyEndMarks : Grammar Unit := do
  if (← get).tokens.all (· == .documentEnd) then return () else failure

end Grammar

def Document.parse? (t : Text) : Option Document := do
  let tokens ← Token.scan? t
  let read : Grammar Document := do
    let d ← Grammar.document (2 * tokens.length + 4)
    Grammar.onlyEndMarks
    return d
  read.run' { tokens }

/-- The node that an alias stands for is the last one with the number; any other node stands for
itself. -/
def Document.resolve (d : Document) : Node → Node
  | .alias n =>
    let named := (d.root.elim [] Node.anchored).filter fun e => e.1 == n
    (named.getLast?.map Prod.snd).getD .empty
  | v => v

/-- How often aliases may be followed, so that a short text does not stand for too much. -/
def Document.aliasLimit (d : Document) : Nat := 100 * d.root.elim 0 Node.events

end LedgerExport.Yaml
