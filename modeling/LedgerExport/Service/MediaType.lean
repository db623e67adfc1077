import LedgerExport.Text.Basic

/-! # Media types

A media type is a type and a subtype, with parameters behind semicolons. The values of parameters
may be quoted.
-/
namespace LedgerExport.Service

def isTokenChar (c : Char) : Bool := c.isAlphanum || "!#$%&'*+-.^_`|~".toList.elem c

def isQuotedChar (c : Char) : Bool := 0x20 ≤ c.toNat && c.toNat < 0x7F

inductive ParameterState where
  | nameStart | name | valueStart | value | quotedStart | quoted | afterQuoted
  deriving Repr, DecidableEq

namespace ParameterState

/-- The first character of a quoted value belongs to it even if it is a quote. -/
def next (s : ParameterState) (c : Char) : Option ParameterState :=
  match s with
  | .nameStart => if c = ' ' then some .nameStart else if isTokenChar c then some .name else none
  | .name => if c = '=' then some .valueStart else if isTokenChar c then some .name else none
  | .valueStart =>
    if c = '"' then some .quotedStart else if isTokenChar c then some .value else none
  | .value => if c = ';' then some .nameStart else if isTokenChar c then some .value else none
  | .quotedStart => if isQuotedChar c then some .quoted else none
  | .quoted => if c = '"' then some .afterQuoted else if isQuotedChar c then some .quoted else none
  | .afterQuoted =>
    if c = ';' then some .nameStart else if c = ' ' then some .afterQuoted else none

def isFinal : ParameterState → Bool
  | .nameStart | .valueStart | .value | .afterQuoted => true
  | _ => false

end ParameterState

def areParameters (t : Text) : Bool :=
  (t.foldlM ParameterState.next .nameStart).any ParameterState.isFinal

/-- A type and a subtype, and the suffix behind the last plus sign of the subtype. -/
structure MediaType where
  type : Text
  subtype : Text
  suffix : Option Text
  deriving Repr, DecidableEq

namespace MediaType

/-- Splits a subtype at its last plus sign, which must have something before it. -/
def splitSuffix (t : Text) : Text × Option Text :=
  let suffix := (t.reverse.takeWhile (· != '+')).reverse
  let front := t.take (t.length - suffix.length - 1)
  if suffix.length < t.length && !front.isEmpty then (front, some suffix) else (t, none)

def parse? (t : Text) : Option MediaType :=
  let type := t.takeWhile isTokenChar
  match type, t.drop type.length with
  | _ :: _, '/' :: rest =>
    let word := rest.takeWhile isTokenChar
    let (subtype, suffix) := splitSuffix word
    match rest.drop word.length with
    | [] => some ⟨type, subtype, suffix⟩
    | ';' :: parameters =>
      if !word.isEmpty && areParameters parameters then some ⟨type, subtype, suffix⟩ else none
    | _ => none
  | _, _ => none

/-- JSON, whatever its parameters and its suffix; the case of letters does not count. -/
def isJson (m : MediaType) : Bool :=
  m.type.map Char.toLower == "application".toList && m.subtype.map Char.toLower == "json".toList

end MediaType

end LedgerExport.Service
