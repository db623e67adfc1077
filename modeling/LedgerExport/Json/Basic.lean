import LedgerExport.Misfit
import LedgerExport.Number.Binary64

/-! # JSON values

Objects keep the order of their members. A text that stops being JSON part-way reads as the tree up
to that place with a `broken` leaf there, so that what stands before the fault can still be looked
at in order. The leaf knows two faults, since a value that is skipped is held to a looser grammar
than one that is looked at.
-/
namespace LedgerExport

inductive JsonFault where
  | endInValue | endInObject | endInList | endInString
  | expectedColon | expectedListEnd | expectedObjectEnd | expectedWord | expectedValue
  | invalidEscape | invalidNumber | numberOutOfRange | controlCharacter | keyNotString
  | loneSurrogate | halfPair | trailingComma | trailingCharacters
  deriving Repr, DecidableEq

namespace JsonFault

/-- Whether the text is at fault only by ending too early. -/
def isEnd : JsonFault → Bool
  | .endInValue | .endInObject | .endInList | .endInString => true
  | _ => false

def message : JsonFault → Text
  | .endInValue => "EOF while parsing a value".toList
  | .endInObject => "EOF while parsing an object".toList
  | .endInList => "EOF while parsing a list".toList
  | .endInString => "EOF while parsing a string".toList
  | .expectedColon => "expected `:`".toList
  | .expectedListEnd => "expected `,` or `]`".toList
  | .expectedObjectEnd => "expected `,` or `".toList ++ ['}', '`']
  | .expectedWord => "expected ident".toList
  | .expectedValue => "expected value".toList
  | .invalidEscape => "invalid escape".toList
  | .invalidNumber => "invalid number".toList
  | .numberOutOfRange => "number out of range".toList
  | .controlCharacter =>
    "control character (\\u0000-\\u001F) found while parsing a string".toList
  | .keyNotString => "key must be a string".toList
  | .loneSurrogate => "lone leading surrogate in hex escape".toList
  | .halfPair => "unexpected end of hex escape".toList
  | .trailingComma => "trailing comma".toList
  | .trailingCharacters => "trailing characters".toList

end JsonFault

/-- Whole numbers of 64 bits, and floating-point values for all others. -/
inductive JsonNumber where
  | natural (n : Nat)
  | negative (n : Nat)
  | float (isNegative : Bool) (v : Binary64)
  deriving Repr, DecidableEq

inductive Json where
  | null
  | bool (b : Bool)
  | number (n : JsonNumber)
  | string (t : Text)
  | array (items : List Json)
  | object (members : List (Except JsonFault Text × Json))
  /-- A string or number that can be skipped but has no value. -/
  | unreadable (fault : JsonFault)
  /-- Where the text stops being JSON, when it is looked at and when it is skipped. -/
  | broken (fault skipped : JsonFault)

namespace Json

def ofMembers (members : List (Text × Json)) : Json :=
  .object (members.map fun m => (.ok m.1, m.2))

/-- Positional from five places after the point to sixteen before it. -/
def isPositional (e : Int) : Bool := -5 ≤ e && e ≤ 15

def floatText (isNegative : Bool) (v : Binary64) : Text :=
  (if isNegative then ['-'] else []) ++ v.text isPositional

def describe : Json → Text
  | .null => "null".toList
  | .bool true => "boolean `true`".toList
  | .bool false => "boolean `false`".toList
  | .number (.natural n) => "integer `".toList ++ Text.decimal n ++ "`".toList
  | .number (.negative n) => "integer `-".toList ++ Text.decimal n ++ "`".toList
  | .number (.float s v) => "floating point `".toList ++ floatText s v ++ "`".toList
  | .string t => "string ".toList ++ Text.quoted t
  | .array _ => "sequence".toList
  | .object _ => "map".toList
  | .unreadable f => f.message
  | .broken f _ => f.message

end Json

end LedgerExport
