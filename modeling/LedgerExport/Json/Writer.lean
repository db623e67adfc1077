import LedgerExport.Json.Basic

/-! # Writing JSON

The compact form has no space at all. The indented form puts every item and member on a line of its
own, two spaces deeper than what holds it, and writes empty arrays and objects without a line end.
-/
namespace LedgerExport.Json

def writeChar (c : Char) : Text :=
  match c with
  | '"' => "\\\"".toList
  | '\\' => "\\\\".toList
  | '\x08' => "\\b".toList
  | '\x0c' => "\\f".toList
  | '\n' => "\\n".toList
  | '\r' => "\\r".toList
  | '\t' => "\\t".toList
  | c =>
    if c.toNat < 0x20 then "\\u".toList ++ Text.padZero 4 (Text.hexadecimal c.toNat) else [c]

def writeString (t : Text) : Text := '"' :: t.flatMap writeChar ++ ['"']

def writeNumber : JsonNumber → Text
  | .natural n => Text.decimal n
  | .negative n => '-' :: Text.decimal n
  | .float s v => floatText s v

/-- The text of a key; a key without a value is written as an empty one. -/
def writeKey : Except JsonFault Text → Text
  | .ok t => writeString t
  | .error _ => writeString []

mutual

def compact : Json → Text
  | .null => "null".toList
  | .bool true => "true".toList
  | .bool false => "false".toList
  | .number n => writeNumber n
  | .string t => writeString t
  | .array items => '[' :: compactItems items ++ [']']
  | .object members => '{' :: compactMembers members ++ ['}']
  | .unreadable _ => "null".toList
  | .broken _ _ => "null".toList

def compactItems : List Json → Text
  | [] => []
  | [v] => compact v
  | v :: rest => compact v ++ ',' :: compactItems rest

def compactMembers : List (Except JsonFault Text × Json) → Text
  | [] => []
  | [(k, v)] => writeKey k ++ ':' :: compact v
  | (k, v) :: rest => writeKey k ++ ':' :: compact v ++ ',' :: compactMembers rest

end

def newLine (depth : Nat) : Text := '\n' :: List.replicate (2 * depth) ' '

mutual

def indentedAt (depth : Nat) : Json → Text
  | .array [] => "[]".toList
  | .array items =>
    '[' :: newLine (depth + 1) ++ indentedItems (depth + 1) items ++ newLine depth ++ [']']
  | .object [] => ['{', '}']
  | .object members =>
    '{' :: newLine (depth + 1) ++ indentedMembers (depth + 1) members ++ newLine depth ++
      ['}']
  | v => compact v

def indentedItems (depth : Nat) : List Json → Text
  | [] => []
  | [v] => indentedAt depth v
  | v :: rest => indentedAt depth v ++ ',' :: newLine depth ++ indentedItems depth rest

def indentedMembers (depth : Nat) : List (Except JsonFault Text × Json) → Text
  | [] => []
  | [(k, v)] => writeKey k ++ ": ".toList ++ indentedAt depth v
  | (k, v) :: rest =>
    writeKey k ++ ": ".toList ++ indentedAt depth v ++ ',' :: newLine depth ++
      indentedMembers depth rest

end

def indented (v : Json) : Text := indentedAt 0 v

end LedgerExport.Json
