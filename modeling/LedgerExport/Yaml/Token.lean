import LedgerExport.Text.Encoding
import LedgerExport.Yaml.Scalar

/-! # Tokens

The words of YAML: the marks of its structure, and names, tags, directives and scalars with their
contents. The readers of names, tags and directives take the characters after the opening mark.
-/
namespace LedgerExport.Yaml
open Glyph

inductive Token where
  | version (major minor : Nat)
  | tagPrefix (handle value : Text)
  | documentStart | documentEnd
  | blockSequenceStart | blockMappingStart | blockEnd
  | flowSequenceStart | flowSequenceEnd | flowMappingStart | flowMappingEnd
  | blockEntry | flowEntry | key | value
  | alias (name : Text)
  | anchor (name : Text)
  | tag (handle suffix : Text)
  | scalar (isPlain : Bool) (text : Text)
  deriving Repr, DecidableEq

/-! ## Names -/

def anchorName? (gs : List Glyph) : Option (Text × List Glyph) :=
  let name := gs.takeWhile isWordChar
  let rest := gs.drop name.length
  let isEnded := gapFollows rest ||
    rest.head?.any fun g => ('}' :: "?:,]%@`".toList).elem g.char
  if !name.isEmpty && isEnded then some (text name, rest) else none

/-! ## Tags -/

def isUriChar (inVerbatim : Bool) (g : Glyph) : Bool :=
  g.isWordChar || ";/?:@&=+$.!~*'()".toList.elem g.char ||
    (inVerbatim && ",[]".toList.elem g.char)

def sequenceLength? (byte : Nat) : Option Nat :=
  if byte < 0x80 then some 1
  else if 0xC0 ≤ byte && byte < 0xE0 then some 2
  else if 0xE0 ≤ byte && byte < 0xF0 then some 3
  else if 0xF0 ≤ byte && byte < 0xF8 then some 4
  else none

/-- The bytes of a URI, in which each byte may be written as a percent sign with two hexadecimal
digits. `wanted` more bytes belong to the sequence that has begun. -/
def uriFrom (inVerbatim : Bool) (wanted : Nat) : List Glyph → Option (List UInt8 × List Glyph)
  | [] => if wanted = 0 then some ([], []) else none
  | g :: rest =>
    if g.char == '%' then
      match rest with
      | a :: b :: rest => do
        let byte ← Text.numeral? 16 [a.char, b.char]
        let wanted ←
          if wanted = 0 then (sequenceLength? byte).map (· - 1)
          else if 0x80 ≤ byte && byte < 0xC0 then some (wanted - 1)
          else none
        let (bytes, rest) ← uriFrom inVerbatim wanted rest
        return (UInt8.ofNat byte :: bytes, rest)
      | _ => none
    else if wanted ≠ 0 then none
    else if isUriChar inVerbatim g then
      (uriFrom inVerbatim 0 rest).map fun p => (UInt8.ofNat g.char.toNat :: p.1, p.2)
    else some ([], g :: rest)

/-- The text of some bytes; a replacement character if they are no UTF-8. -/
def uriText (bytes : List UInt8) : Text := (Text.decodeUtf8? bytes).getD ['\ufffd']

def uri (inVerbatim : Bool) (gs : List Glyph) : Option (Text × List Glyph) :=
  (uriFrom inVerbatim 0 gs).map fun p => (uriText p.1, p.2)

def nonEmptyUri (inVerbatim : Bool) (gs : List Glyph) : Option (Text × List Glyph) := do
  let (t, rest) ← uri inVerbatim gs
  if t.isEmpty then none else some (t, rest)

def handleName (gs : List Glyph) : Text × Bool × List Glyph :=
  let name := gs.takeWhile isWordChar
  match gs.drop name.length with
  | g :: rest => if g.char == '!' then (text name, true, rest) else (text name, false, g :: rest)
  | [] => (text name, false, [])

/-- The handle and the suffix of a tag; a tag in full has no handle, and neither has the mark
alone. -/
def tagParts (gs : List Glyph) : Option (Text × Text × List Glyph) :=
  match gs with
  | g :: rest =>
    if g.char == '<' then do
      let (t, rest) ← nonEmptyUri true rest
      match rest with
      | g :: rest => if g.char == '>' then some ([], t, rest) else none
      | [] => none
    else
      match handleName (g :: rest) with
      | (name, true, rest) => do
        let (suffix, rest) ← nonEmptyUri false rest
        return ('!' :: name ++ ['!'], suffix, rest)
      | (name, false, rest) => do
        let (suffix, rest) ← uri false rest
        if (name ++ suffix).isEmpty then return ([], ['!'], rest)
        else return (['!'], name ++ suffix, rest)
  | [] => some ([], ['!'], [])

/-- A tag after its mark. A gap follows it, or a comma in a flow collection. -/
def tagToken (inFlow : Bool) (gs : List Glyph) : Option (Token × List Glyph) := do
  let (handle, suffix, rest) ← tagParts gs
  if gapFollows rest || (inFlow && rest.head?.any (·.char == ',')) then
    some (.tag handle suffix, rest)
  else none

/-! ## Directives -/

def versionNumber? (gs : List Glyph) : Option (Nat × List Glyph) := do
  let digits := gs.takeWhile fun g => g.char.isDigit
  guard (digits.length ≤ 9)
  return (← Text.numeral? 10 (text digits), gs.drop digits.length)

def versionValue? (gs : List Glyph) : Option (Token × List Glyph) := do
  let (major, rest) ← versionNumber? (gs.dropWhile isBlank)
  guard (rest.head?.any (·.char == '.'))
  let (minor, rest) ← versionNumber? (rest.drop 1)
  return (.version major minor, rest)

def directiveHandle? (gs : List Glyph) : Option (Text × List Glyph) :=
  match gs with
  | g :: rest =>
    if g.char == '!' then
      match handleName rest with
      | (name, true, rest) => some ('!' :: name ++ ['!'], rest)
      | ([], false, rest) => some (['!'], rest)
      | _ => none
    else none
  | [] => none

def prefixValue? (gs : List Glyph) : Option (Token × List Glyph) := do
  let (handle, rest) ← directiveHandle? (gs.dropWhile isBlank)
  guard (rest.head?.any isBlank)
  let (value, rest) ← nonEmptyUri true (rest.dropWhile isBlank)
  if gapFollows rest then some (.tagPrefix handle value, rest) else none

def directive? (gs : List Glyph) : Option (Token × List Glyph) := do
  let name := gs.takeWhile isWordChar
  let rest := gs.drop name.length
  guard (gapFollows rest)
  let (token, rest) ←
    if text name = "YAML".toList then versionValue? rest
    else if text name = "TAG".toList then prefixValue? rest
    else none
  return (token, ← skipLine? rest)

end LedgerExport.Yaml
