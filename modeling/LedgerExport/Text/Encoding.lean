import LedgerExport.Text.Basic

/-! # Encodings of texts

In UTF-8 not every list of bytes is a text. In UTF-16, little-endian, a character outside the basic
plane takes two units, a high and a low surrogate, and reading never fails: a unit that belongs to
no pair reads as the replacement character, a last odd byte is dropped, and so is one byte-order
mark in front. Inside markup five characters are written as entities.
-/
namespace LedgerExport.Text

/-! ## UTF-8 -/

def encodeUtf8 (t : Text) : List UInt8 := (String.ofList t).toUTF8.data.toList

def decodeUtf8? (bytes : List UInt8) : Option Text :=
  (String.fromUTF8? ⟨bytes.toArray⟩).map String.toList

/-! ## UTF-16 -/

def charUnits (c : Char) : List UInt16 :=
  let n := c.toNat
  if n < 0x10000 then [UInt16.ofNat n]
  else
    [UInt16.ofNat (0xD800 + (n - 0x10000) / 0x400), UInt16.ofNat (0xDC00 + (n - 0x10000) % 0x400)]

def units (t : Text) : List UInt16 := t.flatMap charUnits

/-- The two bytes of a unit, the low one first. -/
def unitBytes (u : UInt16) : List UInt8 :=
  [UInt8.ofNat (u.toNat % 256), UInt8.ofNat (u.toNat / 256)]

def encodeUtf16 (t : Text) : List UInt8 := (units t).flatMap unitBytes

def unitsOfBytes : List UInt8 → List UInt16
  | lo :: hi :: rest => UInt16.ofNat (lo.toNat + 256 * hi.toNat) :: unitsOfBytes rest
  | _ => []

def isHighSurrogate (u : UInt16) : Bool := 0xD800 ≤ u.toNat && u.toNat ≤ 0xDBFF
def isLowSurrogate (u : UInt16) : Bool := 0xDC00 ≤ u.toNat && u.toNat ≤ 0xDFFF

def replacement : Char := '\uFFFD'
def byteOrderMark : Char := '\uFEFF'

def pairChar (hi lo : UInt16) : Char :=
  Char.ofNat (0x10000 + (hi.toNat - 0xD800) * 0x400 + (lo.toNat - 0xDC00))

def unitChar (u : UInt16) : Char :=
  if isHighSurrogate u || isLowSurrogate u then replacement else Char.ofNat u.toNat

/-- The text of the units; each unpaired surrogate becomes one replacement character. -/
def ofUnits : List UInt16 → Text
  | [] => []
  | [u] => [unitChar u]
  | u :: v :: rest =>
    if isHighSurrogate u && isLowSurrogate v then pairChar u v :: ofUnits rest
    else unitChar u :: ofUnits (v :: rest)

def dropMark : Text → Text
  | c :: cs => if c = byteOrderMark then cs else c :: cs
  | [] => []

def decodeUtf16 (bytes : List UInt8) : Text := dropMark (ofUnits (unitsOfBytes bytes))

/-! ## Entities -/

def escapeChar : Char → Text
  | '&' => "&amp;".toList
  | '<' => "&lt;".toList
  | '>' => "&gt;".toList
  | '"' => "&quot;".toList
  | '\'' => "&apos;".toList
  | c => [c]

def escape (t : Text) : Text := t.flatMap escapeChar

def entities : List (Text × Char) :=
  [("&amp;".toList, '&'), ("&lt;".toList, '<'), ("&gt;".toList, '>'), ("&quot;".toList, '"'),
    ("&apos;".toList, '\'')]

def entityRule : Rule := fun t =>
  (entities.find? fun e => startsWith e.1 t).map fun e => (e.1.length - 1, [e.2])

/-- One pass from left to right: what an entity stands for is never read again. -/
def unescape : Text → Text := replaceBy entityRule

end LedgerExport.Text
