import LedgerExport.Text.Basic

/-! # Placed characters

Indentation decides the structure of a YAML text, so the text is first turned into characters that
know their place. A line end is one character however it is written.
-/
namespace LedgerExport.Yaml

/-- A character with the number of characters before it, its line and its column. -/
structure Glyph where
  char : Char
  isBreak : Bool
  index : Nat
  line : Nat
  column : Nat
  deriving Repr, DecidableEq

def isAllowed (c : Char) : Bool :=
  let n := c.toNat
  n == 0x09 || n == 0x0A || n == 0x0D || (0x20 ≤ n && n ≤ 0x7E) || n == 0x85 ||
    (0xA0 ≤ n && n ≤ 0xD7FF) || (0xE000 ≤ n && n ≤ 0xFFFD) || 0x10000 ≤ n

def isLineEnd (c : Char) : Bool :=
  c == '\n' || c == '\r' || c == '\u0085' || c == '\u2028' || c == '\u2029'

/-- The separators of lines and paragraphs stay as they are; all other line ends are alike. -/
def lineEnd (c : Char) : Char := if c == '\u2028' || c == '\u2029' then c else '\n'

namespace Glyph

def placeFrom (index line column : Nat) : Text → List Glyph
  | [] => []
  | '\r' :: '\n' :: cs => ⟨'\n', true, index, line, column⟩ :: placeFrom (index + 2) (line + 1) 0 cs
  | c :: cs =>
    if isLineEnd c then
      ⟨lineEnd c, true, index, line, column⟩ :: placeFrom (index + 1) (line + 1) 0 cs
    else ⟨c, false, index, line, column⟩ :: placeFrom (index + 1) line (column + 1) cs

/-- The characters of a text at their places; `none` if one of them may not stand in YAML. -/
def ofText? (t : Text) : Option (List Glyph) :=
  if t.all isAllowed then some (placeFrom 0 0 0 t) else none

/-- A mark that may stand in front of any line. It takes up a column of its own. -/
def isByteOrderMark (g : Glyph) : Bool := g.column == 0 && g.char == '\ufeff'

def isBlank (g : Glyph) : Bool := g.char == ' ' || g.char == '\t'

def isGap (g : Glyph) : Bool := g.isBlank || g.isBreak

def isWordChar (g : Glyph) : Bool := g.char.isAlphanum || g.char == '-' || g.char == '_'

def text (gs : List Glyph) : Text := gs.map char

def gapFollows : List Glyph → Bool
  | [] => true
  | g :: _ => g.isGap

def startsDocumentMark : List Glyph → Bool
  | a :: b :: c :: rest =>
    a.column == 0 && (a.char == '-' || a.char == '.') && b.char == a.char && c.char == a.char &&
      gapFollows rest
  | _ => false

/-- The text after the end of this line, on which only blanks and a comment may be left. -/
def skipLine? (gs : List Glyph) : Option (List Glyph) :=
  match gs.dropWhile isBlank with
  | [] => some []
  | g :: rest =>
    if g.isBreak then some rest
    else if g.char == '#' then some ((rest.dropWhile fun g => !g.isBreak).drop 1)
    else none

end Glyph

end LedgerExport.Yaml
