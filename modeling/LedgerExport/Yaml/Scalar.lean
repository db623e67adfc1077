import LedgerExport.Text.Numeral
import LedgerExport.Yaml.Glyph

/-! # Scalars

The four ways to write a text in YAML: plain, between single or double quotes, and as a block of
lines, literal or folded. Each reader takes the characters after the opening mark and gives the text
and what follows it.
-/
namespace LedgerExport.Yaml
open Glyph

/-! ## Folding -/

def breaksOf (gap : List Glyph) : Text := text (gap.filter isBreak)

/-- The text that a gap inside a scalar stands for: blanks as they are, one line end as a space, and
of more line ends all but the first. -/
def foldGap (gap : List Glyph) : Text :=
  match breaksOf gap with
  | [] => text gap
  | ['\n'] => [' ']
  | '\n' :: more => more
  | kept => kept

/-! ## Plain scalars -/

def hasTabIndent (floor : Nat) (gap : List Glyph) : Bool :=
  (gap.dropWhile fun g => !g.isBreak).any fun g => g.char == '\t' && g.column < floor

def isFlowMark (c : Char) : Bool := [',', '[', ']', '{', '}'].elem c

/-- A colon ends a plain scalar if a gap follows, a flow mark ends it in a flow collection. -/
def endsPlain (inFlow : Bool) (g : Glyph) (rest : List Glyph) : Bool :=
  (g.char == ':' && gapFollows rest) || (inFlow && isFlowMark g.char)

/-- A colon right before a flow mark is neither text nor the end of a key. -/
def isStrayColon (inFlow : Bool) (g : Glyph) : List Glyph → Bool
  | [] => false
  | next :: _ => inFlow && g.char == ':' && (isFlowMark next.char || next.char == '?')

/-- A plain scalar from inside, with the gap that has been read since its last word, latest
character first. A line must reach the column `floor`. The flag tells whether the scalar ended after
a line end. -/
def plainFrom (inFlow : Bool) (floor : Nat) (gap : List Glyph) :
    List Glyph → Option (Text × Bool × List Glyph)
  | [] => if hasTabIndent floor gap.reverse then none else some ([], gap.any isBreak, [])
  | g :: rest =>
    if g.isGap then plainFrom inFlow floor (g :: gap) rest
    else if hasTabIndent floor gap.reverse then none
    else if (!gap.isEmpty && ((!inFlow && g.column < floor) || g.char == '#')) ||
        startsDocumentMark (g :: rest) || endsPlain inFlow g rest then
      some ([], gap.any isBreak, g :: rest)
    else if isStrayColon inFlow g rest then none
    else
      (plainFrom inFlow floor [] rest).map fun p => (foldGap gap.reverse ++ g.char :: p.1, p.2)

def plain (inFlow : Bool) (floor : Nat) : List Glyph → Option (Text × Bool × List Glyph) :=
  plainFrom inFlow floor []

/-! ## Quoted scalars -/

def simpleEscapes : List (Char × Char) :=
  [('0', '\x00'), ('a', '\x07'), ('b', '\x08'), ('t', '\t'), ('\t', '\t'), ('n', '\n'),
    ('v', '\x0b'), ('f', '\x0c'), ('r', '\r'), ('e', '\x1b'), (' ', ' '), ('"', '"'), ('/', '/'),
    ('\\', '\\'), ('N', '\u0085'), ('_', '\u00a0'), ('L', '\u2028'), ('P', '\u2029')]

def escapeDigits? : Char → Option Nat
  | 'x' => some 2
  | 'u' => some 4
  | 'U' => some 8
  | _ => none

def scalarValue? (n : Nat) : Option Char :=
  if n.isValidChar then some (Char.ofNat n) else none

def escape? : List Glyph → Option (Char × Nat)
  | [] => none
  | g :: rest =>
    match escapeDigits? g.char with
    | some n => do
      guard (n ≤ rest.length)
      let c ← scalarValue? (← Text.numeral? 16 (text (rest.take n)))
      return (c, n + 1)
    | none => (simpleEscapes.lookup g.char).map fun c => (c, 1)

/-- A quoted scalar from inside: the next `n` characters belong to an escape, and `gap` has been
read since the last word, latest character first. Blanks after an escaped line end are dropped. -/
def quotedFrom (quote : Char) (isEscaped : Bool) (gap : List Glyph) :
    Nat → List Glyph → Option (Text × List Glyph)
  | _, [] => none
  | n + 1, _ :: rest => quotedFrom quote isEscaped gap n rest
  | 0, g :: rest =>
    let before := if isEscaped then breaksOf gap.reverse else foldGap gap.reverse
    if g.isGap then quotedFrom quote isEscaped (g :: gap) 0 rest
    else if startsDocumentMark (g :: rest) then none
    else if g.char == quote then
      match rest with
      | next :: _ =>
        if quote == '\'' && next.char == '\'' then
          (quotedFrom quote false [] 1 rest).map fun p => (before ++ '\'' :: p.1, p.2)
        else some (before, rest)
      | [] => some (before, [])
    else if quote == '"' && g.char == '\\' then
      if rest.head?.any isBreak then
        (quotedFrom quote true [] 1 rest).map fun p => (before ++ p.1, p.2)
      else
        match escape? rest with
        | some (c, n) => (quotedFrom quote false [] n rest).map fun p => (before ++ c :: p.1, p.2)
        | none => none
    else (quotedFrom quote false [] 0 rest).map fun p => (before ++ g.char :: p.1, p.2)

def quotedScalar (quote : Char) : List Glyph → Option (Text × List Glyph) :=
  quotedFrom quote false [] 0

/-! ## Block scalars -/

inductive Chomp where
  | strip | clip | keep
  deriving Repr, DecidableEq

def Chomp.ofMark? : Char → Option Chomp
  | '+' => some .keep
  | '-' => some .strip
  | _ => none

/-- The indentation that a header gives, from one to nine; zero if it gives none. -/
def indentMark : List Glyph → Option (Nat × List Glyph)
  | [] => some (0, [])
  | g :: rest =>
    if g.char == '0' then none
    else if g.char.isDigit then some (g.char.toNat - 48, rest)
    else some (0, g :: rest)

def chompMark : List Glyph → Chomp × List Glyph
  | [] => (.clip, [])
  | g :: rest =>
    match Chomp.ofMark? g.char with
    | some chomp => (chomp, rest)
    | none => (.clip, g :: rest)

def blockHeader (gs : List Glyph) : Option (Chomp × Nat × List Glyph) := do
  let (chomp, afterChomp) := chompMark gs
  let (indent, rest) ← indentMark afterChomp
  if chomp = .clip then
    let (chomp, rest) := if indent = 0 then (.clip, rest) else chompMark rest
    return (chomp, indent, ← skipLine? rest)
  else return (chomp, indent, ← skipLine? rest)

/-- The line ends of the empty lines from here on, the greatest column that their spaces reach, and
what follows. Spaces are taken up to the column `indent`, if it is known. -/
def emptyLines (indent : Option Nat) : List Glyph → Option (Text × Nat × List Glyph)
  | [] => some ([], 0, [])
  | g :: rest =>
    let isInside := indent.all (g.column < ·)
    if isInside && g.char == ' ' then emptyLines indent rest
    else if isInside && g.char == '\t' then none
    else if g.isBreak then
      (emptyLines indent rest).map fun p => (g.char :: p.1, max g.column p.2.1, p.2.2)
    else some ([], g.column, g :: rest)

structure Block where
  text : Text := []
  /-- The end of the last line. -/
  lineEnd : Text := []
  /-- The ends of the empty lines after it. -/
  empty : Text := []
  /-- Whether the last line starts with a blank. -/
  isBlank : Bool := false

/-- What stands between the last line and the next one. In a folded block one line end between two
lines that start with no blank is a space. -/
def Block.between (b : Block) (isLiteral isBlank : Bool) : Text :=
  if !isLiteral && b.lineEnd == ['\n'] && !b.isBlank && !isBlank then
    if b.empty.isEmpty then [' '] else b.empty
  else b.lineEnd ++ b.empty

def blockLines (isLiteral : Bool) (indent : Nat) :
    Nat → Block → List Glyph → Option (Block × List Glyph)
  | 0, b, gs => some (b, gs)
  | _ + 1, b, [] => some (b, [])
  | fuel + 1, b, g :: rest =>
    if g.column == indent then do
      let line := (g :: rest).takeWhile fun g => !g.isBreak
      let after := (g :: rest).dropWhile fun g => !g.isBreak
      let (empty, _, next) ← emptyLines (some indent) (after.drop 1)
      blockLines isLiteral indent fuel
        ⟨b.text ++ b.between isLiteral g.isBlank ++ Glyph.text line, Glyph.text (after.take 1),
          empty, g.isBlank⟩ next
    else some (b, g :: rest)

def Block.chomped (b : Block) : Chomp → Text
  | .strip => b.text
  | .clip => b.text ++ b.lineEnd
  | .keep => b.text ++ b.lineEnd ++ b.empty

/-- A block scalar after its opening mark. Its lines are indented to the column `floor` at least. -/
def blockScalar (isLiteral : Bool) (floor : Nat) (gs : List Glyph) :
    Option (Text × List Glyph) := do
  let (chomp, given, lines) ← blockHeader gs
  let known := if given = 0 then none else some (floor - 1 + given)
  let (empty, column, rest) ← emptyLines known lines
  let indent := known.getD (max column (max floor 1))
  let (b, rest) ← blockLines isLiteral indent rest.length { empty } rest
  return (b.chomped chomp, rest)

end LedgerExport.Yaml
