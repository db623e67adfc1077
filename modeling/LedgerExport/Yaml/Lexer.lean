import LedgerExport.Yaml.Token

/-! # From characters to tokens

Indentation becomes tokens that open and close blocks. A key without a mark of its own is known only
at the colon behind it, so the lexer keeps one candidate for each open collection and puts the
tokens of the key in front of it when the colon comes.
-/
namespace LedgerExport.Yaml
open Glyph

/-- Something that is a key if a colon follows it on the same line. -/
structure Candidate where
  /-- The number of tokens before it. -/
  place : Nat
  /-- Nothing but a key can stand here. -/
  isRequired : Bool
  start : Glyph

def keyLimit : Nat := 1024

def Candidate.isStale (k : Candidate) (g : Glyph) : Bool :=
  k.start.line < g.line || k.start.index + keyLimit < g.index

structure Lexer where
  rest : List Glyph
  /-- Latest first. -/
  tokens : List Token := []
  /-- The number of tokens. -/
  count : Nat := 0
  /-- The columns of the open blocks, innermost first. -/
  indents : List Nat := []
  candidate : Option Candidate := none
  /-- The candidates around the open flow collections, innermost first. -/
  outer : List (Option Candidate) := []
  keyAllowed : Bool := true

namespace Lexer

def inFlow (s : Lexer) : Bool := !s.outer.isEmpty

/-- The column that text inside the innermost block reaches at least. -/
def floor (s : Lexer) : Nat := s.indents.head?.elim 0 (· + 1)

def emit (s : Lexer) (t : Token) : Lexer :=
  { s with tokens := t :: s.tokens, count := s.count + 1 }

def insert (s : Lexer) (place : Nat) (t : Token) : Lexer :=
  let later := s.count - place
  { s with
    tokens := s.tokens.take later ++ t :: s.tokens.drop later
    count := s.count + 1 }

/-- Gives up a candidate, which fails if a key is required there. -/
def giveUp : Option Candidate → Option (Option Candidate)
  | some k => if k.isRequired then none else some none
  | none => some none

def dropCandidate (s : Lexer) : Option Lexer :=
  (giveUp s.candidate).map fun k => { s with candidate := k }

def dropStale (s : Lexer) (g : Glyph) : Option Lexer := do
  let check : Option Candidate → Option (Option Candidate) := fun k =>
    if k.any (·.isStale g) then giveUp k else some k
  return { s with candidate := ← check s.candidate, outer := ← s.outer.mapM check }

def saveCandidate (s : Lexer) (g : Glyph) : Option Lexer :=
  if s.keyAllowed then do
    let s ← s.dropCandidate
    let isRequired := !s.inFlow && s.indents.head? == some g.column
    return { s with candidate := some ⟨s.count, isRequired, g⟩ }
  else some s

/-- Opens a block at a column behind the first `place` tokens, unless the innermost one is there. -/
def openBlock (s : Lexer) (column place : Nat) (t : Token) : Lexer :=
  if s.inFlow || column < s.floor then s
  else { s.insert place t with indents := column :: s.indents }

def closeBlocks (s : Lexer) (isClosed : Nat → Bool) : Lexer :=
  if s.inFlow then s
  else
    let n := (s.indents.takeWhile isClosed).length
    { s with
      tokens := List.replicate n .blockEnd ++ s.tokens
      count := s.count + n
      indents := s.indents.drop n }

/-- Skips to the next token. A line end allows keys, and tabs may stand where no key can start. -/
def skipFrom (inFlow keyAllowed inComment : Bool) : List Glyph → Bool × List Glyph
  | [] => (keyAllowed, [])
  | g :: rest =>
    if g.isBreak then skipFrom inFlow (keyAllowed || !inFlow) false rest
    else if inComment then skipFrom inFlow keyAllowed true rest
    else if g.isByteOrderMark || g.char == ' ' || (g.char == '\t' && (inFlow || !keyAllowed)) then
      skipFrom inFlow keyAllowed false rest
    else if g.char == '#' then skipFrom inFlow keyAllowed true rest
    else (keyAllowed, g :: rest)

def skip (s : Lexer) : Lexer :=
  let (keyAllowed, rest) := skipFrom s.inFlow s.keyAllowed false s.rest
  { s with keyAllowed, rest }

/-! ## Tokens -/

def leaveDocument (s : Lexer) : Option Lexer := do
  return { ← (s.closeBlocks fun _ => true).dropCandidate with keyAllowed := false }

def openFlow (s : Lexer) (g : Glyph) (rest : List Glyph) (t : Token) : Option Lexer := do
  let s ← s.saveCandidate g
  return { s.emit t with
    rest
    outer := s.candidate :: s.outer
    candidate := none
    keyAllowed := true }

def closeFlow (s : Lexer) (rest : List Glyph) (t : Token) : Option Lexer := do
  let s ← s.dropCandidate
  return { s.emit t with
    rest
    candidate := s.outer.head?.getD none
    outer := s.outer.tail
    keyAllowed := false }

def flowEntry (s : Lexer) (rest : List Glyph) : Option Lexer := do
  return { (← s.dropCandidate).emit .flowEntry with rest, keyAllowed := true }

/-- Before a mark that stands for itself in a block: keys must be allowed there. -/
def openMarked (s : Lexer) (g : Glyph) (t : Token) : Option Lexer :=
  if s.inFlow then some s
  else if s.keyAllowed then some (s.openBlock g.column s.count t)
  else none

def blockEntry (s : Lexer) (g : Glyph) (rest : List Glyph) : Option Lexer := do
  let s ← (← s.openMarked g .blockSequenceStart).dropCandidate
  return { s.emit .blockEntry with rest, keyAllowed := true }

def keyMark (s : Lexer) (g : Glyph) (rest : List Glyph) : Option Lexer := do
  let s ← (← s.openMarked g .blockMappingStart).dropCandidate
  return { s.emit .key with rest, keyAllowed := !s.inFlow }

/-- A colon makes the candidate a key. -/
def valueMark (s : Lexer) (g : Glyph) (rest : List Glyph) : Option Lexer :=
  match s.candidate with
  | some k =>
    let s := (s.insert k.place .key).openBlock k.start.column k.place .blockMappingStart
    some { s.emit .value with rest, candidate := none, keyAllowed := false }
  | none => do
    let s ← s.openMarked g .blockMappingStart
    return { s.emit .value with rest, keyAllowed := !s.inFlow }

def keyLike (s : Lexer) (g : Glyph) (read : Option (Token × List Glyph)) : Option Lexer := do
  let s ← s.saveCandidate g
  let (t, rest) ← read
  return { s.emit t with rest, keyAllowed := false }

def plainScalar (s : Lexer) (g : Glyph) : Option Lexer := do
  let s ← s.saveCandidate g
  let (t, endsLine, rest) ← plain s.inFlow s.floor s.rest
  return { s.emit (.scalar true t) with rest, keyAllowed := endsLine }

def blockText (s : Lexer) (isLiteral : Bool) (rest : List Glyph) : Option Lexer := do
  let s ← s.dropCandidate
  let (t, rest) ← blockScalar isLiteral s.floor rest
  return { s.emit (.scalar false t) with rest, keyAllowed := true }

/-- The characters with a meaning of their own at the start of a token. -/
def indicators : Text := "-?:,[]#&*!|>'\"%@`".toList ++ ['{', '}']

def startsPlain (inFlow : Bool) (g : Glyph) (rest : List Glyph) : Bool :=
  !(g.isGap || indicators.elem g.char) || (g.char == '-' && !rest.head?.any isBlank) ||
    (!inFlow && (g.char == '?' || g.char == ':') && !gapFollows rest)

def next (s : Lexer) (g : Glyph) (rest : List Glyph) : Option Lexer :=
  if g.column == 0 && g.char == '%' then do
    let s ← s.leaveDocument
    let (t, rest) ← directive? rest
    return { s.emit t with rest }
  else if startsDocumentMark (g :: rest) then do
    let s ← s.leaveDocument
    return { s.emit (if g.char == '-' then .documentStart else .documentEnd) with
      rest := rest.drop 2 }
  else
    let isMark := gapFollows rest
    match g.char with
    | '[' => s.openFlow g rest .flowSequenceStart
    | '{' => s.openFlow g rest .flowMappingStart
    | ']' => s.closeFlow rest .flowSequenceEnd
    | '}' => s.closeFlow rest .flowMappingEnd
    | ',' => s.flowEntry rest
    | '*' => s.keyLike g ((anchorName? rest).map fun p => (.alias p.1, p.2))
    | '&' => s.keyLike g ((anchorName? rest).map fun p => (.anchor p.1, p.2))
    | '!' => s.keyLike g (tagToken s.inFlow rest)
    | '\'' | '"' => s.keyLike g ((quotedScalar g.char rest).map fun p => (.scalar false p.1, p.2))
    | c =>
      if c == '-' && isMark then s.blockEntry g rest
      else if c == '?' && (s.inFlow || isMark) then s.keyMark g rest
      else if c == ':' && (s.inFlow || isMark) then s.valueMark g rest
      else if (c == '|' || c == '>') && !s.inFlow then s.blockText (c == '|') rest
      else if startsPlain s.inFlow g rest then s.plainScalar g
      else none

/-- Every token takes at least one character, so `fuel` greater than their number is enough. -/
def run : Nat → Lexer → Option Lexer
  | 0, _ => none
  | fuel + 1, s =>
    let s := s.skip
    match s.rest with
    | [] => s.leaveDocument
    | g :: rest => do
      let s ← s.dropStale g
      run fuel (← (s.closeBlocks (g.column < ·)).next g rest)

end Lexer

def Token.scan? (t : Text) : Option (List Token) := do
  let glyphs ← Glyph.ofText? t
  let s ← Lexer.run (glyphs.length + 1) { rest := glyphs }
  return s.tokens.reverse

end LedgerExport.Yaml
