import LedgerExport.OrderedMap
import LedgerExport.Text.Characters
import LedgerExport.Text.Encoding
import LedgerExport.Text.Numeral

/-! # The rows of a reply

A reply holds nothing but the tags that the request asked for: a first tag begins a record and every
other numbered tag begins a cell. Replacing takes the envelope, the padding and the layout away and
leaves a line break before each record and a tab before each further cell.
-/
namespace LedgerExport.Reply
open Text

def lineBreak : Text := ['\r', '\n']
def tab : Text := ['\t']

def blankPair : Text := "<FLDBLANK></FLDBLANK>".toList
def recordTag : Text := "<F01>".toList

def beforeLastBreak : Text → Option Nat
  | [] => none
  | c :: cs =>
    match beforeLastBreak cs with
    | some k => some (k + 1)
    | none => if startsWith lineBreak (c :: cs) then some 0 else none

/-- White space up to the last line break of its run, with at least one character before it. -/
def blankBeforeBreak : Rule
  | [] => none
  | c :: cs =>
    if isBlank c then (beforeLastBreak (cs.takeWhile isBlank)).map fun k => (k + 2, []) else none

/-- White space before a numbered tag, with the head of the tag. -/
def blankBeforeTag : Rule
  | [] => none
  | c :: cs =>
    if isBlank c && startsWith ['<', 'F'] (cs.dropWhile isBlank) then
      some ((cs.takeWhile isBlank).length + 2, ['<', 'F'])
    else none

def numberedTag (head out : Text) : Rule := fun t =>
  match after? head t with
  | none => none
  | some rest =>
    let digits := rest.takeWhile isDecimalDigit
    match digits, rest.drop digits.length with
    | _ :: _, '>' :: _ => some (head.length + digits.length, out)
    | _, _ => none

def closingTag : Rule := numberedTag ['<', '/', 'F'] []
def openingTag : Rule := numberedTag ['<', 'F'] tab

/-- The envelope is taken away once at each end, and the padding everywhere. -/
def stripFrame (reply : Text) : Text :=
  replaceAll blankPair []
    (replaceFirst "</ENVELOPE>".toList [] (replaceFirst "<ENVELOPE>".toList [] reply))

/-- White space that holds a line break goes up to its last one; tabs become spaces. -/
def stripBreaks (t : Text) : Text :=
  replaceAll tab [' '] (replaceAll lineBreak [] (replaceBy blankBeforeBreak t))

/-- A line break stands for each record tag and a tab for every other opening tag. -/
def markCells (t : Text) : Text :=
  replaceBy openingTag (replaceAll recordTag lineBreak (replaceBy closingTag t))

def normalize (reply : Text) : Text :=
  unescape (markCells (replaceBy blankBeforeTag (stripBreaks (stripFrame reply))))

/-- The rows of a reply. The names stand before the first record, so that whatever comes before it
falls into a row of its own, which is dropped. -/
def decode (names : List Text) (reply : Text) : List Row :=
  ((splitOn lineBreak (join tab names ++ normalize reply)).drop 1).map fun line =>
    Row.zip names (splitOn tab line)

end LedgerExport.Reply
