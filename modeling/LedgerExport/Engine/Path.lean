import LedgerExport.Text.Encoding
import LedgerExport.Text.Numeral

/-! # Paths, queries and fragments

Host and port are followed by a path, a query and a fragment. Characters that may not stand in them
are written as percent escapes of their bytes, and the dots of a path are followed.
-/
namespace LedgerExport.Engine

def isSlash (c : Char) : Bool := c == '/' || c == '\\'

def escapeByte (b : UInt8) : Text :=
  '%' :: Text.padZero 2 ((Text.hexadecimal b.toNat).map Char.toUpper)

def escapeBytes (isAllowed : Char → Bool) (t : Text) : Text :=
  t.flatMap fun c => if isAllowed c then [c] else (Text.encodeUtf8 [c]).flatMap escapeByte

def isVisibleExcept (marks : Text) (c : Char) : Bool :=
  0x20 < c.toNat && c.toNat < 0x7F && !List.elem c marks

def isPathChar : Char → Bool := isVisibleExcept ("\"#<>?^`".toList ++ ['{', '}'])

def isQueryChar : Char → Bool := isVisibleExcept "\"#<>'".toList

def isFragmentChar : Char → Bool := isVisibleExcept "\"<>`".toList

def dots : List Text := [".".toList, "%2e".toList]

def isDot (segment : Text) : Bool := dots.contains (segment.map Char.toLower)

def isDotDot (segment : Text) : Bool :=
  (dots.flatMap fun dot => dots.map (dot ++ ·)).contains (segment.map Char.toLower)

def stepTo (place : List Text) (segment : Text) : List Text :=
  if isDotDot segment then place.dropLast
  else if isDot segment then place
  else place ++ [segment]

/-- The segments without dots; dots at the end leave an empty segment. -/
def followDots (segments : List Text) : List Text :=
  segments.foldl stepTo [] ++
    if segments.getLast?.any fun s => isDot s || isDotDot s then [[]] else []

/-- The path that a text with a slash in front writes; the empty text writes `/`. -/
def readPath (t : Text) : Text :=
  let segments := Text.splitOn ['/'] ((t.drop 1).map fun c => if isSlash c then '/' else c)
  (followDots (segments.map (escapeBytes isPathChar))).flatMap ('/' :: ·)

end LedgerExport.Engine
