import LedgerExport.Text.Characters
import LedgerExport.Text.Numeral

/-! # Values of the wrong shape

What can be wrong with data that is well-formed but does not fit the record that is read from it. A
message shows a text in double quotes: quotes and backslashes get a backslash, tab, line ends and
the null character have short escapes, and every other hidden character is written by its number, so
that a message never holds an invisible character.
-/
namespace LedgerExport

namespace Text

def quoteChar (c : Char) : Text :=
  match c with
  | '"' => "\\\"".toList
  | '\\' => "\\\\".toList
  | '\t' => "\\t".toList
  | '\r' => "\\r".toList
  | '\n' => "\\n".toList
  | '\x00' => "\\0".toList
  | c =>
    if isHidden c.toNat then "\\u".toList ++ '{' :: hexadecimal c.toNat ++ ['}'] else [c]

def quoted (t : Text) : Text := '"' :: t.flatMap quoteChar ++ ['"']

end Text

inductive Misfit where
  | missingField (name : Text)
  | duplicateField (name : Text)
  | invalidType (found expected : Text)
  | invalidValue (found expected : Text)
  | invalidLength (length : Nat) (expected : Text)
  deriving Repr, DecidableEq

def Misfit.message : Misfit → Text
  | .missingField name => "missing field `".toList ++ name ++ "`".toList
  | .duplicateField name => "duplicate field `".toList ++ name ++ "`".toList
  | .invalidType found expected =>
    "invalid type: ".toList ++ found ++ ", expected ".toList ++ expected
  | .invalidValue found expected =>
    "invalid value: ".toList ++ found ++ ", expected ".toList ++ expected
  | .invalidLength length expected =>
    "invalid length ".toList ++ Text.decimal length ++ ", expected ".toList ++ expected

end LedgerExport
