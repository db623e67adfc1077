import LedgerExport.Schema.Table

/-! # Value expressions

A field whose source is a plain method reference is fitted into the template of its kind; any other
source is an expression already and is taken as it is.
-/
namespace LedgerExport.Request

def isWordChar (c : Char) : Bool := c.isAlphanum || c == '_'

/-- An optional `..` and then one or more ASCII letters, digits and underscores. -/
def isMethodReference (t : Text) : Bool :=
  let word := (Text.after? "..".toList t).getD t
  !word.isEmpty && word.all isWordChar

def template (kind : FieldKind) (f : Text) : Text :=
  let ref := '$' :: f
  match kind with
  | .text => ref
  | .logical => "if ".toList ++ ref ++ " then 1 else 0".toList
  | .date =>
    "if $$IsEmpty:".toList ++ ref ++ " then $$StrByCharCode:241 else $$PyrlYYYYMMDDFormat:".toList
      ++ ref ++ ":\"-\"".toList
  | .number => "if $$IsEmpty:".toList ++ ref ++ " then \"0\" else $$String:".toList ++ ref
  | .amount =>
    "$$StringFindAndReplace:(if $$IsDebit:".toList ++ ref ++ " then -$$NumValue:".toList ++ ref
      ++ " else $$NumValue:".toList ++ ref ++ "):\"(-)\":\"-\"".toList
  | .quantity =>
    "$$StringFindAndReplace:(if $$IsInwards:".toList ++ ref ++ " then $$Number:$$String:".toList
      ++ ref ++ ":\"TailUnits\" else -$$Number:$$String:".toList ++ ref
      ++ ":\"TailUnits\"):\"(-)\":\"-\"".toList
  | .rate => "if $$IsEmpty:".toList ++ ref ++ " then 0 else $$Number:".toList ++ ref
  | .raw => f
  | .unknown => f

def valueExpression (field : Field) : Text :=
  if isMethodReference field.source then template field.kind field.source else field.source

end LedgerExport.Request
