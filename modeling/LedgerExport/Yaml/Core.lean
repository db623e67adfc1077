import LedgerExport.Misfit
import LedgerExport.Number.Binary64
import LedgerExport.Yaml.Node

/-! # The core types of YAML

What a scalar is by its text or its tag, and how messages describe a node of the wrong kind.
-/
namespace LedgerExport.Yaml

inductive Core where
  | null
  | bool (b : Bool)
  | natural (n : Nat)
  | negative (n : Nat)
  | float (isNegative : Bool) (v : Binary64)
  | infinity (isNegative : Bool)
  | notANumber
  | string (t : Text)
  deriving Repr, DecidableEq

namespace Core

def isNull (t : Text) : Bool :=
  t = "~".toList || t = "null".toList || t = "Null".toList || t = "NULL".toList

def bool? (t : Text) : Option Bool :=
  if t = "true".toList ∨ t = "True".toList ∨ t = "TRUE".toList then some true
  else if t = "false".toList ∨ t = "False".toList ∨ t = "FALSE".toList then some false
  else none

def splitSign : Text → Bool × Text
  | '+' :: t => (false, t)
  | '-' :: t => (true, t)
  | t => (false, t)

/-- Whether a numeral has a zero in front, which makes it a text. -/
def isPadded (t : Text) : Bool :=
  match (splitSign t).2 with
  | '0' :: c :: cs => (c :: cs).all Char.isDigit
  | _ => false

def magnitude? (t : Text) : Option Nat :=
  match t with
  | '0' :: 'x' :: ds => Text.numeral? 16 ds
  | '0' :: 'o' :: ds => Text.numeral? 8 ds
  | '0' :: 'b' :: ds => Text.numeral? 2 ds
  | ds => if isPadded ds then none else Text.numeral? 10 ds

/-- Whole numbers of up to 128 bits. -/
def integer? (t : Text) : Option Core :=
  let (isNegative, ds) := splitSign t
  (magnitude? ds).bind fun n =>
    if !isNegative then (if n < Nat.pow 2 128 then some (.natural n) else none)
    else if n = 0 then some (.natural 0)
    else if n ≤ Nat.pow 2 127 then some (.negative n)
    else none

def exponent? (t : Text) : Option Int :=
  let (isNegative, ds) := splitSign t
  (Text.numeral? 10 ds).map fun n => if isNegative then -(n : Int) else n

/-- The digits before and after the point, and the exponent; at least one digit is needed. -/
def decimalParts? (t : Text) : Option (Text × Text × Int) :=
  let whole := t.takeWhile Char.isDigit
  let rest := t.drop whole.length
  let (fraction, rest) := match rest with
    | '.' :: r => (r.takeWhile Char.isDigit, r.dropWhile Char.isDigit)
    | r => ([], r)
  if (whole ++ fraction).isEmpty then none
  else
    match rest with
    | [] => some (whole, fraction, 0)
    | 'e' :: r | 'E' :: r => (exponent? r).map fun e => (whole, fraction, e)
    | _ => none

def decimal? (isNegative : Bool) (t : Text) : Option Core := do
  let (whole, fraction, e) ← decimalParts? t
  let v ← Binary64.ofDecimal? (Text.digitsValue (whole ++ fraction)) (e - fraction.length)
  return .float isNegative v

def float? (t : Text) : Option Core :=
  let (isNegative, ds) := splitSign t
  if ds = ".inf".toList ∨ ds = ".Inf".toList ∨ ds = ".INF".toList then some (.infinity isNegative)
  else if t = ".nan".toList ∨ t = ".NaN".toList ∨ t = ".NAN".toList then some .notANumber
  else decimal? isNegative ds

def ofPlain (t : Text) : Core :=
  if t.isEmpty || isNull t then .null
  else
    match bool? t with
    | some b => .bool b
    | none =>
      match integer? t with
      | some n => n
      | none => if isPadded t then .string t else (float? t).getD (.string t)

/-- Floating-point values are always written with a point. -/
def floatText (isNegative : Bool) (v : Binary64) : Text :=
  (if isNegative then ['-'] else []) ++ v.text fun _ => true

def describe : Core → Text
  | .null => "unit value".toList
  | .bool true => "boolean `true`".toList
  | .bool false => "boolean `false`".toList
  | .natural n =>
    "integer `".toList ++ Text.decimal n ++ (if n < Nat.pow 2 64 then "`" else "` as u128").toList
  | .negative n =>
    "integer `-".toList ++ Text.decimal n ++ (if n ≤ Nat.pow 2 63 then "`" else "` as i128").toList
  | .float isNegative v => "floating point `".toList ++ floatText isNegative v ++ "`".toList
  | .infinity true => "floating point `-inf`".toList
  | .infinity false => "floating point `inf`".toList
  | .notANumber => "floating point `NaN`".toList
  | .string t => "string ".toList ++ Text.quoted t

end Core

def coreTag (name : String) : Text := "tag:yaml.org,2002:".toList ++ name.toList

/-- A scalar in place of something that only other nodes can be. A tag of a core type is checked. -/
def scalarMisfit (expected : Text) (tag : Option Text) (isPlain : Bool) (t : Text) : Misfit :=
  let found (c : Core) : Misfit := .invalidType c.describe expected
  let checked (c : Option Core) (name : String) : Misfit :=
    match c with
    | some c => found c
    | none => .invalidValue (Core.string t).describe name.toList
  let untagged := if isPlain then Core.ofPlain t else .string t
  match tag with
  | none => found untagged
  | some tag =>
    if tag = coreTag "bool" then checked ((Core.bool? t).map .bool) "a boolean"
    else if tag = coreTag "int" then checked (Core.integer? t) "an integer"
    else if tag = coreTag "float" then checked (Core.float? t) "a float"
    else if tag = coreTag "null" then checked (if Core.isNull t then some .null else none) "null"
    else if tag.head? == some '!' then found untagged
    else found (.string t)

def Node.misfit (expected : Text) : Node → Misfit
  | .scalar _ tag isPlain t => scalarMisfit expected tag isPlain t
  | .sequence .. => .invalidType "sequence".toList expected
  | .mapping .. => .invalidType "map".toList expected
  | .alias _ => .invalidType (Core.describe .null) expected

end LedgerExport.Yaml
