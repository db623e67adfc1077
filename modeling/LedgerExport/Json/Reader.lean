import LedgerExport.Json.Basic
import LedgerExport.Misfit

/-! # Reading JSON

The scanner goes through a text once. A string or number is both skipped and read: skipping only
looks for its end, reading also needs its value, and the two may stop at different faults.
-/
namespace LedgerExport.Json
open JsonFault

def isSpace (c : Char) : Bool := c == ' ' || c == '\n' || c == '\t' || c == '\r'

def skipSpace (t : Text) : Text := t.dropWhile isSpace

/-! ## Strings -/

def byteLength (t : Text) : Nat := t.foldl (fun n c => n + c.utf8Size) 0

def unit? (t : Text) : Except JsonFault Nat :=
  match t with
  | a :: b :: c :: d :: _ =>
    match Text.numeral? 16 [a, b, c, d] with
    | some n => .ok n
    | none => .error invalidEscape
  | _ => .error (if 4 ≤ byteLength t then invalidEscape else endInString)

def simpleEscape? : Char → Option Char
  | '"' => some '"'
  | '\\' => some '\\'
  | '/' => some '/'
  | 'b' => some '\x08'
  | 'f' => some '\x0c'
  | 'n' => some '\n'
  | 'r' => some '\r'
  | 't' => some '\t'
  | _ => none

/-- The second half of a surrogate pair, after the four digits of the first. -/
def lowHalf? : Text → Except JsonFault Nat
  | [] => .error endInString
  | ['\\'] => .error endInString
  | '\\' :: 'u' :: t => do
    let n ← unit? t
    if 0xDC00 ≤ n && n ≤ 0xDFFF then .ok n else .error loneSurrogate
  | _ => .error halfPair

/-- The character of an escape, with the number of characters behind the backslash that it takes. -/
def escape? : Text → Except JsonFault (Char × Nat)
  | [] => .error endInString
  | 'u' :: t => do
    let n ← unit? t
    if 0xDC00 ≤ n && n ≤ 0xDFFF then .error loneSurrogate
    else if 0xD800 ≤ n && n ≤ 0xDBFF then
      let low ← lowHalf? (t.drop 4)
      .ok (Char.ofNat (0x10000 + (n - 0xD800) * 0x400 + (low - 0xDC00)), 11)
    else .ok (Char.ofNat n, 5)
  | c :: _ =>
    match simpleEscape? c with
    | some r => .ok (r, 1)
    | none => .error invalidEscape

def escapeLength? : Text → Except JsonFault Nat
  | [] => .error endInString
  | 'u' :: t => (unit? t).map fun _ => 5
  | c :: _ => if (simpleEscape? c).isSome then .ok 1 else .error invalidEscape

/-- The value of a string and what follows it, with `n` characters still part of an escape. -/
def readStringFrom : Nat → Text → Except JsonFault (Text × Text)
  | _, [] => .error endInString
  | n + 1, _ :: cs => readStringFrom n cs
  | 0, c :: cs =>
    if c = '"' then .ok ([], cs)
    else if c = '\\' then
      match escape? cs with
      | .error f => .error f
      | .ok (r, n) => (readStringFrom n cs).map fun p => (r :: p.1, p.2)
    else if c.toNat < 0x20 then .error controlCharacter
    else (readStringFrom 0 cs).map fun p => (c :: p.1, p.2)

def readString : Text → Except JsonFault (Text × Text) := readStringFrom 0

def skipStringFrom : Nat → Text → Except JsonFault Text
  | _, [] => .error endInString
  | n + 1, _ :: cs => skipStringFrom n cs
  | 0, c :: cs =>
    if c = '"' then .ok cs
    else if c = '\\' then
      match escapeLength? cs with
      | .error f => .error f
      | .ok n => skipStringFrom n cs
    else if c.toNat < 0x20 then .error controlCharacter
    else skipStringFrom 0 cs

def skipString : Text → Except JsonFault Text := skipStringFrom 0

/-! ## Numbers -/

/-- Digits are taken into a number of 64 bits while they fit; then come the digits left over. -/
def gather : Nat → Text → Nat × Text
  | n, [] => (n, [])
  | n, c :: cs =>
    let m := n * 10 + (c.toNat - 48)
    if m < Nat.pow 2 64 then gather m cs else (n, c :: cs)

def scale : Nat → Binary64 → Int → Except JsonFault Binary64
  | 0, v, _ => .ok v
  | steps + 1, v, e =>
    if 308 < e then if v.mantissa = 0 then .ok v else .error numberOutOfRange
    else if 0 ≤ e then
      match (Binary64.ofDecimal? 1 e).bind v.mul? with
      | some w => .ok w
      | none => .error numberOutOfRange
    else if -308 ≤ e then
      match (Binary64.ofDecimal? 1 (-e)).bind v.div? with
      | some w => .ok w
      | none => .error numberOutOfRange
    else if v.mantissa = 0 then .ok v
    else
      match (Binary64.ofDecimal? 1 308).bind v.div? with
      | some w => scale steps w (e + 308)
      | none => .error numberOutOfRange

/-- A significand of 64 bits times a power of ten. Three divisions leave nothing of it. -/
def scaled (significand : Nat) (e : Int) : Except JsonFault Binary64 :=
  match Binary64.ofRatio? significand 1 with
  | some v => scale 4 v e
  | none => .error numberOutOfRange

def greatestExponent : Nat := Nat.pow 2 31 - 1

def readExponent (isNegative : Bool) (significand : Nat) (start : Int) (t : Text) :
    Except JsonFault (JsonNumber × Text) :=
  let (down, t) : Bool × Text := match t with
    | '+' :: r => (false, r)
    | '-' :: r => (true, r)
    | r => (false, r)
  let digits := t.takeWhile Char.isDigit
  let rest := t.drop digits.length
  match digits with
  | [] => .error (if t.isEmpty then endInValue else invalidNumber)
  | _ =>
    let e := Text.digitsValue digits
    if greatestExponent < e then
      if significand ≠ 0 && !down then .error numberOutOfRange
      else .ok (.float isNegative .zero, rest)
    else
      (scaled significand (if down then start - e else start + e)).map fun v =>
        (.float isNegative v, rest)

def readFraction (isNegative : Bool) (significand : Nat) (start : Int) (t : Text) :
    Except JsonFault (JsonNumber × Text) :=
  let digits := t.takeWhile Char.isDigit
  let rest := t.drop digits.length
  if digits.isEmpty then .error (if t.isEmpty then endInValue else invalidNumber)
  else
    let (n, left) := gather significand digits
    let e := start - ((digits.length : Int) - left.length)
    match rest with
    | 'e' :: r | 'E' :: r => readExponent isNegative n e r
    | _ => (scaled n e).map fun v => (.float isNegative v, rest)

/-- A whole number that fits keeps its value. A negative zero is a floating-point value, and so is
what lies beyond 64 bits. -/
def wholeNumber (isNegative : Bool) (n : Nat) : Except JsonFault JsonNumber :=
  if !isNegative then .ok (.natural n)
  else if n = 0 ∨ Nat.pow 2 63 < n then (scaled n 0).map (.float true)
  else .ok (.negative n)

def readNumber (isNegative : Bool) (t : Text) : Except JsonFault (JsonNumber × Text) :=
  let digits := t.takeWhile Char.isDigit
  let rest := t.drop digits.length
  match digits with
  | [] => .error (if t.isEmpty then endInValue else invalidNumber)
  | '0' :: _ :: _ => .error invalidNumber
  | _ =>
    let (n, left) := gather 0 digits
    match rest with
    | '.' :: r => readFraction isNegative n left.length r
    | 'e' :: r | 'E' :: r => readExponent isNegative n left.length r
    | _ =>
      if left.isEmpty then (wholeNumber isNegative n).map fun v => (v, rest)
      else (scaled n left.length).map fun v => (.float isNegative v, rest)

def skipDigits (t : Text) : Except JsonFault Text :=
  if (t.takeWhile Char.isDigit).isEmpty then .error invalidNumber
  else .ok (t.dropWhile Char.isDigit)

def skipExponent : Text → Except JsonFault Text
  | '+' :: t => skipDigits t
  | '-' :: t => skipDigits t
  | t => skipDigits t

def skipNumber (t : Text) : Except JsonFault Text := do
  let rest ← match t with
    | '0' :: r => if (r.takeWhile Char.isDigit).isEmpty then .ok r else .error invalidNumber
    | _ => skipDigits t
  match rest with
  | '.' :: r =>
    let r ← skipDigits r
    match r with
    | 'e' :: r | 'E' :: r => skipExponent r
    | _ => .ok r
  | 'e' :: r | 'E' :: r => skipExponent r
  | _ => .ok rest

/-! ## Values -/

def stop (fault skipped : JsonFault) : Json × Option Text := (.broken fault skipped, none)

def scanWord (word : Text) (value : Json) (t : Text) : Json × Option Text :=
  match Text.after? word t with
  | some rest => (value, some rest)
  | none =>
    if (Text.after? t word).isSome then stop endInValue endInValue
    else stop expectedWord expectedWord

def leaf (read : Except JsonFault Json) : Except JsonFault Text → Json × Option Text
  | .ok rest =>
    match read with
    | .ok v => (v, some rest)
    | .error f => (.unreadable f, some rest)
  | .error skipped =>
    match read with
    | .ok _ => stop skipped skipped
    | .error f => stop f skipped

def scanString (t : Text) : Json × Option Text :=
  leaf ((readString t).map fun p => .string p.1) (skipString t)

def scanNumber (isNegative : Bool) (t : Text) : Json × Option Text :=
  leaf ((readNumber isNegative t).map fun p => .number p.1) (skipNumber t)

def keyOf (t : Text) : Except JsonFault Text := (readString t).map Prod.fst

def brokenMember (fault skipped : JsonFault) : Except JsonFault Text × Json :=
  (.error fault, .broken fault skipped)

mutual

/-- A value and what follows it; nothing follows a broken one. -/
def scanValue : Nat → Text → Json × Option Text
  | 0, _ => stop expectedValue expectedValue
  | fuel + 1, t =>
    match skipSpace t with
    | [] => stop endInValue endInValue
    | 'n' :: r => scanWord "ull".toList .null r
    | 't' :: r => scanWord "rue".toList (.bool true) r
    | 'f' :: r => scanWord "alse".toList (.bool false) r
    | '-' :: r => scanNumber true r
    | '"' :: r => scanString r
    | '[' :: r =>
      match skipSpace r with
      | [] => (.array [.broken endInList endInList], none)
      | ']' :: rest => (.array [], some rest)
      | _ =>
        let (items, rest) := scanItems fuel r
        (.array items, rest)
    | '{' :: r =>
      match skipSpace r with
      | [] => (.object [brokenMember endInObject endInObject], none)
      | '}' :: rest => (.object [], some rest)
      | '"' :: rest =>
        let (members, rest) := scanMembers fuel rest
        (.object members, rest)
      | _ => (.object [brokenMember keyNotString keyNotString], none)
    | c :: r =>
      if c.isDigit then scanNumber false (c :: r) else stop expectedValue expectedValue

def scanItems : Nat → Text → List Json × Option Text
  | 0, _ => ([.broken expectedValue expectedValue], none)
  | fuel + 1, t =>
    match scanValue fuel t with
    | (v, none) => ([v], none)
    | (v, some rest) =>
      match skipSpace rest with
      | [] => ([v, .broken endInList endInList], none)
      | ']' :: r => ([v], some r)
      | ',' :: r =>
        match skipSpace r with
        | [] => ([v, .broken endInValue endInValue], none)
        | ']' :: _ => ([v, .broken trailingComma expectedValue], none)
        | _ =>
          let (items, end?) := scanItems fuel r
          (v :: items, end?)
      | _ => ([v, .broken expectedListEnd expectedListEnd], none)

def scanMembers : Nat → Text → List (Except JsonFault Text × Json) × Option Text
  | 0, _ => ([brokenMember expectedValue expectedValue], none)
  | fuel + 1, t =>
    match skipString t with
    | .error skipped =>
      match keyOf t with
      | .error fault => ([brokenMember fault skipped], none)
      | .ok _ => ([brokenMember skipped skipped], none)
    | .ok rest =>
      let key := keyOf t
      match skipSpace rest with
      | [] => ([(key, .broken endInObject endInObject)], none)
      | ':' :: r =>
        match scanValue fuel r with
        | (v, none) => ([(key, v)], none)
        | (v, some rest) =>
          match skipSpace rest with
          | [] => ([(key, v), brokenMember endInObject endInObject], none)
          | '}' :: r => ([(key, v)], some r)
          | ',' :: r =>
            match skipSpace r with
            | [] => ([(key, v), brokenMember endInValue endInObject], none)
            | '}' :: _ => ([(key, v), brokenMember trailingComma keyNotString], none)
            | '"' :: r =>
              let (members, end?) := scanMembers fuel r
              ((key, v) :: members, end?)
            | _ => ([(key, v), brokenMember keyNotString keyNotString], none)
          | _ => ([(key, v), brokenMember expectedObjectEnd expectedObjectEnd], none)
      | _ => ([(key, .broken expectedColon expectedColon)], none)

end

def scan (t : Text) : Json × Option Text := scanValue (2 * t.length + 2) t

/-! ## Skipped values -/

mutual

def skipFault? : Json → Option JsonFault
  | .broken _ skipped => some skipped
  | .array items => skipItems? items
  | .object members => skipMembers? members
  | _ => none

def skipItems? : List Json → Option JsonFault
  | [] => none
  | v :: rest => (skipFault? v).or (skipItems? rest)

def skipMembers? : List (Except JsonFault Text × Json) → Option JsonFault
  | [] => none
  | (_, v) :: rest => (skipFault? v).or (skipMembers? rest)

end

/-! ## Whole texts -/

inductive ReadError where
  | malformed (fault : JsonFault)
  | misfit (m : Misfit)
  deriving Repr, DecidableEq

def ReadError.message : ReadError → Text
  | .malformed fault => fault.message
  | .misfit m => m.message

def unexpected {α : Type} (v : Json) (expected : Text) : Except ReadError α :=
  match v with
  | .broken fault _ => .error (.malformed fault)
  | .unreadable fault => .error (.malformed fault)
  | v => .error (.misfit (.invalidType v.describe expected))

/-- Reads a whole text as one value of the record that `decode` reads; the first fault wins. -/
def readWith {α : Type} (decode : Json → Except ReadError α) (t : Text) : Except ReadError α :=
  match scan t with
  | (v, rest) => do
    let a ← decode v
    match rest with
    | some rest =>
      if (skipSpace rest).isEmpty then .ok a else .error (.malformed trailingCharacters)
    | none => .error (.malformed trailingCharacters)

end LedgerExport.Json
