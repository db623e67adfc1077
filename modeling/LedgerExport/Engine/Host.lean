import LedgerExport.Text.Characters
import LedgerExport.Text.Numeral

/-! # Hosts

The host of an address is a domain, four numbers, or an IPv6 address in square brackets. A domain
is first freed of percent escapes and put into lower case. A domain whose last label is a number
must be an IPv4 address. Letters beyond ASCII stand for themselves: none is mapped, composed or
encoded. What is proved of jobs and addresses holds for other readers of hosts as well.
-/
namespace LedgerExport.Engine

inductive HostFault where
  /-- Nothing is left of the name. -/
  | empty
  | invalidIpv4 | invalidIpv6 | invalidDomain
  deriving Repr, DecidableEq

inductive Host where
  | domain (name : Text)
  | ipv4 (address : Nat)
  | ipv6 (text : Text)
  deriving Repr, DecidableEq

namespace Host

/-! ## IPv6 -/

def isHexDigit (c : Char) : Bool := (Text.digitValue? 16 c).isSome

/-- A number from 0 to 255 without leading zeros. -/
def isOctet (t : Text) : Bool :=
  t.all Char.isDigit && (t.head? != some '0' || t.length == 1) &&
    match Text.numeral? 10 t with
    | some n => n ≤ 255
    | none => false

def isFourOctets (t : Text) : Bool :=
  let parts := Text.splitOn ['.'] t
  parts.length == 4 && parts.all isOctet

/-- The rest of an address after `pieces` pieces; `compressed` once a run of zeros has been left
out. -/
def isIpv6Rest : Nat → Nat → Bool → Text → Bool
  | 0, _, _, _ => false
  | _ + 1, pieces, compressed, [] => compressed || pieces == 8
  | fuel + 1, pieces, compressed, c :: cs =>
    if pieces = 8 then false
    else if c = ':' then !compressed && isIpv6Rest fuel (pieces + 1) true cs
    else
      let digits := ((c :: cs).take 4).takeWhile isHexDigit
      match (c :: cs).drop digits.length with
      | [] => isIpv6Rest fuel (pieces + 1) compressed []
      | '.' :: _ =>
        !digits.isEmpty && pieces ≤ 6 && isFourOctets (c :: cs) && (compressed || pieces == 6)
      | ':' :: rest => !rest.isEmpty && isIpv6Rest fuel (pieces + 1) compressed rest
      | _ => false

def isIpv6 (t : Text) : Bool :=
  match t with
  | ':' :: ':' :: rest => isIpv6Rest (t.length + 1) 1 true rest
  | ':' :: _ => false
  | _ => 2 ≤ t.length && isIpv6Rest (t.length + 1) 0 false t

/-! ## IPv4 -/

/-- A number in decimal, in octal after a zero or in hexadecimal after `0x`. -/
def ipv4Number? (t : Text) : Option Nat :=
  let (base, digits) : Nat × Text := match t with
    | '0' :: 'x' :: r | '0' :: 'X' :: r => (16, r)
    | '0' :: c :: r => (8, c :: r)
    | r => (10, r)
  if t.isEmpty then none
  else if digits.isEmpty then some 0
  else Text.numeral? base digits

/-- The labels of a domain, without an empty one at the end. -/
def labels (t : Text) : List Text :=
  let parts := Text.splitOn ['.'] t
  if parts.getLast? = some [] then parts.dropLast else parts

def endsInNumber (t : Text) : Bool :=
  match (labels t).getLast? with
  | none => false
  | some last => (!last.isEmpty && last.all Char.isDigit) || (ipv4Number? last).isSome

/-- All numbers but the last are single bytes; the last one fills the bytes that are left. -/
def ipv4Address? (t : Text) : Option Nat := do
  let parts := labels t
  if 4 < parts.length then none
  let numbers ← parts.mapM ipv4Number?
  let last ← numbers.getLast?
  let front := numbers.dropLast
  if front.any (255 < ·) then none
  else if Nat.pow 256 (4 - front.length) ≤ last then none
  else some ((front.zipIdx).foldl (fun acc (n, i) => acc + n * Nat.pow 256 (3 - i)) last)

/-! ## Domains -/

def percentBytes : Text → List UInt8
  | '%' :: a :: b :: rest =>
    match Text.numeral? 16 [a, b] with
    | some n => UInt8.ofNat n :: percentBytes rest
    | none => '%'.toString.toUTF8.toList ++ percentBytes (a :: b :: rest)
  | c :: rest => c.toString.toUTF8.toList ++ percentBytes rest
  | [] => []

/-- What no domain may hold: controls, the space and the marks that structure an address. -/
def isForbidden (c : Char) : Bool :=
  c.toNat ≤ 0x20 || c.toNat == 0x7F || "%#/:<>?@[\\]^|".toList.contains c

def adaptBias (first : Bool) (delta count : Nat) : Nat :=
  let rec go : Nat → Nat → Nat → Nat
    | 0, k, d => k + 36 * d / (d + 38)
    | fuel + 1, k, d => if 455 < d then go fuel (k + 36) (d / 35) else k + 36 * d / (d + 38)
  let d := if first then delta / 700 else delta / 2
  go 32 0 (d + d / count)

def labelDigit? (c : Char) : Option Nat :=
  if c.isLower then some (c.toNat - 97) else if c.isDigit then some (c.toNat - 22) else none

def labelNumber? (bias : Nat) : Nat → Nat → Nat → Text → Option (Nat × Text)
  | _, _, _, [] => none
  | k, weight, acc, c :: cs => do
    let digit ← labelDigit? c
    let acc := acc + digit * weight
    let threshold := if k ≤ bias then 1 else min 26 (k - bias)
    if Nat.pow 2 32 ≤ acc then none
    else if digit < threshold then some (acc, cs)
    else labelNumber? bias (k + 36) (weight * (36 - threshold)) acc cs

def decodeLabelFrom : Nat → Nat → Nat → Nat → List Nat → Text → Option (List Nat)
  | _, _, _, _, out, [] => some out
  | 0, _, _, _, _, _ :: _ => none
  | fuel + 1, bias, point, index, out, t => do
    let (delta, rest) ← labelNumber? bias 36 1 0 t
    let count := out.length + 1
    let place := index + delta
    let point' := point + place / count
    let at' := place % count
    decodeLabelFrom fuel (adaptBias (index == 0 && point == 128) delta count) point' (at' + 1)
      (out.insertIdx at' point') rest

/-- The characters of a label behind its `xn--` mark. -/
def decodeLabel? (t : Text) : Option (List Nat) :=
  let basic := (t.reverse.dropWhile (· != '-')).drop 1 |>.reverse
  let rest := if t.elem '-' then t.drop (basic.length + 1) else t
  decodeLabelFrom (t.length + 1) 72 128 0 (basic.map Char.toNat) rest

/-- An encoded label must stand for visible characters, not all of them in ASCII. -/
def isEncodedLabel (t : Text) : Bool :=
  match decodeLabel? t with
  | none => false
  | some points =>
    points.any (128 ≤ ·) && points.all fun n => n < 0x110000 && !Text.isHidden n

def isLabel (t : Text) : Bool :=
  match Text.after? "xn--".toList t with
  | some rest => isEncodedLabel rest
  | none => true

def domain? (t : Text) : Option Text := do
  let s ← String.fromUTF8? ⟨(percentBytes t).toArray⟩
  let name := s.toList.map Char.toLower
  if name.any isForbidden || name.any (fun c => 128 ≤ c.toNat && Text.isHidden c.toNat) then none
  else if (Text.splitOn ['.'] name).all isLabel then some name
  else none

def parse (t : Text) : Except HostFault Host :=
  match t with
  | '[' :: rest =>
    if rest.getLast? = some ']' && isIpv6 rest.dropLast then .ok (.ipv6 rest.dropLast)
    else .error .invalidIpv6
  | _ =>
    match domain? t with
    | none => .error .invalidDomain
    | some name =>
      if endsInNumber name then
        match ipv4Address? name with
        | some n => .ok (.ipv4 n)
        | none => .error .invalidIpv4
      else .ok (.domain name)

end Host

end LedgerExport.Engine
