/-! # Texts, left-to-right replacement and splitting

A text is the list of its characters. A rule looks at the head of a text; `replaceBy` applies it
from left to right, never inside what a match has covered and never to what it has written.
-/
namespace LedgerExport

/-- A text is the list of its Unicode scalar values. -/
abbrev Text := List Char

namespace Text

/-- What follows `p` in `t`, if `t` starts with `p`. -/
def after? : Text → Text → Option Text
  | [], t => some t
  | _ :: _, [] => none
  | p :: ps, c :: cs => if p = c then after? ps cs else none

theorem after?_eq_some_iff {p t rest : Text} : after? p t = some rest ↔ t = p ++ rest := by
  induction p generalizing t with
  | nil => simp [after?, eq_comm]
  | cons a ps ih =>
    cases t with
    | nil => simp [after?]
    | cons c cs =>
      by_cases h : a = c
      · subst h; simp [after?, ih]
      · simp [after?, h, Ne.symm h]

@[simp] theorem after?_append (p rest : Text) : after? p (p ++ rest) = some rest :=
  after?_eq_some_iff.2 rfl

def startsWith (p t : Text) : Bool := (after? p t).isSome

def contains (p : Text) : Text → Bool
  | [] => p.isEmpty
  | c :: cs => startsWith p (c :: cs) || contains p cs

/-- Where a rule applies it gives the number of characters it covers beyond the first, and the text
that stands in their place. -/
abbrev Rule := Text → Option (Nat × Text)

/-- Replacing with the next `n` characters still covered by the last match. -/
def replaceByFrom (rule : Rule) : Nat → Text → Text
  | _, [] => []
  | n + 1, _ :: cs => replaceByFrom rule n cs
  | 0, c :: cs =>
    match rule (c :: cs) with
    | some (n, out) => out ++ replaceByFrom rule n cs
    | none => c :: replaceByFrom rule 0 cs

/-- Every match of `rule`, taken from left to right, is replaced. -/
def replaceBy (rule : Rule) (t : Text) : Text := replaceByFrom rule 0 t

def literal (p out : Text) : Rule := fun t =>
  if startsWith p t then some (p.length - 1, out) else none

def replaceAll (p out : Text) : Text → Text := replaceBy (literal p out)

def replaceFirst (p out : Text) : Text → Text
  | [] => if p.isEmpty then out else []
  | c :: cs =>
    match after? p (c :: cs) with
    | some rest => out ++ rest
    | none => c :: replaceFirst p out cs

def consFirst (c : Char) : List Text → List Text
  | [] => [[c]]
  | piece :: rest => (c :: piece) :: rest

def splitFrom (sep : Text) : Nat → Text → List Text
  | _, [] => [[]]
  | n + 1, _ :: cs => splitFrom sep n cs
  | 0, c :: cs =>
    if startsWith sep (c :: cs) then [] :: splitFrom sep (sep.length - 1) cs
    else consFirst c (splitFrom sep 0 cs)

/-- The pieces between the occurrences of a non-empty separator; there is always at least one. -/
def splitOn (sep t : Text) : List Text := splitFrom sep 0 t

def join (sep : Text) (pieces : List Text) : Text := sep.intercalate pieces

theorem replaceByFrom_drop (rule : Rule) (n : Nat) (t : Text) :
    replaceByFrom rule n t = replaceByFrom rule 0 (t.drop n) := by
  induction t generalizing n with
  | nil => cases n <;> rfl
  | cons c cs ih =>
    cases n with
    | zero => rfl
    | succ n => simpa [replaceByFrom] using ih n

@[simp] theorem replaceBy_nil (rule : Rule) : replaceBy rule [] = [] := rfl

theorem replaceBy_cons_none {rule : Rule} {c : Char} {cs : Text} (h : rule (c :: cs) = none) :
    replaceBy rule (c :: cs) = c :: replaceBy rule cs := by
  simp [replaceBy, replaceByFrom, h]

theorem replaceBy_cons_some {rule : Rule} {c : Char} {cs : Text} {n : Nat} {out : Text}
    (h : rule (c :: cs) = some (n, out)) :
    replaceBy rule (c :: cs) = out ++ replaceBy rule (cs.drop n) := by
  simp [replaceBy, replaceByFrom, h, replaceByFrom_drop rule n cs]

end Text

end LedgerExport
