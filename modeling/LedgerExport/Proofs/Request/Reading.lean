import LedgerExport.Request.Document
import LedgerExport.Proofs.Text.Numeral
import LedgerExport.Proofs.Text.Replacement

/-! # Reading markup

A reader of markup knows nothing of the request: a tag goes from an opening bracket to the next
closing one, and what stands between two tags is text. It gives the pieces of a request back if the
names in its tags are words and its texts hold no opening bracket; where no text stands between two
tags it gives an empty one. The main statement is `readPieces_renderPieces`.
-/
namespace LedgerExport.Request
open Piece Text

def readAttributes : List Text → Option (List (Text × Text))
  | [[]] => some []
  | (' ' :: key) :: value :: rest =>
    if key.getLast? = some '=' then (readAttributes rest).map ((key.dropLast, value) :: ·) else none
  | _ => none

def readTag : Text → Option Piece
  | '/' :: name => some (.closing name)
  | t => (readAttributes (splitOn ['"'] (t.dropWhile (· ≠ ' ')))).map
      (.opening (t.takeWhile (· ≠ ' ')))

/-- Reading on, with `word` the characters since the last bracket and the flag telling whether a
tag is open. -/
def readFrom : Bool → Text → Text → Option (List Piece)
  | false, word, [] => some [.content word]
  | true, _, [] => none
  | false, word, c :: cs =>
    if c = '<' then (readFrom true [] cs).map (.content word :: ·)
    else readFrom false (word ++ [c]) cs
  | true, word, c :: cs =>
    if c = '<' then none
    else if c = '>' then (readTag word).bind fun tag => (readFrom false [] cs).map (tag :: ·)
    else readFrom true (word ++ [c]) cs

def readPieces (t : Text) : Option (List Piece) := readFrom false [] t

/-- The pieces as they are read behind `word`, with a text before and behind every tag. -/
def spread (word : Text) : List Piece → List Piece
  | [] => [.content word]
  | .content t :: rest => spread (word ++ t) rest
  | .opening name attributes :: rest => .content word :: .opening name attributes :: spread [] rest
  | .closing name :: rest => .content word :: .closing name :: spread [] rest

def IsWord (t : Text) : Prop := ∀ c ∈ t, c.isAlphanum = true

instance (t : Text) : Decidable (IsWord t) :=
  decidable_of_iff (t.all Char.isAlphanum = true) List.all_eq_true

theorem IsWord.not_mem {t : Text} (h : IsWord t) {c : Char} (hc : c.isAlphanum = false) :
    c ∉ t := by
  intro hm
  rw [h c hm] at hc
  exact absurd hc (by decide)

theorem isWord_numbered {stem : String} (h : IsWord stem.toList) (n : Nat) :
    IsWord (numbered stem n) := by
  intro c hc
  rcases List.mem_append.mp hc with hc | hc
  · exact h c hc
  · rw [Char.isAlphanum, isDigit_of_mem_padZero hc, Bool.or_true]

theorem numbered_injective {stem : String} {m n : Nat} (h : numbered stem m = numbered stem n) :
    m = n := padZero_injective (List.append_cancel_left h)

def Legible : Piece → Prop
  | .opening name attributes => IsWord name ∧ ∀ a ∈ attributes, IsWord a.1 ∧ IsWord a.2
  | .closing name => IsWord name
  | .content text => '<' ∉ text

/-- Between the quotation marks stand the names and the values in turn. -/
theorem splitOn_renderAttributes {attributes : List (Text × Text)}
    (h : ∀ a ∈ attributes, IsWord a.1 ∧ IsWord a.2) :
    splitOn ['"'] (attributes.flatMap renderAttribute) =
      attributes.flatMap (fun a => [' ' :: a.1 ++ ['='], a.2]) ++ [[]] := by
  induction attributes with
  | nil => rfl
  | cons a rest ih =>
    obtain ⟨hkey, hvalue⟩ := h a List.mem_cons_self
    have hk : NoStart ['"'] (' ' :: a.1 ++ ['=']) := by
      have := hkey.not_mem (c := '"') (by decide)
      simpa [noStart_singleton] using this
    have hv : NoStart ['"'] a.2 := noStart_singleton.mpr (hvalue.not_mem (by decide))
    have hrest := ih fun b hb => h b (List.mem_cons_of_mem a hb)
    have hrender (x : Text) : renderAttribute a ++ x =
        ' ' :: a.1 ++ ['='] ++ ['"'] ++ (a.2 ++ ['"'] ++ x) := by
      simp [renderAttribute]
    rw [List.flatMap_cons, hrender, splitOn_append (by decide) hk, splitOn_append (by decide) hv,
      hrest, List.flatMap_cons, List.append_assoc]
    rfl

theorem readAttributes_flatMap (attributes : List (Text × Text)) :
    readAttributes (attributes.flatMap (fun a => [' ' :: a.1 ++ ['='], a.2]) ++ [[]]) =
      some attributes := by
  induction attributes with
  | nil => rfl
  | cons a rest ih =>
    rw [List.flatMap_cons, List.append_assoc]
    simp only [List.cons_append, List.nil_append, readAttributes] at ih ⊢
    rw [ih]
    simp

theorem readTag_opening {name : Text} {attributes : List (Text × Text)}
    (h : Legible (.opening name attributes)) :
    readTag (name ++ attributes.flatMap renderAttribute) = some (.opening name attributes) := by
  obtain ⟨hname, hattributes⟩ := h
  have hblank : ∀ c ∈ name, decide (c ≠ ' ') = true := by
    intro c hc
    rw [decide_eq_true_eq]
    rintro rfl
    exact hname.not_mem (by decide) hc
  have hhead : ∀ c cs, attributes.flatMap renderAttribute = c :: cs → c = ' ' := by
    intro c cs hcs
    cases attributes with
    | nil => simp at hcs
    | cons a rest =>
      simp [renderAttribute] at hcs
      exact hcs.1.symm
  have hslash : ∀ rest, name ++ attributes.flatMap renderAttribute ≠ '/' :: rest := by
    intro rest hs
    cases name with
    | nil => exact absurd (hhead _ _ hs) (by decide)
    | cons c cs =>
      have hc := hname c List.mem_cons_self
      rw [(List.cons.inj hs).1] at hc
      exact absurd hc (by decide)
  have htake : (name ++ attributes.flatMap renderAttribute).takeWhile (· ≠ ' ') = name := by
    rw [List.takeWhile_append_of_pos hblank]
    cases ha : attributes.flatMap renderAttribute with
    | nil => simp
    | cons c cs => simp [hhead c cs ha]
  have hdrop : (name ++ attributes.flatMap renderAttribute).dropWhile (· ≠ ' ') =
      attributes.flatMap renderAttribute := by
    rw [List.dropWhile_append_of_pos hblank]
    cases ha : attributes.flatMap renderAttribute with
    | nil => rfl
    | cons c cs => simp [hhead c cs ha]
  unfold readTag
  split
  · next name' hs => exact absurd hs (hslash name')
  · rw [htake, hdrop, splitOn_renderAttributes hattributes, readAttributes_flatMap]
    rfl

section Scanning
variable {w x : Text}

theorem readFrom_text (hw : '<' ∉ w) (word : Text) :
    readFrom false word (w ++ x) = readFrom false (word ++ w) x := by
  induction w generalizing word with
  | nil => simp
  | cons c cs ih =>
    have hc : c ≠ '<' := (List.ne_of_not_mem_cons hw).symm
    rw [List.cons_append, readFrom, if_neg hc, ih (List.not_mem_of_not_mem_cons hw)]
    simp

theorem readFrom_tag (hl : '<' ∉ w) (hr : '>' ∉ w) (word : Text) :
    readFrom true word (w ++ '>' :: x) =
      (readTag (word ++ w)).bind fun tag => (readFrom false [] x).map (tag :: ·) := by
  induction w generalizing word with
  | nil => simp [readFrom]
  | cons c cs ih =>
    have hcl : c ≠ '<' := (List.ne_of_not_mem_cons hl).symm
    have hcr : c ≠ '>' := (List.ne_of_not_mem_cons hr).symm
    rw [List.cons_append, readFrom, if_neg hcl, if_neg hcr,
      ih (List.not_mem_of_not_mem_cons hl) (List.not_mem_of_not_mem_cons hr)]
    simp

/-- A tag with nothing special in it is read, and reading goes on behind it. -/
theorem readFrom_brackets (hl : '<' ∉ w) (hr : '>' ∉ w) {tag : Piece} (h : readTag w = some tag)
    (word : Text) : readFrom false word ('<' :: (w ++ '>' :: x)) =
      (readFrom false [] x).map fun pieces => .content word :: tag :: pieces := by
  rw [readFrom, if_pos rfl, readFrom_tag hl hr, List.nil_append, h, Option.bind_some,
    Option.map_map]
  rfl

end Scanning

theorem not_mem_renderAttributes {attributes : List (Text × Text)} {c : Char}
    (h : ∀ a ∈ attributes, IsWord a.1 ∧ IsWord a.2)
    (hc : c.isAlphanum = false ∧ c ∉ " =\"".toList) : c ∉ attributes.flatMap renderAttribute := by
  intro hm
  obtain ⟨a, ha, hm⟩ := List.mem_flatMap.mp hm
  have hkey := (h a ha).1.not_mem hc.1
  have hvalue := (h a ha).2.not_mem hc.1
  simp_all [renderAttribute]

/-- Pieces are read back with a text before and behind every tag. -/
theorem readFrom_renderPieces {pieces : List Piece} (h : ∀ p ∈ pieces, Legible p) (word : Text) :
    readFrom false word (renderPieces pieces) = some (spread word pieces) := by
  induction pieces generalizing word with
  | nil => rfl
  | cons p rest ih =>
    have hp := h p List.mem_cons_self
    have hrest := ih fun q hq => h q (List.mem_cons_of_mem p hq)
    have hstep : renderPieces (p :: rest) = p.render ++ renderPieces rest := List.flatMap_cons
    rw [hstep]
    cases p with
    | content t => rw [Piece.render, readFrom_text hp, hrest, spread]
    | closing name =>
      have hl : '<' ∉ '/' :: name := by simpa using IsWord.not_mem hp (c := '<') (by decide)
      have hr : '>' ∉ '/' :: name := by simpa using IsWord.not_mem hp (c := '>') (by decide)
      have hrender : (Piece.closing name).render ++ renderPieces rest =
          '<' :: ('/' :: name ++ '>' :: renderPieces rest) := by simp [Piece.render]
      rw [hrender, readFrom_brackets hl hr rfl, hrest, spread, Option.map_some]
    | opening name attributes =>
      have hl : '<' ∉ name ++ attributes.flatMap renderAttribute := by
        rw [List.mem_append, not_or]
        exact ⟨hp.1.not_mem (by decide), not_mem_renderAttributes hp.2 (by decide)⟩
      have hr : '>' ∉ name ++ attributes.flatMap renderAttribute := by
        rw [List.mem_append, not_or]
        exact ⟨hp.1.not_mem (by decide), not_mem_renderAttributes hp.2 (by decide)⟩
      have hrender : (Piece.opening name attributes).render ++ renderPieces rest =
          '<' :: (name ++ attributes.flatMap renderAttribute ++ '>' :: renderPieces rest) := by
        simp [Piece.render]
      rw [hrender, readFrom_brackets hl hr (readTag_opening hp), hrest, spread, Option.map_some]

theorem readPieces_renderPieces {pieces : List Piece} (h : ∀ p ∈ pieces, Legible p) :
    readPieces (renderPieces pieces) = some (spread [] pieces) := readFrom_renderPieces h []

def readDocument (t : Text) : Option (List Piece) := (after? declaration t).bind readPieces

end LedgerExport.Request
