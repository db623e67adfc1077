import LedgerExport.Proofs.Reply.Runs
import LedgerExport.Request.Document

/-! # Replies as texts between tags

A reply is a text and then tags with a text behind each. The replacements that make a reply into
records and cells never reach over a tag, so that together they are one scan over the tags: `scan`
keeps the text read since the last tag that stays. The main statement is `normalize_spell`.
-/
namespace LedgerExport.Reply
open Text

structure Digits where
  text : Text
  ne_nil : text ≠ []
  decimal : ∀ c ∈ text, isDecimalDigit c = true

inductive Tag where
  | opening (number : Digits)
  | closing (number : Digits)
  | padding
  | frameStart
  | frameEnd

def frameStartText : Text := "<ENVELOPE>".toList
def frameEndText : Text := "</ENVELOPE>".toList

def Tag.render : Tag → Text
  | .opening number => '<' :: 'F' :: (number.text ++ ['>'])
  | .closing number => '<' :: '/' :: 'F' :: (number.text ++ ['>'])
  | .padding => blankPair
  | .frameStart => frameStartText
  | .frameEnd => frameEndText

def spell (t : Text) : List (Tag × Text) → Text
  | [] => t
  | (g, u) :: rest => t ++ (g.render ++ spell u rest)

theorem spell_append (t u : Text) (segments : List (Tag × Text)) :
    spell (t ++ u) segments = t ++ spell u segments := by
  cases segments with
  | nil => rfl
  | cons s rest => rw [spell, spell, List.append_assoc]

theorem isDecimalDigit_ne {c d : Char} (hc : isDecimalDigit c = true)
    (hd : isDecimalDigit d = false) : c ≠ d := by
  rintro rfl
  rw [hc] at hd
  exact absurd hd (by decide)

theorem isBlank_of_isDecimalDigit {c : Char} (hc : isDecimalDigit c = true) :
    isBlank c = false := by
  have hall : ∀ z ∈ digitZeros, ∀ k < 10, isBlank (Char.ofNat (z + k)) = false := by decide
  obtain ⟨z, hz, hzc⟩ := List.any_eq_true.mp hc
  have hle : z ≤ c.toNat ∧ c.toNat < z + 10 := by simpa using hzc
  have h := hall z hz (c.toNat - z) (by omega)
  rwa [show z + (c.toNat - z) = c.toNat by omega, Char.ofNat_toNat] at h

namespace Digits
variable (d : Digits)

theorem not_mem {c : Char} (hc : isDecimalDigit c = false) : c ∉ d.text :=
  fun h => isDecimalDigit_ne (d.decimal c h) hc rfl

theorem not_mem_tail {c : Char} (hc : isDecimalDigit c = false) (hgt : c ≠ '>') :
    c ∉ d.text ++ ['>'] := by
  rw [List.mem_append, List.mem_singleton, not_or]
  exact ⟨d.not_mem hc, hgt⟩

theorem solid : ∀ c ∈ d.text ++ ['>'], isBlank c = false := by
  intro c hc
  rcases List.mem_append.mp hc with h | h
  · exact isBlank_of_isDecimalDigit (d.decimal c h)
  · rw [List.mem_singleton.mp h]
    decide

theorem takeWhile_digits (rest : Text) :
    (d.text ++ '>' :: rest).takeWhile isDecimalDigit = d.text := by
  rw [List.takeWhile_append_of_pos d.decimal, List.takeWhile_cons_of_neg (by decide),
    List.append_nil]

theorem numberedTag_eq_some (head out rest : Text) :
    numberedTag head out (head ++ (d.text ++ '>' :: rest)) =
      some (head.length + d.text.length, out) := by
  obtain ⟨c, cs, hd⟩ := List.exists_cons_of_ne_nil d.ne_nil
  have ht := d.takeWhile_digits rest
  rw [numberedTag, after?_append]
  rw [hd] at ht ⊢
  simp only [ht, List.drop_left]

end Digits

section Trimming
variable {w t x : Text}

def trimEnd (t : Text) : Text := t.rdropWhile isBlank

theorem trimEnd_blank (hw : AllBlank w) : trimEnd w = [] :=
  List.rdropWhile_eq_nil_iff.mpr hw

theorem trimEnd_append_cons {c : Char} (hc : isBlank c = false) (a b : Text) :
    trimEnd (a ++ c :: b) = a ++ c :: trimEnd b := by
  have h : (b.reverse ++ c :: a.reverse).dropWhile isBlank =
      b.reverse.dropWhile isBlank ++ c :: a.reverse := by
    rw [List.dropWhile_append]
    split
    · next hb => rw [List.isEmpty_iff.mp hb, List.dropWhile_cons_of_neg (by simp [hc]),
        List.nil_append]
    · rfl
  rw [trimEnd, List.rdropWhile, List.reverse_append, List.reverse_cons, List.append_assoc,
    List.singleton_append, h]
  simp [trimEnd, List.rdropWhile]

theorem trimEnd_subset (t : Text) : trimEnd t ⊆ t := (List.rdropWhile_prefix isBlank t).subset

theorem blankBeforeTag_of_solid {c : Char} {cs : Text} (hc : isBlank c = false) :
    blankBeforeTag (c :: cs) = none := by
  rw [blankBeforeTag, if_neg]
  simp [hc]

theorem replaceBy_blankBeforeTag_run (hw : AllBlank w) (hx : Solid x) (hn : ¬ ['<', 'F'] <+: x) :
    replaceBy blankBeforeTag (w ++ x) = w ++ replaceBy blankBeforeTag x := by
  induction w with
  | nil => rfl
  | cons c cs ih =>
    have hrule : blankBeforeTag (c :: (cs ++ x)) = none := by
      rw [blankBeforeTag, dropWhile_append_solid hw.tail hx, startsWith_eq_false_iff.mpr hn,
        Bool.and_false, if_neg Bool.false_ne_true]
    rw [List.cons_append, replaceBy_cons_none hrule, ih hw.tail, List.cons_append]

/-- White space before the head of a tag goes. -/
theorem replaceBy_blankBeforeTag_cut (hw : AllBlank w) (x : Text) :
    replaceBy blankBeforeTag (w ++ '<' :: 'F' :: x) =
      '<' :: 'F' :: replaceBy blankBeforeTag x := by
  cases w with
  | nil =>
    rw [List.nil_append, replaceBy_cons_none (blankBeforeTag_of_solid (by decide)),
      replaceBy_cons_none (blankBeforeTag_of_solid (by decide))]
  | cons c cs =>
    have hx : Solid ('<' :: 'F' :: x) := solid_cons (by decide)
    have hrule : blankBeforeTag (c :: (cs ++ '<' :: 'F' :: x)) =
        some (cs.length + 2, ['<', 'F']) := by
      rw [blankBeforeTag, dropWhile_append_solid hw.tail hx, takeWhile_append_solid hw.tail hx,
        if_pos]
      rw [hw c List.mem_cons_self, Bool.true_and, startsWith_iff]
      exact ⟨x, rfl⟩
    rw [List.cons_append, replaceBy_cons_some hrule]
    simp

theorem replaceBy_blankBeforeTag_opening (ht : '<' ∉ t) (x : Text) :
    replaceBy blankBeforeTag (t ++ '<' :: 'F' :: x) =
      trimEnd t ++ '<' :: 'F' :: replaceBy blankBeforeTag x := by
  induction t using run_induction with
  | run w hw => rw [replaceBy_blankBeforeTag_cut hw, trimEnd_blank hw, List.nil_append]
  | step w c r hw hc ih =>
    have hlt : c ≠ '<' := fun h => ht (by simp [h])
    have hn : ¬ ['<', 'F'] <+: c :: (r ++ '<' :: 'F' :: x) :=
      fun h => hlt (List.cons_prefix_cons.mp h).1.symm
    rw [List.append_assoc, List.cons_append, replaceBy_blankBeforeTag_run hw (solid_cons hc) hn,
      replaceBy_cons_none (blankBeforeTag_of_solid hc), ih (fun h => ht (by simp [h])),
      trimEnd_append_cons hc, List.append_assoc, List.cons_append]

theorem replaceBy_blankBeforeTag_keep (ht : '<' ∉ t) (hx : Solid x) (hn : ¬ ['<', 'F'] <+: x) :
    replaceBy blankBeforeTag (t ++ x) = t ++ replaceBy blankBeforeTag x := by
  induction t using run_induction with
  | run w hw => exact replaceBy_blankBeforeTag_run hw hx hn
  | step w c r hw hc ih =>
    have hlt : c ≠ '<' := fun h => ht (by simp [h])
    have hn' : ¬ ['<', 'F'] <+: c :: (r ++ x) := fun h => hlt (List.cons_prefix_cons.mp h).1.symm
    rw [List.append_assoc, List.cons_append, replaceBy_blankBeforeTag_run hw (solid_cons hc) hn',
      replaceBy_cons_none (blankBeforeTag_of_solid hc), ih (fun h => ht (by simp [h])),
      List.append_assoc, List.cons_append]

end Trimming

end LedgerExport.Reply
