import LedgerExport.Json.Reader

/-! # How JSON is spelled

A relation between texts and the values that they spell, with white space wherever the grammar
allows it; it leaves out numbers and characters that are spelled by two escapes. The reader gives
for every spelled text the value that it spells. The main statement is `Spells.scan_eq`.
-/
namespace LedgerExport.Json
open JsonFault

def Gap (t : Text) : Prop := ∀ c ∈ t, c ∈ [' ', '\n', '\t', '\r']

def letterEscapes : List (Char × Char) :=
  [('"', '"'), ('\\', '\\'), ('/', '/'), ('b', '\x08'), ('f', '\x0c'), ('n', '\n'), ('r', '\r'),
    ('t', '\t')]

inductive SpellsChar : Text → Char → Prop where
  | plain {c : Char} (hc : 0x20 ≤ c.toNat) (hquote : c ≠ '"') (hslash : c ≠ '\\') :
    SpellsChar [c] c
  | letter {e c : Char} (h : (e, c) ∈ letterEscapes) : SpellsChar ['\\', e] c
  | digits {d₁ d₂ d₃ d₄ c : Char} (h : Text.numeral? 16 [d₁, d₂, d₃, d₄] = some c.toNat) :
    SpellsChar ['\\', 'u', d₁, d₂, d₃, d₄] c

inductive SpellsString : Text → Text → Prop where
  | nil : SpellsString [] []
  | cons {s b t : Text} {c : Char} (hc : SpellsChar s c) (hb : SpellsString b t) :
    SpellsString (s ++ b) (c :: t)

/-- A value, or what stands between the brackets of one. -/
inductive Part where
  | value (v : Json)
  | items (vs : List Json)
  | members (ms : List (Text × Json))

def words : List (Text × Json) :=
  [("null".toList, .null), ("true".toList, .bool true), ("false".toList, .bool false)]

inductive Spells : Text → Part → Prop where
  | word {w : Text} {v : Json} (h : (w, v) ∈ words) : Spells w (.value v)
  | string {b t : Text} (hb : SpellsString b t) : Spells ('"' :: (b ++ ['"'])) (.value (.string t))
  | emptyArray {g : Text} (hg : Gap g) : Spells ('[' :: (g ++ [']'])) (.value (.array []))
  | array {b : Text} {vs : List Json} (hb : Spells b (.items vs)) :
    Spells ('[' :: (b ++ [']'])) (.value (.array vs))
  | emptyObject {g : Text} (hg : Gap g) :
    Spells ('{' :: (g ++ ['}'])) (.value (.ofMembers []))
  | object {b : Text} {ms : List (Text × Json)} (hb : Spells b (.members ms)) :
    Spells ('{' :: (b ++ ['}'])) (.value (.ofMembers ms))
  | item {g t g' : Text} {v : Json} (hg : Gap g) (ht : Spells t (.value v)) (hg' : Gap g') :
    Spells (g ++ (t ++ g')) (.items [v])
  | items {g t g' b : Text} {v : Json} {vs : List Json} (hg : Gap g) (ht : Spells t (.value v))
    (hg' : Gap g') (hb : Spells b (.items vs)) :
    Spells (g ++ (t ++ (g' ++ ',' :: b))) (.items (v :: vs))
  | member {g k key g₁ g₂ t g' : Text} {v : Json} (hg : Gap g) (hk : SpellsString k key)
    (hg₁ : Gap g₁) (hg₂ : Gap g₂) (ht : Spells t (.value v)) (hg' : Gap g') :
    Spells (g ++ '"' :: (k ++ '"' :: (g₁ ++ ':' :: (g₂ ++ (t ++ g'))))) (.members [(key, v)])
  | members {g k key g₁ g₂ t g' b : Text} {v : Json} {ms : List (Text × Json)} (hg : Gap g)
    (hk : SpellsString k key) (hg₁ : Gap g₁) (hg₂ : Gap g₂) (ht : Spells t (.value v))
    (hg' : Gap g') (hb : Spells b (.members ms)) :
    Spells (g ++ '"' :: (k ++ '"' :: (g₁ ++ ':' :: (g₂ ++ (t ++ (g' ++ ',' :: b))))))
      (.members ((key, v) :: ms))

/-! ## Strings -/

theorem readString_escape {cs : Text} {c : Char} {n : Nat} (h : escape? cs = .ok (c, n)) :
    readStringFrom 0 ('\\' :: cs) = (readStringFrom n cs).map fun p => (c :: p.1, p.2) := by
  simp [readStringFrom, h]

theorem skipString_escape {cs : Text} {n : Nat} (h : escapeLength? cs = .ok n) :
    skipStringFrom 0 ('\\' :: cs) = skipStringFrom n cs := by
  simp [skipStringFrom, h]

theorem escape_digits {d₁ d₂ d₃ d₄ c : Char}
    (h : Text.numeral? 16 [d₁, d₂, d₃, d₄] = some c.toNat) (cs : Text) :
    escape? ('u' :: d₁ :: d₂ :: d₃ :: d₄ :: cs) = .ok (c, 5) ∧
      escapeLength? ('u' :: d₁ :: d₂ :: d₃ :: d₄ :: cs) = .ok 5 := by
  have hunit : unit? (d₁ :: d₂ :: d₃ :: d₄ :: cs) = .ok c.toNat := by
    unfold unit?
    simp only [h]
  have hvalid : c.toNat < 0xD800 ∨ 0xDFFF < c.toNat ∧ c.toNat < 0x110000 := c.valid
  have hlow : ¬ (0xDC00 ≤ c.toNat ∧ c.toNat ≤ 0xDFFF) := by omega
  have hhigh : ¬ (0xD800 ≤ c.toNat ∧ c.toNat ≤ 0xDBFF) := by omega
  constructor
  · simp [escape?, hunit, bind, Except.bind, hlow, hhigh]
  · simp [escapeLength?, hunit, Except.map]

/-- A character is read and skipped as it is spelled. -/
theorem readString_char {s : Text} {c : Char} (h : SpellsChar s c) (cs : Text) :
    readStringFrom 0 (s ++ cs) = (readStringFrom 0 cs).map (fun p => (c :: p.1, p.2)) ∧
      skipStringFrom 0 (s ++ cs) = skipStringFrom 0 cs := by
  cases h with
  | plain hc hquote hslash =>
    have hcontrol : ¬ c.toNat < 0x20 := Nat.not_lt.mpr hc
    constructor
    · simp [readStringFrom, hquote, hslash, hcontrol]
    · simp [skipStringFrom, hquote, hslash, hcontrol]
  | letter h =>
    simp only [letterEscapes, List.mem_cons, Prod.mk.injEq, List.not_mem_nil, or_false] at h
    rcases h with ⟨rfl, rfl⟩ | ⟨rfl, rfl⟩ | ⟨rfl, rfl⟩ | ⟨rfl, rfl⟩ | ⟨rfl, rfl⟩ | ⟨rfl, rfl⟩ |
      ⟨rfl, rfl⟩ | ⟨rfl, rfl⟩ <;> exact ⟨rfl, rfl⟩
  | digits h =>
    obtain ⟨hread, hskip⟩ := escape_digits h cs
    exact ⟨readString_escape hread, skipString_escape hskip⟩

theorem readString_spelled {b t : Text} (h : SpellsString b t) (rest : Text) :
    readString (b ++ '"' :: rest) = .ok (t, rest) ∧ skipString (b ++ '"' :: rest) = .ok rest := by
  induction h with
  | nil => exact ⟨rfl, rfl⟩
  | cons hc hb ih =>
    obtain ⟨hread, hskip⟩ := readString_char hc (_ ++ '"' :: rest)
    unfold readString skipString at ih ⊢
    rw [List.append_assoc, hread, hskip, ih.1, ih.2]
    exact ⟨rfl, rfl⟩

/-! ## Values -/

theorem isSpace_iff {c : Char} : isSpace c = true ↔ c ∈ [' ', '\n', '\t', '\r'] := by
  simp [isSpace, or_assoc]

theorem skipSpace_gap_append {g : Text} (h : Gap g) (t : Text) :
    skipSpace (g ++ t) = skipSpace t := by
  unfold skipSpace
  rw [List.dropWhile_append_of_pos]
  intro c hc
  exact isSpace_iff.mpr (h c hc)

theorem skipSpace_cons {c : Char} (h : isSpace c = false) (t : Text) :
    skipSpace (c :: t) = c :: t := by
  simp [skipSpace, h]

theorem scanValue_gap_append {g : Text} (h : Gap g) (fuel : Nat) (t : Text) :
    scanValue fuel (g ++ t) = scanValue fuel t := by
  cases fuel with
  | zero => simp [scanValue]
  | succ fuel => rw [scanValue, scanValue, skipSpace_gap_append h]

theorem skipSpace_append {t cs : Text} {c : Char} (h : skipSpace t = c :: cs) (rest : Text) :
    skipSpace (t ++ rest) = c :: (cs ++ rest) := by
  unfold skipSpace at h ⊢
  rw [List.dropWhile_append, h]
  rfl

def Opens (t : Text) : Prop := ∃ c cs, skipSpace t = c :: cs ∧ c ≠ ']'

theorem Opens.append {t : Text} (h : Opens t) (rest : Text) : Opens (t ++ rest) := by
  obtain ⟨c, cs, ht, hc⟩ := h
  exact ⟨c, cs ++ rest, skipSpace_append ht rest, hc⟩

section Steps
variable {fuel : Nat} {t r rest : Text} {v : Json}

theorem scanValue_word {w : Text} (h : (w, v) ∈ words) :
    scanValue (fuel + 1) (w ++ rest) = (v, some rest) := by
  simp only [words, List.mem_cons, Prod.mk.injEq, List.not_mem_nil, or_false] at h
  rcases h with ⟨rfl, rfl⟩ | ⟨rfl, rfl⟩ | ⟨rfl, rfl⟩ <;> rfl

theorem scanValue_string {b s : Text} (h : SpellsString b s) :
    scanValue (fuel + 1) ('"' :: (b ++ '"' :: rest)) = (.string s, some rest) := by
  obtain ⟨hread, hskip⟩ := readString_spelled h rest
  rw [scanValue, skipSpace_cons (by decide)]
  simp [scanString, hread, hskip, leaf, Except.map]

theorem scanValue_emptyArray (h : skipSpace r = ']' :: rest) :
    scanValue (fuel + 1) ('[' :: r) = (.array [], some rest) := by
  rw [scanValue, skipSpace_cons (by decide)]
  simp only [h]

theorem scanValue_array (h : Opens r) :
    scanValue (fuel + 1) ('[' :: r) = (.array (scanItems fuel r).1, (scanItems fuel r).2) := by
  obtain ⟨c, cs, hr, hc⟩ := h
  rw [scanValue, skipSpace_cons (by decide)]
  simp only [hr]
  split
  · next heq => simp at heq
  · next heq => simp [hc] at heq
  · rfl

theorem scanValue_emptyObject (h : skipSpace r = '}' :: rest) :
    scanValue (fuel + 1) ('{' :: r) = (.object [], some rest) := by
  rw [scanValue, skipSpace_cons (by decide)]
  simp only [h]

theorem scanValue_object (h : skipSpace r = '"' :: rest) :
    scanValue (fuel + 1) ('{' :: r) =
      (.object (scanMembers fuel rest).1, (scanMembers fuel rest).2) := by
  rw [scanValue, skipSpace_cons (by decide)]
  simp only [h]

theorem scanItems_last (hv : scanValue fuel t = (v, some r)) (hr : skipSpace r = ']' :: rest) :
    scanItems (fuel + 1) t = ([v], some rest) := by
  rw [scanItems, hv]
  simp only [hr]

theorem scanItems_more (hv : scanValue fuel t = (v, some r)) (hr : skipSpace r = ',' :: rest)
    (h : Opens rest) :
    scanItems (fuel + 1) t = (v :: (scanItems fuel rest).1, (scanItems fuel rest).2) := by
  obtain ⟨c, cs, hrest, hc⟩ := h
  rw [scanItems, hv]
  simp only [hr, hrest]
  split
  · next heq => simp at heq
  · next heq => simp [hc] at heq
  · rfl

def KeyEnds (t r : Text) : Prop := ∃ s, skipString t = .ok s ∧ skipSpace s = ':' :: r

theorem scanMembers_last {r' : Text} (hk : KeyEnds t r) (hv : scanValue fuel r = (v, some r'))
    (hr : skipSpace r' = '}' :: rest) :
    scanMembers (fuel + 1) t = ([(keyOf t, v)], some rest) := by
  obtain ⟨s, hskip, hs⟩ := hk
  rw [scanMembers, hskip]
  simp only [hs, hv, hr]

theorem scanMembers_more {r' u : Text} (hk : KeyEnds t r) (hv : scanValue fuel r = (v, some r'))
    (hr : skipSpace r' = ',' :: rest) (hrest : skipSpace rest = '"' :: u) :
    scanMembers (fuel + 1) t =
      ((keyOf t, v) :: (scanMembers fuel u).1, (scanMembers fuel u).2) := by
  obtain ⟨s, hskip, hs⟩ := hk
  rw [scanMembers, hskip]
  simp only [hs, hv, hr, hrest]

end Steps

/-- The reader makes the part of the text, whatever follows the bracket that closes it. -/
def Part.Read (t : Text) : Part → Prop
  | .value v => Opens t ∧
    ∀ fuel, t.length < fuel → ∀ rest, scanValue fuel (t ++ rest) = (v, some rest)
  | .items vs => Opens t ∧
    ∀ fuel, t.length + 1 < fuel → ∀ rest, scanItems fuel (t ++ ']' :: rest) = (vs, some rest)
  | .members ms => ∃ u, skipSpace t = '"' :: u ∧
    ∀ fuel, t.length < fuel → ∀ rest,
      scanMembers fuel (u ++ '}' :: rest) = (ms.map fun m => (.ok m.1, m.2), some rest)

theorem forall_fuel {P : Nat → Prop} {n : Nat} (h : ∀ fuel, n ≤ fuel → P (fuel + 1)) :
    ∀ fuel, n < fuel → P fuel := by
  intro fuel hf
  obtain ⟨fuel, rfl⟩ := Nat.exists_eq_add_one_of_ne_zero (Nat.ne_zero_of_lt hf)
  exact h fuel (Nat.le_of_lt_succ hf)

theorem opens_cons {c : Char} (hs : isSpace c = false) (hc : c ≠ ']') (t : Text) :
    Opens (c :: t) :=
  ⟨c, t, skipSpace_cons hs t, hc⟩

theorem opens_gap_append {g t : Text} (hg : Gap g) (h : Opens t) : Opens (g ++ t) := by
  unfold Opens
  rwa [skipSpace_gap_append hg]

theorem opens_word {w : Text} {v : Json} (h : (w, v) ∈ words) : Opens w := by
  simp only [words, List.mem_cons, Prod.mk.injEq, List.not_mem_nil, or_false] at h
  rcases h with ⟨rfl, -⟩ | ⟨rfl, -⟩ | ⟨rfl, -⟩ <;> exact opens_cons (by decide) (by decide) _

theorem skipSpace_gap_cons {g : Text} (hg : Gap g) {c : Char} (hc : isSpace c = false) (t : Text) :
    skipSpace (g ++ c :: t) = c :: t := by
  rw [skipSpace_gap_append hg, skipSpace_cons hc]

theorem keyEnds {k key g : Text} (hk : SpellsString k key) (hg : Gap g) (x : Text) :
    KeyEnds (k ++ '"' :: (g ++ ':' :: x)) x := by
  obtain ⟨-, hskip⟩ := readString_spelled hk (g ++ ':' :: x)
  exact ⟨_, hskip, skipSpace_gap_cons hg (by decide) x⟩

theorem keyOf_spelled {k key : Text} (hk : SpellsString k key) (x : Text) :
    keyOf (k ++ '"' :: x) = .ok key := by
  rw [keyOf, (readString_spelled hk x).1]
  rfl

/-- Every spelled part is read as it is spelled. -/
theorem Spells.read {t : Text} {p : Part} (h : Spells t p) : p.Read t := by
  induction h with
  | word h => exact ⟨opens_word h, forall_fuel fun fuel _ rest => scanValue_word h⟩
  | string hb =>
    refine ⟨opens_cons (by decide) (by decide) _, forall_fuel fun fuel _ rest => ?_⟩
    rw [List.cons_append, List.append_assoc]
    exact scanValue_string hb
  | emptyArray hg =>
    refine ⟨opens_cons (by decide) (by decide) _, forall_fuel fun fuel _ rest => ?_⟩
    rw [List.cons_append, List.append_assoc]
    exact scanValue_emptyArray (skipSpace_gap_cons hg (by decide) rest)
  | array hb ih =>
    obtain ⟨hopens, hitems⟩ := ih
    refine ⟨opens_cons (by decide) (by decide) _, forall_fuel fun fuel hf rest => ?_⟩
    have hfuel := hitems fuel (by simp at hf; omega) rest
    rw [List.cons_append, List.append_assoc, List.singleton_append,
      scanValue_array (hopens.append _), hfuel]
  | emptyObject hg =>
    refine ⟨opens_cons (by decide) (by decide) _, forall_fuel fun fuel _ rest => ?_⟩
    rw [List.cons_append, List.append_assoc]
    exact scanValue_emptyObject (skipSpace_gap_cons hg (by decide) rest)
  | object hb ih =>
    obtain ⟨u, hu, hmembers⟩ := ih
    refine ⟨opens_cons (by decide) (by decide) _, forall_fuel fun fuel hf rest => ?_⟩
    have hfuel := hmembers fuel (by simp at hf; omega) rest
    rw [List.cons_append, List.append_assoc, List.singleton_append,
      scanValue_object (skipSpace_append hu _), hfuel]
    rfl
  | item hg ht hg' ih =>
    obtain ⟨hopens, hvalue⟩ := ih
    refine ⟨opens_gap_append hg (hopens.append _), forall_fuel fun fuel hf rest => ?_⟩
    have hfuel := hvalue fuel (by simp at hf; omega)
    rw [List.append_assoc, List.append_assoc]
    refine scanItems_last ?_ (skipSpace_gap_cons hg' (by decide) rest)
    rw [scanValue_gap_append hg, hfuel]
  | items hg ht hg' hb iht ihb =>
    obtain ⟨hopens, hvalue⟩ := iht
    obtain ⟨hnext, hitems⟩ := ihb
    refine ⟨opens_gap_append hg (hopens.append _), forall_fuel fun fuel hf rest => ?_⟩
    have hfuel := hvalue fuel (by simp at hf; omega)
    have hmore := hitems fuel (by simp at hf; omega) rest
    simp only [List.append_assoc, List.cons_append]
    rw [scanItems_more _ (skipSpace_gap_cons hg' (by decide) _) (hnext.append _), hmore]
    rw [scanValue_gap_append hg, hfuel]
  | member hg hk hg₁ hg₂ ht hg' ih =>
    obtain ⟨-, hvalue⟩ := ih
    refine ⟨_, skipSpace_gap_cons hg (by decide) _, forall_fuel fun fuel hf rest => ?_⟩
    have hfuel := hvalue fuel (by simp at hf; omega)
    simp only [List.append_assoc, List.cons_append]
    rw [scanMembers_last (keyEnds hk hg₁ _) _ (skipSpace_gap_cons hg' (by decide) rest),
      keyOf_spelled hk]
    · rfl
    · rw [scanValue_gap_append hg₂, hfuel]
  | members hg hk hg₁ hg₂ ht hg' hb iht ihb =>
    obtain ⟨-, hvalue⟩ := iht
    obtain ⟨u, hu, hmembers⟩ := ihb
    refine ⟨_, skipSpace_gap_cons hg (by decide) _, forall_fuel fun fuel hf rest => ?_⟩
    have hfuel := hvalue fuel (by simp at hf; omega)
    have hmore := hmembers fuel (by simp at hf; omega) rest
    simp only [List.append_assoc, List.cons_append]
    rw [scanMembers_more (keyEnds hk hg₁ _) _ (skipSpace_gap_cons hg' (by decide) _)
      (skipSpace_append hu _), hmore, keyOf_spelled hk, List.map_cons]
    rw [scanValue_gap_append hg₂, hfuel]

/-- The reader gives for a text the value that it spells, up to its end. -/
theorem Spells.scan_eq {t : Text} {v : Json} (h : Spells t (.value v)) :
    scan t = (v, some []) := by
  obtain ⟨-, hvalue⟩ := h.read
  have hscan := hvalue (2 * t.length + 2) (by omega) []
  rwa [List.append_nil] at hscan

end LedgerExport.Json
