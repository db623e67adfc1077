import LedgerExport.Json.Writer
import LedgerExport.Proofs.Json.Spelling

/-! # What is written is spelled as JSON is

A value without numbers is spelled by its compact form, so the reader gives it back and no two of
these values have the same form; the indented form spells it as well. The main statements are
`Plain.spells`, `compact_inj` and `Plain.spells_indentedAt`.
-/
namespace LedgerExport.Json

/-- A value without numbers that can be read throughout. -/
inductive Plain : Json → Prop where
  | word {w : Text} {v : Json} (h : (w, v) ∈ words) : Plain v
  | string (t : Text) : Plain (.string t)
  | array {vs : List Json} (h : ∀ v ∈ vs, Plain v) : Plain (.array vs)
  | ofMembers {ms : List (Text × Json)} (h : ∀ m ∈ ms, Plain m.2) : Plain (.ofMembers ms)

/-! ## Strings -/

theorem hexadecimal_control {n : Nat} (h : n < 0x20) :
    ∃ d₁ d₂ d₃ d₄, Text.padZero 4 (Text.hexadecimal n) = [d₁, d₂, d₃, d₄] ∧
      Text.numeral? 16 [d₁, d₂, d₃, d₄] = some n := by
  have hall : ∀ n < 0x20, (Text.padZero 4 (Text.hexadecimal n)).length = 4 ∧
      Text.numeral? 16 (Text.padZero 4 (Text.hexadecimal n)) = some n := by decide
  obtain ⟨hlength, hvalue⟩ := hall n h
  generalize Text.padZero 4 (Text.hexadecimal n) = t at hlength hvalue
  match t, hlength, hvalue with
  | [d₁, d₂, d₃, d₄], _, hvalue => exact ⟨d₁, d₂, d₃, d₄, rfl, hvalue⟩

theorem spellsChar_writeChar (c : Char) : SpellsChar (writeChar c) c := by
  unfold writeChar
  split
  case h_8 hquote hslash _ _ _ _ _ =>
    split
    · next hcontrol =>
      obtain ⟨d₁, d₂, d₃, d₄, hdigits, hvalue⟩ := hexadecimal_control hcontrol
      rw [hdigits]
      exact .digits hvalue
    · next hcontrol => exact .plain (Nat.le_of_not_lt hcontrol) hquote hslash
  all_goals exact .letter (by decide)

theorem spellsString_flatMap_writeChar (t : Text) : SpellsString (t.flatMap writeChar) t := by
  induction t with
  | nil => exact .nil
  | cons c t ih =>
    rw [List.flatMap_cons]
    exact .cons (spellsChar_writeChar c) ih

example : writeString "\"\x01\n€".toList = "\"\\\"\\u0001\\n€\"".toList := by decide

/-! ## Values -/

theorem compact_word {w : Text} {v : Json} (h : (w, v) ∈ words) : compact v = w := by
  simp only [words, List.mem_cons, Prod.mk.injEq, List.not_mem_nil, or_false] at h
  rcases h with ⟨rfl, rfl⟩ | ⟨rfl, rfl⟩ | ⟨rfl, rfl⟩ <;> simp [compact]

theorem gap_nil : Gap [] := by
  intro c hc
  simp at hc

section Lists
variable {write : Json → Text} {g g' : Text}

/-- Items are spelled if they are written with commas between them and a gap behind each comma. -/
theorem spells_items (writes : List Json → Text) (hg : Gap g) (hg' : Gap g')
    (last : ∀ v, writes [v] = write v)
    (more : ∀ v u vs, writes (v :: u :: vs) = write v ++ ',' :: (g ++ writes (u :: vs)))
    {v : Json} {vs : List Json} (h : ∀ u ∈ v :: vs, Spells (write u) (.value u)) :
    Spells (g ++ (writes (v :: vs) ++ g')) (.items (v :: vs)) := by
  induction vs generalizing v with
  | nil =>
    rw [last]
    exact .item hg (h v List.mem_cons_self) hg'
  | cons u vs ih =>
    have hv := h v List.mem_cons_self
    have hrest := ih fun w hw => h w (List.mem_cons_of_mem v hw)
    rw [more, List.append_assoc, List.cons_append, List.append_assoc]
    exact .items hg hv gap_nil hrest

/-- Members are spelled likewise, with a gap behind each colon. -/
theorem spells_members (writes : List (Except JsonFault Text × Json) → Text) {behind : Text}
    (hg : Gap g) (hg' : Gap g') (hbehind : Gap behind)
    (last : ∀ k v, writes [(k, v)] = writeKey k ++ ':' :: (behind ++ write v))
    (more : ∀ k v m ms, writes ((k, v) :: m :: ms) =
      writeKey k ++ ':' :: (behind ++ (write v ++ ',' :: (g ++ writes (m :: ms)))))
    {m : Text × Json} {ms : List (Text × Json)}
    (h : ∀ n ∈ m :: ms, Spells (write n.2) (.value n.2)) :
    Spells (g ++ (writes ((m :: ms).map fun n => (.ok n.1, n.2)) ++ g')) (.members (m :: ms)) := by
  have hkey (t : Text) := spellsString_flatMap_writeChar t
  induction ms generalizing m with
  | nil =>
    have hmember := Spells.member hg (hkey m.1) gap_nil hbehind (h m List.mem_cons_self) hg'
    rw [List.map_singleton, last]
    simpa [writeKey, writeString] using hmember
  | cons n ms ih =>
    have hm := h m List.mem_cons_self
    have hrest := ih fun l hl => h l (List.mem_cons_of_mem m hl)
    have hmembers := Spells.members hg (hkey m.1) gap_nil hbehind hm gap_nil hrest
    rw [List.map_cons, List.map_cons, more]
    simpa [writeKey, writeString] using hmembers

end Lists

/-- The compact form of a value spells it. -/
theorem Plain.spells {v : Json} (h : Plain v) : Spells (compact v) (.value v) := by
  induction h with
  | word h =>
    rw [compact_word h]
    exact .word h
  | string t =>
    have ht := Spells.string (spellsString_flatMap_writeChar t)
    simpa [compact, writeString] using ht
  | @array vs _ ih =>
    cases vs with
    | nil => simpa [compact, compactItems] using Spells.emptyArray gap_nil
    | cons v vs =>
      have hitems := spells_items compactItems gap_nil gap_nil
        (by simp [compactItems]) (by simp [compactItems]) ih
      simpa [compact] using Spells.array hitems
  | @ofMembers ms _ ih =>
    cases ms with
    | nil => simpa [compact, Json.ofMembers, compactMembers] using Spells.emptyObject gap_nil
    | cons m ms =>
      have hmembers := spells_members compactMembers gap_nil gap_nil gap_nil
        (by simp [compactMembers]) (by simp [compactMembers]) ih
      simpa [compact, Json.ofMembers] using Spells.object hmembers

/-- The compact form tells values apart. -/
theorem compact_inj {v w : Json} (hv : Plain v) (hw : Plain w) : compact v = compact w ↔ v = w := by
  constructor
  · intro h
    have hscan := hv.spells.scan_eq
    rw [h, hw.spells.scan_eq] at hscan
    exact (Prod.mk.inj hscan).1.symm
  · rintro rfl
    rfl

/-! ## The indented form -/

theorem gap_newLine (depth : Nat) : Gap (newLine depth) := by
  intro c hc
  rcases List.mem_cons.mp hc with rfl | hc
  · decide
  · rw [List.eq_of_mem_replicate hc]
    decide

theorem gap_space : Gap [' '] := by
  intro c hc
  rw [List.mem_singleton.mp hc]
  decide

theorem indentedAt_word {w : Text} {v : Json} (h : (w, v) ∈ words) (depth : Nat) :
    indentedAt depth v = compact v := by
  simp only [words, List.mem_cons, Prod.mk.injEq, List.not_mem_nil, or_false] at h
  rcases h with ⟨rfl, rfl⟩ | ⟨rfl, rfl⟩ | ⟨rfl, rfl⟩ <;> simp [indentedAt]

/-- A value without numbers is also spelled by its indented form, at any depth. -/
theorem Plain.spells_indentedAt {v : Json} (h : Plain v) (depth : Nat) :
    Spells (indentedAt depth v) (.value v) := by
  induction h generalizing depth with
  | word h =>
    rw [indentedAt_word h]
    exact (Plain.word h).spells
  | string t => simpa [indentedAt] using (Plain.string t).spells
  | @array vs _ ih =>
    cases vs with
    | nil => simpa [indentedAt] using Spells.emptyArray gap_nil
    | cons v vs =>
      have hitems := spells_items (indentedItems (depth + 1)) (gap_newLine (depth + 1))
        (gap_newLine depth) (by simp [indentedItems]) (by simp [indentedItems])
        fun u hu => ih u hu (depth + 1)
      simpa [indentedAt] using Spells.array hitems
  | @ofMembers ms _ ih =>
    cases ms with
    | nil => simpa [indentedAt, Json.ofMembers] using Spells.emptyObject gap_nil
    | cons m ms =>
      have hmembers := spells_members (indentedMembers (depth + 1))
        (gap_newLine (depth + 1)) (gap_newLine depth) gap_space (by simp [indentedMembers])
        (by simp [indentedMembers]) fun n hn => ih n hn (depth + 1)
      simpa [indentedAt, Json.ofMembers] using Spells.object hmembers

end LedgerExport.Json
