import LedgerExport.Proofs.Json.Following
import LedgerExport.Proofs.Steps
import Mathlib.Data.List.DropRight

/-! # Values inside objects

A value that is the whole of a text is read in the same way as the value of a member: the scan goes
on alike with a closing brace behind the text. The main statement is `Holds.wrap`.
-/
namespace LedgerExport.Json
open JsonFault

/-- A scanner finds the same if a closing brace stands behind the text, and leaves it. -/
def Unmoved {α : Type} (x : Text) (scan scan' : Text → α × Option Text) : Prop :=
  ∀ t a rest, scan t = (a, some rest) →
    scan' (t ++ '}' :: x) = (a, some (rest ++ '}' :: x))

section Values
variable {x : Text}

theorem unmoved_scanWord (w : Text) (v : Json) : Unmoved x (scanWord w v) (scanWord w v) := by
  intro t a rest h
  unfold scanWord at h
  split at h
  · next r hr =>
    obtain ⟨rfl, hrest⟩ := Prod.mk.inj h
    obtain rfl := Option.some.inj hrest
    rw [Text.after?_eq_some_iff.mp hr, scanWord, List.append_assoc, Text.after?_append]
  · split at h <;> cases h

theorem leaf_ok (read : Except JsonFault Json) :
    ∃ v, ∀ rest, leaf read (.ok rest) = (v, some rest) := by
  cases read with
  | error f => exact ⟨.unreadable f, fun _ => rfl⟩
  | ok v => exact ⟨v, fun _ => rfl⟩

theorem leaf_error (read : Except JsonFault Json) (f : JsonFault) :
    (leaf read (.error f)).2 = none := by
  cases read <;> rfl

/-- A leaf is unmoved if both of its readers are wherever skipping comes to its end. -/
theorem unmoved_leaf {read : Text → Except JsonFault Json} {skip : Text → Except JsonFault Text}
    (hread : ∀ t rest, skip t = .ok rest → read (t ++ '}' :: x) = read t)
    (hskip : ∀ t rest, skip t = .ok rest → skip (t ++ '}' :: x) = .ok (rest ++ '}' :: x)) :
    Unmoved x (fun t => leaf (read t) (skip t)) (fun t => leaf (read t) (skip t)) := by
  intro t a rest h
  dsimp only at h ⊢
  cases hs : skip t with
  | error f =>
    have hnone := leaf_error (read t) f
    rw [← hs, h] at hnone
    cases hnone
  | ok r =>
    obtain ⟨v, hv⟩ := leaf_ok (read t)
    rw [hs, hv] at h
    rw [hread t r hs, hskip t r hs, hv]
    cases h
    rfl

theorem unmoved_scanString : Unmoved x scanString scanString :=
  unmoved_leaf
    (fun t rest h => by
      rw [readString_append h]
      cases readString t <;> rfl)
    (fun t rest h => skipString_append h _)

theorem unmoved_scanNumber (isNegative : Bool) :
    Unmoved x (scanNumber isNegative) (scanNumber isNegative) :=
  unmoved_leaf
    (fun _ _ h => map_fst_congr (readNumber_append x h isNegative) Json.number)
    (fun _ _ h => skipNumber_append x h)

variable {fuel fuel' : Nat}

theorem scanValue_skipSpace {t r : Text} {c : Char} (h : skipSpace t = c :: r) :
    scanValue fuel t = scanValue fuel (c :: r) := by
  have hagain : skipSpace (c :: r) = c :: r := by
    rw [← h, skipSpace, skipSpace, List.dropWhile_idempotent]
  cases fuel with
  | zero => rw [scanValue, scanValue]
  | succ fuel => rw [scanValue, scanValue, h, hagain]

theorem scanValue_number {c : Char} {r : Text} (hc : c.isDigit = true) :
    scanValue (fuel + 1) (c :: r) = scanNumber false (c :: r) := by
  have hne (d : Char) (hd : d.isDigit = false) : c ≠ d := by
    rintro rfl
    rw [hc] at hd
    cases hd
  have hspace : isSpace c = false := by
    simp [isSpace, hne ' ' (by decide), hne '\n' (by decide), hne '\t' (by decide),
      hne '\r' (by decide)]
  rw [scanValue, skipSpace_cons hspace]
  split
  · next heq => cases heq
  iterate 7 (· next heq => exact absurd (List.cons.inj heq).1 (hne _ (by decide)))
  · next heq =>
    obtain ⟨rfl, rfl⟩ := List.cons.inj heq
    rw [if_pos hc]

theorem opens_of_skipSpace {t : Text} (hend : skipSpace t ≠ [])
    (hclose : ∀ r, skipSpace t ≠ ']' :: r) : Opens t := by
  cases ht : skipSpace t with
  | nil => exact absurd ht hend
  | cons c cs => exact ⟨c, cs, ht, fun hc => hclose cs (hc ▸ ht)⟩

/-- One step for a value, from those for what stands between its brackets. -/
theorem unmoved_scanValue (hitems : Unmoved x (scanItems fuel) (scanItems fuel'))
    (hmembers : Unmoved x (scanMembers fuel) (scanMembers fuel')) :
    Unmoved x (scanValue (fuel + 1)) (scanValue (fuel' + 1)) := by
  intro t v rest h
  rw [scanValue] at h
  split at h
  · cases h
  · next r hr =>
    rw [scanValue, skipSpace_append hr]
    exact unmoved_scanWord _ _ r v rest h
  · next r hr =>
    rw [scanValue, skipSpace_append hr]
    exact unmoved_scanWord _ _ r v rest h
  · next r hr =>
    rw [scanValue, skipSpace_append hr]
    exact unmoved_scanWord _ _ r v rest h
  · next r hr =>
    rw [scanValue, skipSpace_append hr]
    exact unmoved_scanNumber true r v rest h
  · next r hr =>
    rw [scanValue, skipSpace_append hr]
    exact unmoved_scanString r v rest h
  · next r hr =>
    rw [scanValue_skipSpace (skipSpace_append hr _)]
    split at h
    · cases h
    · next r' hr' =>
      rw [scanValue_emptyArray (skipSpace_append hr' _)]
      cases h
      rfl
    · next hend hclose =>
      have hopens := opens_of_skipSpace hend hclose
      obtain ⟨rfl, hscan⟩ := Prod.mk.inj h
      rw [scanValue_array (hopens.append _), hitems r _ rest (Prod.ext rfl hscan)]
  · next r hr =>
    rw [scanValue_skipSpace (skipSpace_append hr _)]
    split at h
    · cases h
    · next r' hr' =>
      rw [scanValue_emptyObject (skipSpace_append hr' _)]
      cases h
      rfl
    · next r' hr' =>
      obtain ⟨rfl, hscan⟩ := Prod.mk.inj h
      rw [scanValue_object (skipSpace_append hr' _), hmembers r' _ rest (Prod.ext rfl hscan)]
    · cases h
  · next c r hn ht hf hminus hquote hopen hbrace hr =>
    split at h
    · next hdigit =>
      rw [scanValue_skipSpace (skipSpace_append hr _), scanValue_number hdigit]
      exact unmoved_scanNumber false (c :: r) v rest h
    · cases h

theorem unmoved_scanItems (hvalue : Unmoved x (scanValue fuel) (scanValue fuel'))
    (hitems : Unmoved x (scanItems fuel) (scanItems fuel')) :
    Unmoved x (scanItems (fuel + 1)) (scanItems (fuel' + 1)) := by
  intro t vs rest h
  rw [scanItems] at h
  split at h
  · cases h
  · next v r hv =>
    have hv' := hvalue t v r hv
    split at h
    · cases h
    · next r' hr =>
      cases h
      exact scanItems_last hv' (skipSpace_append hr _)
    · next r' hr =>
      split at h
      · cases h
      · cases h
      · next hend hclose =>
        have hopens := opens_of_skipSpace hend hclose
        obtain ⟨rfl, hscan⟩ := Prod.mk.inj h
        rw [scanItems_more hv' (skipSpace_append hr _) (hopens.append _),
          hitems r' _ rest (Prod.ext rfl hscan)]
    · cases h

theorem keyEnds_append {t r : Text} (h : KeyEnds t r) (y : Text) : KeyEnds (t ++ y) (r ++ y) := by
  obtain ⟨s, hskip, hs⟩ := h
  exact ⟨s ++ y, skipString_append hskip y, skipSpace_append hs y⟩

theorem keyOf_append {t r : Text} (h : KeyEnds t r) (y : Text) : keyOf (t ++ y) = keyOf t := by
  obtain ⟨s, hskip, -⟩ := h
  rw [keyOf, keyOf, readString_append hskip]
  cases readString t <;> rfl

theorem unmoved_scanMembers (hvalue : Unmoved x (scanValue fuel) (scanValue fuel'))
    (hmembers : Unmoved x (scanMembers fuel) (scanMembers fuel')) :
    Unmoved x (scanMembers (fuel + 1)) (scanMembers (fuel' + 1)) := by
  intro t ms rest h
  rw [scanMembers] at h
  split at h
  · split at h <;> cases h
  · next s hskip =>
    split at h
    · cases h
    · next r hs =>
      have hkey : KeyEnds t r := ⟨s, hskip, hs⟩
      -- the key may have no value that can be read; what it has stays as it is
      rw [← keyOf_append hkey ('}' :: x)] at h
      split at h
      · cases h
      · next v r' hv =>
        have hv' := hvalue r v r' hv
        split at h
        · cases h
        · next u hu =>
          cases h
          exact scanMembers_last (keyEnds_append hkey _) hv' (skipSpace_append hu _)
        · next u hu =>
          split at h
          · cases h
          · cases h
          · next u' hu' =>
            obtain ⟨rfl, hscan⟩ := Prod.mk.inj h
            rw [scanMembers_more (keyEnds_append hkey _) hv' (skipSpace_append hu _)
              (skipSpace_append hu' _), hmembers u' _ rest (Prod.ext rfl hscan)]
          · cases h
        · cases h
    · cases h

/-- With a closing brace behind the text, and with more fuel, every part is read as it was. -/
theorem unmoved_scan (fuel fuel' : Nat) (h : fuel ≤ fuel') :
    Unmoved x (scanValue fuel) (scanValue fuel') ∧ Unmoved x (scanItems fuel) (scanItems fuel') ∧
      Unmoved x (scanMembers fuel) (scanMembers fuel') := by
  induction fuel generalizing fuel' with
  | zero =>
    -- without fuel nothing is left over
    refine ⟨fun t v rest h => ?_, fun t vs rest h => ?_, fun t ms rest h => ?_⟩
    · rw [scanValue] at h
      cases h
    · rw [scanItems] at h
      cases h
    · rw [scanMembers] at h
      cases h
  | succ fuel ih =>
    obtain ⟨fuel', rfl⟩ := Nat.exists_eq_add_one_of_ne_zero (Nat.ne_zero_of_lt h)
    obtain ⟨hvalue, hitems, hmembers⟩ := ih fuel' (Nat.le_of_succ_le_succ h)
    exact ⟨unmoved_scanValue hitems hmembers, unmoved_scanItems hvalue hitems,
      unmoved_scanMembers hvalue hmembers⟩

end Values

/-! ## Texts that hold a value -/

def Holds (t : Text) (v : Json) : Prop := ∃ rest, scan t = (v, some rest) ∧ skipSpace rest = []

/-- A text of an object whose only member has the name and a value as `t` writes it. -/
def Wraps (name t b : Text) : Prop :=
  ∃ g₀ g₁ k g₂ g₃, Gap g₀ ∧ Gap g₁ ∧ SpellsString k name ∧ Gap g₂ ∧ Gap g₃ ∧
    b = g₀ ++ '{' :: (g₁ ++ '"' :: (k ++ '"' :: (g₂ ++ ':' :: (t ++ '}' :: g₃))))

theorem skipSpace_append_of_eq_nil {t : Text} (h : skipSpace t = []) (u : Text) :
    skipSpace (t ++ u) = skipSpace u := by
  unfold skipSpace at h ⊢
  rw [List.dropWhile_append, h]
  rfl

/-- The object in which a value is wrapped is read with the value as it is read alone. -/
theorem Holds.wrap {name t b : Text} {v : Json} (h : Holds t v) (hb : Wraps name t b) :
    Holds b (.ofMembers [(name, v)]) := by
  obtain ⟨rest, hscan, hrest⟩ := h
  obtain ⟨g₀, g₁, k, g₂, g₃, hg₀, hg₁, hk, hg₂, hg₃, rfl⟩ := hb
  have hend : skipSpace g₃ = [] := by simpa [skipSpace] using skipSpace_gap_append hg₃ []
  refine ⟨g₃, ?_, hend⟩
  have hclose : skipSpace (rest ++ '}' :: g₃) = '}' :: g₃ := by
    rw [skipSpace_append_of_eq_nil hrest, skipSpace_cons (by decide)]
  -- the scan of the whole text comes to the value with no less fuel than the value has alone
  rw [scan, scanValue_gap_append hg₀]
  generalize hn : List.length _ = n
  have hfuel : 2 * t.length + 2 ≤ 2 * n := by
    simp only [List.length_append, List.length_cons] at hn
    omega
  obtain ⟨hvalue, -, -⟩ := unmoved_scan (x := g₃) (2 * t.length + 2) (2 * n) hfuel
  rw [scanValue_object (skipSpace_gap_cons hg₁ (by decide) _),
    scanMembers_last (keyEnds hk hg₂ _) (hvalue t v rest hscan) hclose, keyOf_spelled hk]
  rfl

/-- A record is read from the texts that hold a value which is decoded to it. -/
theorem readWith_eq_ok_iff {α : Type} {decode : Json → Except ReadError α} {t : Text} {a : α} :
    readWith decode t = .ok a ↔ ∃ v, Holds t v ∧ decode v = .ok a := by
  constructor
  · intro h
    rw [readWith] at h
    cases hscan : scan t with
    | mk v end? =>
      rw [hscan] at h
      obtain ⟨a', hd, h⟩ := bind_eq_ok_iff.mp h
      cases end? with
      | none => cases h
      | some rest =>
        dsimp only at h
        split at h
        · next hrest =>
          obtain rfl := Except.ok.inj h
          exact ⟨v, ⟨rest, hscan, List.isEmpty_iff.mp hrest⟩, hd⟩
        · cases h
  · rintro ⟨v, ⟨rest, hscan, hrest⟩, hd⟩
    simp only [readWith, hscan, hd, hrest, bind, Except.bind, List.isEmpty_nil, if_true]

end LedgerExport.Json
