import LedgerExport.Text.Encoding
import Mathlib.Data.List.Chain

/-! # Round trips through UTF-16

A character is read back from its units whatever follows them. So a text keeps its place in any
stream of units, and a surrogate without its other half costs nothing but itself. The main
statements are `utf16_round_trips` and `decodeUtf16_strays`.
-/
namespace LedgerExport.Text

def isSurrogate (u : UInt16) : Bool := isHighSurrogate u || isLowSurrogate u

theorem isHighSurrogate_iff {u : UInt16} :
    isHighSurrogate u = true ↔ 0xD800 ≤ u.toNat ∧ u.toNat ≤ 0xDBFF := by
  simp [isHighSurrogate]

theorem isLowSurrogate_iff {u : UInt16} :
    isLowSurrogate u = true ↔ 0xDC00 ≤ u.toNat ∧ u.toNat ≤ 0xDFFF := by
  simp [isLowSurrogate]

theorem isSurrogate_iff {u : UInt16} :
    isSurrogate u = true ↔ 0xD800 ≤ u.toNat ∧ u.toNat ≤ 0xDFFF := by
  rw [isSurrogate, Bool.or_eq_true, isHighSurrogate_iff, isLowSurrogate_iff]
  omega

theorem toNat_charOfNat {n : Nat} (h : n.isValidChar) : (Char.ofNat n).toNat = n := by
  rw [Char.ofNat, dif_pos h]
  rfl

theorem charUnits_of_lt {c : Char} (h : c.toNat < 0x10000) :
    charUnits c = [UInt16.ofNat c.toNat] := by
  simp [charUnits, h]

theorem charUnits_of_le {c : Char} (h : 0x10000 ≤ c.toNat) :
    charUnits c = [UInt16.ofNat (0xD800 + (c.toNat - 0x10000) / 0x400),
      UInt16.ofNat (0xDC00 + (c.toNat - 0x10000) % 0x400)] := by
  simp [charUnits, Nat.not_lt.mpr h]

/-! ## One character -/

theorem unitChar_of_isSurrogate {u : UInt16} (h : isSurrogate u = true) :
    unitChar u = replacement :=
  if_pos h

theorem toNat_unitChar {u : UInt16} (h : isSurrogate u = false) : (unitChar u).toNat = u.toNat := by
  have hvalid : u.toNat.isValidChar := by
    have hlt := u.toNat_lt
    rw [← Bool.not_eq_true, isSurrogate_iff] at h
    unfold Nat.isValidChar
    omega
  rw [unitChar, if_neg (by simpa [isSurrogate] using h), toNat_charOfNat hvalid]

theorem charUnits_unitChar {u : UInt16} (h : isSurrogate u = false) :
    charUnits (unitChar u) = [u] := by
  have hu := toNat_unitChar h
  rw [charUnits_of_lt (hu ▸ u.toNat_lt), hu, UInt16.ofNat_toNat]

section Pair
variable {hi lo : UInt16} (hhi : isHighSurrogate hi = true) (hlo : isLowSurrogate lo = true)
include hhi hlo

theorem toNat_pairChar : (pairChar hi lo).toNat =
    0x10000 + (hi.toNat - 0xD800) * 0x400 + (lo.toNat - 0xDC00) := by
  apply toNat_charOfNat
  rw [isHighSurrogate_iff] at hhi
  rw [isLowSurrogate_iff] at hlo
  unfold Nat.isValidChar
  omega

theorem charUnits_pairChar : charUnits (pairChar hi lo) = [hi, lo] := by
  have hn := toNat_pairChar hhi hlo
  rw [isHighSurrogate_iff] at hhi
  rw [isLowSurrogate_iff] at hlo
  have hfirst : 0xD800 + ((pairChar hi lo).toNat - 0x10000) / 0x400 = hi.toNat := by omega
  have hsecond : 0xDC00 + ((pairChar hi lo).toNat - 0x10000) % 0x400 = lo.toNat := by omega
  rw [charUnits_of_le (by omega), hfirst, hsecond, UInt16.ofNat_toNat, UInt16.ofNat_toNat]

end Pair

/-- The units of a character are one that is no surrogate or a pair. -/
theorem charUnits_cases (c : Char) :
    (∃ u, charUnits c = [u] ∧ isSurrogate u = false ∧ unitChar u = c) ∨
      ∃ hi lo, charUnits c = [hi, lo] ∧ isHighSurrogate hi = true ∧ isLowSurrogate lo = true ∧
        pairChar hi lo = c := by
  have hvalid : c.toNat < 0xD800 ∨ 0xDFFF < c.toNat ∧ c.toNat < 0x110000 := c.valid
  by_cases h : c.toNat < 0x10000
  · left
    have hn : (UInt16.ofNat c.toNat).toNat = c.toNat := UInt16.toNat_ofNat_of_lt' h
    have hs : isSurrogate (UInt16.ofNat c.toNat) = false := by
      rw [← Bool.not_eq_true, isSurrogate_iff, hn]
      omega
    exact ⟨_, charUnits_of_lt h, hs, Char.toNat_inj.mp ((toNat_unitChar hs).trans hn)⟩
  · right
    rw [Nat.not_lt] at h
    have hfirst : (UInt16.ofNat (0xD800 + (c.toNat - 0x10000) / 0x400)).toNat =
        0xD800 + (c.toNat - 0x10000) / 0x400 := by
      apply UInt16.toNat_ofNat_of_lt'
      unfold UInt16.size
      omega
    have hsecond : (UInt16.ofNat (0xDC00 + (c.toNat - 0x10000) % 0x400)).toNat =
        0xDC00 + (c.toNat - 0x10000) % 0x400 := by
      apply UInt16.toNat_ofNat_of_lt'
      unfold UInt16.size
      omega
    have hhi : isHighSurrogate (UInt16.ofNat (0xD800 + (c.toNat - 0x10000) / 0x400)) = true := by
      rw [isHighSurrogate_iff, hfirst]
      omega
    have hlo : isLowSurrogate (UInt16.ofNat (0xDC00 + (c.toNat - 0x10000) % 0x400)) = true := by
      rw [isLowSurrogate_iff, hsecond]
      omega
    refine ⟨_, _, charUnits_of_le h, hhi, hlo, Char.toNat_inj.mp ?_⟩
    rw [toNat_pairChar hhi hlo, hfirst, hsecond]
    omega

/-! ## Streams of units -/

theorem ofUnits_pair {hi lo : UInt16} (hhi : isHighSurrogate hi = true)
    (hlo : isLowSurrogate lo = true) (us : List UInt16) :
    ofUnits (hi :: lo :: us) = pairChar hi lo :: ofUnits us := by
  simp [ofUnits, hhi, hlo]

/-- A unit is read alone unless it begins a pair. -/
theorem ofUnits_cons {u : UInt16} {us : List UInt16}
    (h : ∀ v ∈ us.head?, ¬ (isHighSurrogate u = true ∧ isLowSurrogate v = true)) :
    ofUnits (u :: us) = unitChar u :: ofUnits us := by
  cases us with
  | nil => rfl
  | cons v us =>
    have hv := h v rfl
    simp [ofUnits, hv]

theorem ofUnits_charUnits_append (c : Char) (us : List UInt16) :
    ofUnits (charUnits c ++ us) = c :: ofUnits us := by
  rcases charUnits_cases c with ⟨u, hc, hu, rfl⟩ | ⟨hi, lo, hc, hhi, hlo, rfl⟩
  · rw [hc, List.singleton_append, ofUnits_cons]
    intro v _ hv
    simp [isSurrogate, hv.1] at hu
  · rw [hc]
    exact ofUnits_pair hhi hlo us

theorem ofUnits_units_append (t : Text) (us : List UInt16) :
    ofUnits (units t ++ us) = t ++ ofUnits us := by
  induction t with
  | nil => rfl
  | cons c t ih =>
    rw [units, List.flatMap_cons, List.append_assoc, ofUnits_charUnits_append, ← units, ih,
      List.cons_append]

@[simp] theorem units_nil : units [] = [] := rfl

theorem units_cons (c : Char) (t : Text) : units (c :: t) = charUnits c ++ units t := by
  simp [units]

/-- Units in which every surrogate has its other half beside it, the high one first. -/
inductive WellPaired : List UInt16 → Prop where
  | nil : WellPaired []
  | single {u : UInt16} {us : List UInt16} (hu : isSurrogate u = false) (hus : WellPaired us) :
    WellPaired (u :: us)
  | pair {hi lo : UInt16} {us : List UInt16} (hhi : isHighSurrogate hi = true)
    (hlo : isLowSurrogate lo = true) (hus : WellPaired us) : WellPaired (hi :: lo :: us)

theorem wellPaired_units (t : Text) : WellPaired (units t) := by
  induction t with
  | nil => exact .nil
  | cons c t ih =>
    rw [units_cons]
    rcases charUnits_cases c with ⟨u, hc, hu, -⟩ | ⟨hi, lo, hc, hhi, hlo, -⟩
    · rw [hc]
      exact .single hu ih
    · rw [hc]
      exact .pair hhi hlo ih

theorem units_ofUnits {us : List UInt16} (h : WellPaired us) : units (ofUnits us) = us := by
  induction h with
  | nil => rfl
  | @single u us hu hus ih =>
    rw [ofUnits_cons, units_cons, charUnits_unitChar hu, ih, List.singleton_append]
    intro v _ hv
    simp [isSurrogate, hv.1] at hu
  | pair hhi hlo hus ih =>
    rw [ofUnits_pair hhi hlo, units_cons, charUnits_pairChar hhi hlo, ih]
    rfl

/-! ## Bytes -/

theorem unitsOfBytes_unitBytes_append (u : UInt16) (bytes : List UInt8) :
    unitsOfBytes (unitBytes u ++ bytes) = u :: unitsOfBytes bytes := by
  have hu := u.toNat_lt
  have hlo : (UInt8.ofNat (u.toNat % 256)).toNat = u.toNat % 256 :=
    UInt8.toNat_ofNat_of_lt' (Nat.mod_lt _ (by decide))
  have hhi : (UInt8.ofNat (u.toNat / 256)).toNat = u.toNat / 256 :=
    UInt8.toNat_ofNat_of_lt' (by simp [UInt8.size]; omega)
  simp only [unitBytes, List.cons_append, List.nil_append, unitsOfBytes, hlo, hhi,
    Nat.mod_add_div, UInt16.ofNat_toNat]

theorem unitBytes_ofNat (lo hi : UInt8) :
    unitBytes (UInt16.ofNat (lo.toNat + 256 * hi.toNat)) = [lo, hi] := by
  have hlo := lo.toNat_lt
  have hhi := hi.toNat_lt
  have hu : (UInt16.ofNat (lo.toNat + 256 * hi.toNat)).toNat = lo.toNat + 256 * hi.toNat :=
    UInt16.toNat_ofNat_of_lt' (by simp [UInt16.size]; omega)
  have hfirst : (lo.toNat + 256 * hi.toNat) % 256 = lo.toNat := by omega
  have hsecond : (lo.toNat + 256 * hi.toNat) / 256 = hi.toNat := by omega
  rw [unitBytes, hu, hfirst, hsecond, UInt8.ofNat_toNat, UInt8.ofNat_toNat]

theorem unitsOfBytes_flatMap_append (us : List UInt16) (bytes : List UInt8) :
    unitsOfBytes (us.flatMap unitBytes ++ bytes) = us ++ unitsOfBytes bytes := by
  induction us with
  | nil => rfl
  | cons u us ih =>
    rw [List.flatMap_cons, List.append_assoc, unitsOfBytes_unitBytes_append, ih, List.cons_append]

/-- An even number of bytes is the bytes of its units. -/
theorem flatMap_unitsOfBytes {bytes : List UInt8} (h : bytes.length % 2 = 0) :
    (unitsOfBytes bytes).flatMap unitBytes = bytes := by
  fun_induction unitsOfBytes bytes with
  | case1 lo hi rest ih =>
    have hrest : rest.length % 2 = 0 := by
      rw [List.length_cons, List.length_cons] at h
      omega
    rw [List.flatMap_cons, unitBytes_ofNat, ih hrest]
    rfl
  | case2 bytes hshort =>
    cases bytes with
    | nil => rfl
    | cons b bytes => cases bytes with
      | nil => simp at h
      | cons b' bytes => exact absurd rfl (hshort b b' bytes)

theorem unitsOfBytes_encodeUtf16_append (t : Text) (bytes : List UInt8) :
    unitsOfBytes (encodeUtf16 t ++ bytes) = units t ++ unitsOfBytes bytes :=
  unitsOfBytes_flatMap_append (units t) bytes

theorem unitsOfBytes_encodeUtf16 (t : Text) : unitsOfBytes (encodeUtf16 t) = units t := by
  have h := unitsOfBytes_encodeUtf16_append t []
  simpa [unitsOfBytes] using h

theorem length_encodeUtf16 (t : Text) : (encodeUtf16 t).length % 2 = 0 := by
  rw [encodeUtf16]
  induction units t with
  | nil => rfl
  | cons u us ih =>
    rw [List.flatMap_cons, List.length_append]
    simp [unitBytes]

/-! ## The byte-order mark -/

theorem dropMark_of_head? {t : Text} (h : t.head? ≠ some byteOrderMark) : dropMark t = t := by
  cases t with
  | nil => rfl
  | cons c t => exact if_neg fun hc => h (by simp [hc])

theorem decodeUtf16_encodeUtf16 (t : Text) : decodeUtf16 (encodeUtf16 t) = dropMark t := by
  have h := ofUnits_units_append t []
  rw [decodeUtf16, unitsOfBytes_encodeUtf16]
  simpa [ofUnits] using congrArg dropMark h

theorem encodeUtf16_mark_cons (t : Text) :
    encodeUtf16 (byteOrderMark :: t) = 0xFF :: 0xFE :: encodeUtf16 t := by
  have hmark : (charUnits byteOrderMark).flatMap unitBytes = [0xFF, 0xFE] := by decide
  rw [encodeUtf16, units_cons, List.flatMap_append, hmark]
  rfl

theorem decodeUtf16_encodeUtf16_eq_iff (t : Text) :
    decodeUtf16 (encodeUtf16 t) = t ↔ t.head? ≠ some byteOrderMark := by
  rw [decodeUtf16_encodeUtf16]
  constructor
  · intro h hmark
    cases t with
    | nil => simp at hmark
    | cons c t =>
      simp only [List.head?_cons, Option.some.injEq] at hmark
      simp [dropMark, hmark] at h
  · exact dropMark_of_head?

/-- Texts come back but for one mark in front of them. Bytes come back if and only if they are
whole units with all surrogates in pairs and no mark in front. -/
theorem utf16_round_trips :
    (∀ t, decodeUtf16 (encodeUtf16 t) = t ↔ t.head? ≠ some byteOrderMark) ∧
    (∀ t, decodeUtf16 (encodeUtf16 (byteOrderMark :: t)) = t) ∧
    (∀ t, decodeUtf16 ([0xFF, 0xFE] ++ encodeUtf16 t) = t) ∧
    ∀ bytes, encodeUtf16 (decodeUtf16 bytes) = bytes ↔
      bytes.length % 2 = 0 ∧ WellPaired (unitsOfBytes bytes) ∧ ¬ [0xFF, 0xFE] <+: bytes := by
  have hmarked (t : Text) : decodeUtf16 ([0xFF, 0xFE] ++ encodeUtf16 t) = t := by
    have h := decodeUtf16_encodeUtf16 (byteOrderMark :: t)
    rw [encodeUtf16_mark_cons] at h
    exact h
  refine ⟨decodeUtf16_encodeUtf16_eq_iff, ?_, hmarked, ?_⟩
  · intro t
    rw [encodeUtf16_mark_cons]
    exact hmarked t
  intro bytes
  constructor
  · intro h
    have hself := (decodeUtf16_encodeUtf16_eq_iff (decodeUtf16 bytes)).mp (by rw [h])
    refine ⟨h ▸ length_encodeUtf16 _, ?_, ?_⟩
    · rw [← h, unitsOfBytes_encodeUtf16]
      exact wellPaired_units _
    · rintro ⟨rest, hrest⟩
      -- the mark is the first character that these bytes write
      have hunits : units (decodeUtf16 bytes) = 0xFEFF :: unitsOfBytes rest := by
        rw [← unitsOfBytes_encodeUtf16, h, ← hrest]
        rfl
      apply hself
      have hread := ofUnits_units_append (decodeUtf16 bytes) []
      rw [List.append_nil, hunits, ofUnits_cons (by simp [isHighSurrogate])] at hread
      simp only [ofUnits, List.append_nil] at hread
      rw [← hread]
      rfl
  · rintro ⟨heven, hpaired, hmark⟩
    have hbytes : encodeUtf16 (ofUnits (unitsOfBytes bytes)) = bytes := by
      rw [encodeUtf16, units_ofUnits hpaired, flatMap_unitsOfBytes heven]
    have hhead : (ofUnits (unitsOfBytes bytes)).head? ≠ some byteOrderMark := by
      intro hhead
      obtain ⟨rest, hrest⟩ := List.head?_eq_some_iff.mp hhead
      apply hmark
      rw [← hbytes, hrest, encodeUtf16_mark_cons]
      exact ⟨encodeUtf16 rest, rfl⟩
    rw [decodeUtf16, dropMark_of_head? hhead, hbytes]

/-! ## Unpaired surrogates -/

/-- A surrogate that stands alone, and the text up to the next one. -/
structure Stray where
  unit : UInt16
  following : Text
  alone : isSurrogate unit = true

namespace Stray

def units (s : Stray) : List UInt16 := s.unit :: Text.units s.following

def bytes (s : Stray) : List UInt8 := unitBytes s.unit ++ encodeUtf16 s.following

def reading (s : Stray) : Text := replacement :: s.following

end Stray

/-- No two strays make a pair. -/
def Apart (strays : List Stray) : Prop :=
  strays.IsChain fun a b =>
    a.following = [] → ¬ (isHighSurrogate a.unit = true ∧ isLowSurrogate b.unit = true)

theorem head?_charUnits_append {c : Char} {us : List UInt16} {v : UInt16}
    (h : v ∈ (charUnits c ++ us).head?) : isLowSurrogate v = false := by
  rcases charUnits_cases c with ⟨u, hc, hu, -⟩ | ⟨hi, lo, hc, hhi, -, -⟩
  · rw [hc] at h
    obtain rfl : u = v := by simpa using h
    simpa [isSurrogate] using (Bool.or_eq_false_iff.mp hu).2
  · rw [hc] at h
    obtain rfl : hi = v := by simpa using h
    rw [← Bool.not_eq_true, isLowSurrogate_iff]
    rw [isHighSurrogate_iff] at hhi
    omega

/-- Strays that stand apart are read one by one. -/
theorem ofUnits_strays {strays : List Stray} (h : Apart strays) :
    ofUnits (strays.flatMap Stray.units) = strays.flatMap Stray.reading := by
  induction strays with
  | nil => rfl
  | cons s strays ih =>
    rw [List.flatMap_cons, List.flatMap_cons, Stray.units, List.cons_append, ofUnits_cons,
      ofUnits_units_append, ih h.tail, unitChar_of_isSurrogate s.alone]
    · rfl
    · rintro v hv ⟨hhi, hlo⟩
      cases hf : s.following with
      | cons c t =>
        rw [hf, units_cons, List.append_assoc] at hv
        simp [head?_charUnits_append hv] at hlo
      | nil =>
        rw [hf, units_nil, List.nil_append] at hv
        cases strays with
        | nil => simp at hv
        | cons s' strays =>
          obtain rfl : s'.unit = v := by simpa [Stray.units] using hv
          exact List.rel_of_isChain_cons_cons h hf ⟨hhi, hlo⟩

theorem unitsOfBytes_strays (strays : List Stray) (bytes : List UInt8) :
    unitsOfBytes (strays.flatMap Stray.bytes ++ bytes) =
      strays.flatMap Stray.units ++ unitsOfBytes bytes := by
  induction strays with
  | nil => rfl
  | cons s strays ih =>
    simp only [List.flatMap_cons, Stray.bytes, Stray.units, List.append_assoc, List.cons_append,
      unitsOfBytes_unitBytes_append, unitsOfBytes_encodeUtf16_append, ih]

/-- Every stray surrogate is read as one replacement character, all else as it is, and a last odd
byte is not read. -/
theorem decodeUtf16_strays {t : Text} (ht : t.head? ≠ some byteOrderMark) {strays : List Stray}
    (hs : Apart strays) (odd : Option UInt8) :
    decodeUtf16 (encodeUtf16 t ++ strays.flatMap Stray.bytes ++ odd.toList) =
      t ++ strays.flatMap Stray.reading := by
  have hodd : unitsOfBytes odd.toList = [] := by cases odd <;> rfl
  have hhead : (t ++ strays.flatMap Stray.reading).head? ≠ some byteOrderMark := by
    cases t with
    | cons c t => exact ht
    | nil =>
      cases strays with
      | nil => simp
      | cons s strays => simp [Stray.reading, replacement, byteOrderMark]
  rw [decodeUtf16, List.append_assoc, unitsOfBytes_encodeUtf16_append, unitsOfBytes_strays, hodd,
    List.append_nil, ofUnits_units_append, ofUnits_strays hs, dropMark_of_head? hhead]

/-- Two high surrogates and, behind a pair, a low one. -/
def tornStrays : List Stray :=
  [⟨0xD800, [], by decide⟩, ⟨0xDBFF, "₹💰".toList, by decide⟩,
    ⟨0xDC00, "</F01>".toList, by decide⟩]

theorem decodeUtf16_tornReply :
    decodeUtf16 (encodeUtf16 "<F01>ok".toList ++ tornStrays.flatMap Stray.bytes ++ [0x42]) =
      "<F01>ok\uFFFD\uFFFD₹💰\uFFFD</F01>".toList := by
  have hapart : Apart tornStrays := by
    simp [Apart, tornStrays, isHighSurrogate, isLowSurrogate]
  exact decodeUtf16_strays (by decide) hapart (some 0x42)

/-- All units are a text and strays apart from each other. -/
theorem exists_strays_units (us : List UInt16) :
    ∃ t strays, Apart strays ∧ us = units t ++ strays.flatMap Stray.units := by
  fun_induction ofUnits us with
  | case1 => exact ⟨[], [], .nil, rfl⟩
  | case2 u =>
    by_cases hu : isSurrogate u = true
    · exact ⟨[], [⟨u, [], hu⟩], .singleton _, rfl⟩
    · rw [Bool.not_eq_true] at hu
      refine ⟨[unitChar u], [], .nil, ?_⟩
      simp [units_cons, charUnits_unitChar hu]
  | case3 u v rest hpair ih =>
    obtain ⟨t, strays, hs, rfl⟩ := ih
    rw [Bool.and_eq_true] at hpair
    refine ⟨pairChar u v :: t, strays, hs, ?_⟩
    simp [units_cons, charUnits_pairChar hpair.1 hpair.2]
  | case4 u v rest hpair ih =>
    obtain ⟨t, strays, hs, hrest⟩ := ih
    rw [hrest]
    by_cases hu : isSurrogate u = true
    · refine ⟨[], ⟨u, t, hu⟩ :: strays, ?_, rfl⟩
      cases strays with
      | nil => exact .singleton _
      | cons s strays =>
        refine List.IsChain.cons_cons ?_ hs
        rintro ht ⟨hhi, hlo⟩
        obtain rfl : t = [] := ht
        obtain ⟨rfl, -⟩ : v = s.unit ∧ _ := by simpa [Stray.units] using hrest
        simp [hhi, hlo] at hpair
    · rw [Bool.not_eq_true] at hu
      refine ⟨unitChar u :: t, strays, hs, ?_⟩
      simp [units_cons, charUnits_unitChar hu]

/-- All bytes are those of units but for an odd one at the end. -/
theorem exists_flatMap_unitBytes (bytes : List UInt8) :
    ∃ (us : List UInt16) (odd : Option UInt8), bytes = us.flatMap unitBytes ++ odd.toList := by
  fun_induction unitsOfBytes bytes with
  | case1 lo hi rest ih =>
    obtain ⟨us, odd, hrest⟩ := ih
    refine ⟨UInt16.ofNat (lo.toNat + 256 * hi.toNat) :: us, odd, ?_⟩
    rw [List.flatMap_cons, unitBytes_ofNat, List.append_assoc, ← hrest]
    rfl
  | case2 bytes hshort =>
    cases bytes with
    | nil => exact ⟨[], none, rfl⟩
    | cons b bytes => cases bytes with
      | nil => exact ⟨[], some b, rfl⟩
      | cons b' bytes => exact absurd rfl (hshort b b' bytes)

/-- There are no other bytes than those of a text, strays apart from each other and an odd byte. -/
theorem exists_strays (bytes : List UInt8) :
    ∃ t strays, ∃ odd : Option UInt8, Apart strays ∧
      bytes = encodeUtf16 t ++ strays.flatMap Stray.bytes ++ odd.toList := by
  obtain ⟨us, odd, rfl⟩ := exists_flatMap_unitBytes bytes
  obtain ⟨t, strays, hs, rfl⟩ := exists_strays_units us
  have hbytes : (strays.flatMap Stray.units).flatMap unitBytes = strays.flatMap Stray.bytes := by
    rw [List.flatMap_assoc]
    apply List.flatMap_congr
    intro s _
    rfl
  exact ⟨t, strays, odd, hs, by rw [List.flatMap_append, hbytes, encodeUtf16]⟩

end LedgerExport.Text
