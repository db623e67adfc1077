import LedgerExport.Engine.Host
import Mathlib.Data.List.Basic

/-! # Hosts with a colon

The colon of a host is still there once the escapes of a domain are undone, and no domain may hold
one. So a host with a colon is an address in square brackets.
-/
namespace LedgerExport.Engine

section Bytes
variable {c : Char} {b : UInt8}

theorem le_toNat_of_mem_map {l : List Nat} (hl : ∀ n ∈ l, 128 ≤ n ∧ n < 256)
    (h : b ∈ l.map UInt8.ofNat) : 128 ≤ b.toNat := by
  obtain ⟨n, hn, rfl⟩ := List.mem_map.mp h
  obtain ⟨hlow, hhigh⟩ := hl n hn
  rw [UInt8.toNat_ofNat_of_lt' hhigh]
  exact hlow

/-- Characters beyond ASCII have no ASCII byte. -/
theorem le_toNat_of_mem_utf8EncodeChar (hc : ¬ c.val.toNat ≤ 127)
    (h : b ∈ String.utf8EncodeChar c) : 128 ≤ b.toNat := by
  rw [String.utf8EncodeChar, if_neg hc] at h
  split at h
  · exact le_toNat_of_mem_map (l := [_, _]) (by simp; omega) h
  · split at h
    · exact le_toNat_of_mem_map (l := [_, _, _]) (by simp; omega) h
    · exact le_toNat_of_mem_map (l := [_, _, _, _]) (by simp; omega) h

theorem toNat_eq_of_mem_utf8EncodeChar (hb : b.toNat < 128)
    (h : b ∈ String.utf8EncodeChar c) : c.toNat = b.toNat := by
  by_cases hc : c.val.toNat ≤ 127
  · rw [String.utf8EncodeChar, if_pos hc] at h
    rw [List.mem_singleton.mp h, UInt8.toNat_ofNat_of_lt' (Nat.lt_of_le_of_lt hc (by decide))]
    rfl
  · have hle := le_toNat_of_mem_utf8EncodeChar hc h
    omega

/-- In UTF-8 a byte below 128 stands for its own character wherever it is. -/
theorem mem_toList_of_fromUTF8? {bytes : List UInt8} {s : String}
    (h : String.fromUTF8? ⟨bytes.toArray⟩ = some s) (hc : c.toNat < 128)
    (hmem : UInt8.ofNat c.toNat ∈ bytes) : c ∈ s.toList := by
  have hstring : s.toByteArray = ⟨bytes.toArray⟩ := by
    rw [String.fromUTF8?] at h
    split at h
    · rw [← Option.some.inj h]
      rfl
    · cases h
  have hbytes : s.toList.flatMap String.utf8EncodeChar = bytes := by
    have hdata := congrArg (fun a => a.data.toList) (String.utf8Encode_toList.trans hstring)
    simpa [List.utf8Encode] using hdata
  rw [← hbytes] at hmem
  obtain ⟨d, hd, hbyte⟩ := List.mem_flatMap.mp hmem
  have hascii : (UInt8.ofNat c.toNat).toNat = c.toNat :=
    UInt8.toNat_ofNat_of_lt' (Nat.lt_trans hc (by decide))
  have heq : d.toNat = c.toNat :=
    (toNat_eq_of_mem_utf8EncodeChar (by omega) hbyte).trans hascii
  rw [← Char.toNat_inj.mp heq]
  exact hd

end Bytes

/-- A host with a colon in it is read in square brackets only. -/
def Bracketed (host : Text → Except HostFault Host) : Prop :=
  ∀ t h, host t = .ok h → ':' ∈ t → t.head? = some '[' ∧ t.getLast? = some ']'

namespace Host

theorem colon_not_mem_of_numeral? {a b : Char} {n : Nat}
    (h : Text.numeral? 16 [a, b] = some n) : ':' ∉ [a, b] := by
  intro hmem
  rcases List.mem_pair.mp hmem with rfl | rfl
  · cases h
  · have htail (acc : Nat) :
        ([':'] : Text).foldlM (fun acc c => (Text.digitValue? 16 c).map (acc * 16 + ·)) acc =
          none := rfl
    change ((Text.digitValue? 16 a).map (0 * 16 + ·)).bind _ = some n at h
    simp [htail] at h

theorem mem_percentBytes {t : Text} (h : ':' ∈ t) : UInt8.ofNat ':'.toNat ∈ percentBytes t := by
  have hcolon : UInt8.ofNat ':'.toNat ∈ ':'.toString.toUTF8.toList := by decide +kernel
  have hpercent : ':' ≠ '%' := by decide
  fun_induction percentBytes t with
  | case1 a b rest n hn ih =>
    have hrest := (List.mem_append (s := [a, b])).mp (List.mem_of_ne_of_mem hpercent h)
    exact List.mem_cons_of_mem _ (ih (hrest.resolve_left (colon_not_mem_of_numeral? hn)))
  | case2 a b rest hn ih =>
    exact List.mem_append_right _ (ih (List.mem_of_ne_of_mem hpercent h))
  | case3 c rest hc ih =>
    rcases List.mem_cons.mp h with rfl | hrest
    · exact List.mem_append_left _ hcolon
    · exact List.mem_append_right _ (ih hrest)
  | case4 => cases h

theorem domain?_of_colon {t : Text} (h : ':' ∈ t) : domain? t = none := by
  unfold domain?
  cases hs : String.fromUTF8? ⟨(percentBytes t).toArray⟩ with
  | none => rfl
  | some s =>
    have hmem : ':' ∈ s.toList := mem_toList_of_fromUTF8? hs (by decide) (mem_percentBytes h)
    have hany : (s.toList.map Char.toLower).any isForbidden = true :=
      List.any_eq_true.mpr ⟨':', List.mem_map.mpr ⟨':', hmem, rfl⟩, by decide⟩
    simp only [Option.bind_eq_bind, Option.bind_some, hany, Bool.true_or, if_true]

/-- Outside square brackets a colon is refused, written out or escaped. -/
theorem bracketed_parse : Bracketed parse := by
  intro t h hparse hcolon
  rw [parse.eq_def] at hparse
  split at hparse
  next rest =>
    split at hparse
    next hlast =>
      refine ⟨rfl, ?_⟩
      rw [Bool.and_eq_true, decide_eq_true_eq] at hlast
      rw [List.getLast?_cons, hlast.1]
      rfl
    next => cases hparse
  next =>
    rw [domain?_of_colon hcolon] at hparse
    cases hparse

end Host

end LedgerExport.Engine
