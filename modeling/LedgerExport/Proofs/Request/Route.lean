import LedgerExport.Request.Document
import LedgerExport.Proofs.Text.Replacement

/-! # Paths and their routes

A route holds the segments of its path, the first one as the target and the others behind the
request's own collection. Segments may be empty, at either end of the path too: none of them is
left out, so each step of the path keeps its number. The main statement is `Route.parse_lossless`.
-/
namespace LedgerExport.Request
open Text

namespace Route
variable {path target : Text} {rest : List Text}

/-- The target and the routes are the segments of the path. -/
theorem parse_eq (collection : Text) : ∃ target rest,
    splitOn ['.'] collection = target :: rest ∧
      Route.parse collection = ⟨target, collectionName :: rest⟩ := by
  obtain ⟨target, rest, hsplit⟩ := List.exists_cons_of_ne_nil (splitOn_ne_nil ['.'] collection)
  exact ⟨target, rest, hsplit, by rw [Route.parse, hsplit]⟩

theorem depth_parse (collection : Text) :
    (Route.parse collection).depth = (splitOn ['.'] collection).length := by
  obtain ⟨target, rest, hsplit, hparse⟩ := parse_eq collection
  rw [hparse, hsplit]
  rfl

theorem depth_parse_pos (collection : Text) : 0 < (Route.parse collection).depth := by
  rw [depth_parse, length_splitOn_singleton]
  exact Nat.succ_pos _

theorem parse_eq_iff_splitOn :
    Route.parse path = ⟨target, collectionName :: rest⟩ ↔ splitOn ['.'] path = target :: rest := by
  obtain ⟨first, more, hsplit, hparse⟩ := parse_eq path
  rw [hparse, hsplit, Route.mk.injEq, List.cons.injEq, List.cons.injEq]
  simp only [true_and]

/-- A route belongs to a path if and only if its segments are those that make up the path. -/
theorem parse_eq_iff : Route.parse path = ⟨target, collectionName :: rest⟩ ↔
    (∀ s ∈ target :: rest, '.' ∉ s) ∧ join ['.'] (target :: rest) = path := by
  rw [parse_eq_iff_splitOn, splitOn_singleton_eq_iff]
  exact and_iff_right (List.cons_ne_nil target rest)

/-- A path is its target and its routes. -/
theorem parse_injective : Function.Injective Route.parse := by
  intro p q h
  obtain ⟨target, rest, -, hparse⟩ := parse_eq p
  obtain ⟨-, hp⟩ := parse_eq_iff.mp hparse
  obtain ⟨-, hq⟩ := parse_eq_iff.mp (h.symm.trans hparse)
  exact hp.symm.trans hq

/-- Parsing keeps every segment of a path, and segments that are put together are parsed again. -/
theorem parse_lossless :
    (∀ path, ∃ target rest, Route.parse path = ⟨target, collectionName :: rest⟩ ∧
      (∀ s ∈ target :: rest, '.' ∉ s) ∧ join ['.'] (target :: rest) = path ∧
      (Route.parse path).depth = path.count '.' + 1) ∧
    (∀ target rest, (∀ s ∈ target :: rest, '.' ∉ s) →
      Route.parse (join ['.'] (target :: rest)) = ⟨target, collectionName :: rest⟩) ∧
    Function.Injective Route.parse := by
  refine ⟨?_, ?_, parse_injective⟩
  · intro path
    obtain ⟨target, rest, -, hparse⟩ := parse_eq path
    obtain ⟨hfree, hjoin⟩ := parse_eq_iff.mp hparse
    have hdepth : (Route.parse path).depth = path.count '.' + 1 := by
      rw [depth_parse, length_splitOn_singleton]
    exact ⟨target, rest, hparse, hfree, hjoin, hdepth⟩
  · intro target rest hfree
    exact parse_eq_iff.mpr ⟨hfree, rfl⟩

/-- Empty segments at both ends and in the middle are segments like the others. -/
theorem parse_doubledDots :
    (∀ s ∈ [[], "Voucher".toList, [], "Entries".toList, []], '.' ∉ s) ∧
      Route.parse ".Voucher..Entries.".toList =
        ⟨[], [collectionName, "Voucher".toList, [], "Entries".toList, []]⟩ ∧
      (Route.parse ".Voucher..Entries.".toList).depth = 5 := by
  have hfree : ∀ s ∈ [[], "Voucher".toList, [], "Entries".toList, []], '.' ∉ s := by decide
  have hjoin : join ['.'] [[], "Voucher".toList, [], "Entries".toList, []] =
      ".Voucher..Entries.".toList := by decide
  obtain ⟨-, hparse, -⟩ := parse_lossless
  have hroute := hparse [] ["Voucher".toList, [], "Entries".toList, []] hfree
  rw [hjoin] at hroute
  refine ⟨hfree, hroute, ?_⟩
  rw [hroute]
  rfl

end Route

end LedgerExport.Request
