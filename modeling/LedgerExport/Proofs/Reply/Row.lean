import LedgerExport.Proofs.OrderedMap
import Mathlib.Data.Finset.Card

/-! # First places and last values

A row has each of the names that were put into it once, where the name came first, with the value
that came last. Pairing names with cells ends where the shorter of the two lists ends, so which cell
is the last one of a name depends on both. The main statement is `rows_keep`.
-/
namespace LedgerExport

/-- The map has the names of the list and no others, each once, in the order in which they come
first. -/
structure OrderedMap.Lists {α : Type} (inserted : List Text) (m : OrderedMap α) : Prop where
  contains_iff : ∀ name, m.contains name = true ↔ name ∈ inserted
  mem_iff : ∀ name, name ∈ m.names ↔ name ∈ inserted
  nodup : m.names.Nodup
  ordered : m.names.Pairwise fun a b => inserted.idxOf a < inserted.idxOf b
  size_eq : m.size = inserted.toFinset.card

namespace OrderedMap
variable {α : Type}

theorem contains_iff_mem_names {m : OrderedMap α} {name : Text} :
    m.contains name = true ↔ name ∈ m.names := by
  rw [contains, get?, Option.isSome_map, List.find?_isSome, names, List.mem_map]
  simp only [decide_eq_true_eq]

/-- What came before each pair of a name came first at an earlier place. -/
theorem idxOf_lt_of_before {pairs : List (Text × α)} {a b : Text} (hb : b ∈ pairs.map Prod.fst)
    (h : ∀ before value after, pairs = before ++ (b, value) :: after → a ∈ before.map Prod.fst) :
    (pairs.map Prod.fst).idxOf a < (pairs.map Prod.fst).idxOf b := by
  obtain ⟨front, back, hsplit, hnew⟩ := List.eq_append_cons_of_mem hb
  obtain ⟨before, rest, rfl, rfl, hrest⟩ := List.map_eq_append_iff.mp hsplit
  obtain ⟨⟨name, value⟩, after, rfl, hname, rfl⟩ := List.map_eq_cons_iff.mp hrest
  obtain rfl : name = b := hname
  have ha := h before value after rfl
  rw [hsplit, List.idxOf_append_of_mem ha, List.idxOf_append_of_notMem hnew, List.idxOf_cons_self]
  exact Nat.lt_of_lt_of_le (List.idxOf_lt_length_of_mem ha) (Nat.le_add_right _ _)

theorem Registers.lists {pairs : List (Text × α)} {m : OrderedMap α} (h : Registers pairs m) :
    Lists (pairs.map Prod.fst) m where
  contains_iff name := by rw [contains_iff_mem_names, h.mem]
  mem_iff := h.mem
  nodup := h.nodup
  ordered := by
    refine h.ordered.imp_of_mem ?_
    intro a b _ hb hab
    exact idxOf_lt_of_before ((h.mem b).mp hb) hab
  size_eq := by
    have hlength : m.size = m.names.length := (List.length_map Prod.fst).symm
    rw [hlength, ← List.toFinset_card_of_nodup h.nodup]
    congr 1
    ext name
    rw [List.mem_toFinset, List.mem_toFinset]
    exact h.mem name

end OrderedMap

namespace Row
variable {names cells : List Text}

theorem lists_zip (names cells : List Text) :
    OrderedMap.Lists (names.take (min names.length cells.length)) (Row.zip names cells) := by
  have htake : names.take (min names.length cells.length) = (names.zip cells).map Prod.fst := by
    rw [map_fst_zip_eq_take, List.take_eq_take_iff]
    omega
  rw [htake]
  exact (OrderedMap.registers_ofList (names.zip cells)).lists

/-- A name has the cell at its last place, cells and names behind the shorter list aside. -/
theorem get?_zip {i : Nat} {name cell : Text} (hname : names[i]? = some name)
    (hcell : cells[i]? = some cell)
    (hlast : ∀ j, i < j → j < min names.length cells.length → names[j]? ≠ some name) :
    (Row.zip names cells).get? name = some cell := by
  have hpair : (names.zip cells)[i]? = some (name, cell) :=
    List.getElem?_zip_eq_some.mpr ⟨hname, hcell⟩
  obtain ⟨hlt, hget⟩ := List.getElem?_eq_some_iff.mp hpair
  have hsplit : names.zip cells =
      (names.zip cells).take i ++ (name, cell) :: (names.zip cells).drop (i + 1) := by
    rw [← hget, List.getElem_cons_drop, List.take_append_drop]
  have hafter : name ∉ ((names.zip cells).drop (i + 1)).map Prod.fst := by
    intro hmem
    obtain ⟨⟨n, c⟩, hdrop, rfl⟩ := List.mem_map.mp hmem
    obtain ⟨k, hk⟩ := List.mem_iff_getElem?.mp hdrop
    rw [List.getElem?_drop] at hk
    obtain ⟨hn, hc⟩ := List.getElem?_zip_eq_some.mp hk
    have hn' := (List.getElem?_eq_some_iff.mp hn).1
    have hc' := (List.getElem?_eq_some_iff.mp hc).1
    exact hlast (i + 1 + k) (by omega) (by omega) hn
  rw [Row.zip, hsplit]
  exact OrderedMap.get?_ofList hafter cell

end Row

/-- Rows keep the first place and the last value of a name, whatever is put into them, and so do
rows that pair names with cells. -/
theorem Row.rows_keep :
    (∀ pairs : List (Text × Text),
      OrderedMap.Lists (pairs.map Prod.fst) (OrderedMap.ofList pairs) ∧
        ∀ before name value after, pairs = before ++ (name, value) :: after →
          name ∉ after.map Prod.fst → (OrderedMap.ofList pairs).get? name = some value) ∧
    ∀ names cells : List Text,
      OrderedMap.Lists (names.take (min names.length cells.length)) (Row.zip names cells) ∧
        ∀ i name cell, names[i]? = some name → cells[i]? = some cell →
          (∀ j, i < j → j < min names.length cells.length → names[j]? ≠ some name) →
            (Row.zip names cells).get? name = some cell := by
  constructor
  · intro pairs
    refine ⟨(OrderedMap.registers_ofList pairs).lists, ?_⟩
    rintro before name value after rfl hafter
    exact OrderedMap.get?_ofList hafter value
  · intro names cells
    refine ⟨Row.lists_zip names cells, ?_⟩
    intro i name cell hname hcell hlast
    exact Row.get?_zip hname hcell hlast

example : (Row.zip ["a".toList, "b".toList, "a".toList]
      ["1".toList, "2".toList, "3".toList]).entries =
    [("a".toList, "3".toList), ("b".toList, "2".toList)] := by decide

end LedgerExport
