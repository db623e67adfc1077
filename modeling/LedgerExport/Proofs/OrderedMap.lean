import LedgerExport.OrderedMap
import Mathlib.Data.List.Induction
import Mathlib.Data.List.Nodup

/-! # Maps in the order in which names come

A map that pairs are put into has each of their names once, in the order of their first pairs, and
under a name the value of its last pair. Names that come once each keep their pairs, so that such a
map is the list that it was made of.
-/
namespace LedgerExport
namespace OrderedMap
variable {α : Type}

theorem putIn_of_not_mem {name : Text} {entries : List (Text × α)}
    (h : name ∉ entries.map Prod.fst) (value : α) :
    putIn name value entries = entries ++ [(name, value)] := by
  induction entries with
  | nil => rfl
  | cons e rest ih =>
    simp only [List.map_cons, List.mem_cons, not_or] at h
    simp [putIn, Ne.symm h.1, ih h.2]

theorem map_fst_putIn_of_mem {name : Text} {entries : List (Text × α)}
    (h : name ∈ entries.map Prod.fst) (value : α) :
    (putIn name value entries).map Prod.fst = entries.map Prod.fst := by
  induction entries with
  | nil => exact absurd h List.not_mem_nil
  | cons e rest ih =>
    rw [putIn]
    split
    · rfl
    · next hne =>
      have hrest : name ∈ rest.map Prod.fst := (List.mem_cons.mp h).resolve_left (Ne.symm hne)
      rw [List.map_cons, List.map_cons, ih hrest]

theorem names_put_of_mem {m : OrderedMap α} {name : Text} (h : name ∈ m.names) (value : α) :
    (m.put name value).names = m.names := map_fst_putIn_of_mem h value

theorem names_put_of_not_mem {m : OrderedMap α} {name : Text} (h : name ∉ m.names) (value : α) :
    (m.put name value).names = m.names ++ [name] := by
  rw [names, put, putIn_of_not_mem h, List.map_append]
  rfl

theorem get?_put (m : OrderedMap α) (name : Text) (value : α) (other : Text) :
    (m.put name value).get? other = if name = other then some value else m.get? other := by
  obtain ⟨entries⟩ := m
  simp only [put, get?]
  induction entries with
  | nil => by_cases h : name = other <;> simp [putIn, h]
  | cons e rest ih =>
    obtain ⟨n, v⟩ := e
    by_cases hn : n = name
    · subst hn
      by_cases h : n = other <;> simp [putIn, h]
    · by_cases h : n = other
      · subst h
        simp [putIn, hn, Ne.symm hn]
      · simpa [putIn, hn, h] using ih

theorem ofList_concat (pairs : List (Text × α)) (e : Text × α) :
    ofList (pairs ++ [e]) = (ofList pairs).put e.1 e.2 := by
  rw [ofList, List.foldl_concat, ofList]

/-- What the names of a map tell about the pairs that were put into it. -/
structure Registers (pairs : List (Text × α)) (m : OrderedMap α) : Prop where
  mem : ∀ name, name ∈ m.names ↔ name ∈ pairs.map Prod.fst
  nodup : m.names.Nodup
  /-- Whatever stands before a name was there before each pair of that name. -/
  ordered : m.names.Pairwise fun a b => ∀ before value after,
    pairs = before ++ (b, value) :: after → a ∈ before.map Prod.fst

/-- A new name goes to the end with its value, and a known one gets the value in its place. -/
theorem Registers.put {pairs : List (Text × α)} {m : OrderedMap α} (h : Registers pairs m)
    (e : Text × α) : Registers (pairs ++ [e]) (m.put e.1 e.2) := by
  -- a pair that is found among the pairs and one more was there or is the last one
  have hsplit {b : Text} {before after : List (Text × α)} {value : α}
      (hb : pairs ++ [e] = before ++ (b, value) :: after) :
      (∃ after', pairs = before ++ (b, value) :: after') ∨ (pairs = before ∧ e.1 = b) := by
    rcases List.eq_nil_or_concat after with rfl | ⟨after', last, rfl⟩
    · obtain ⟨rfl, hlast⟩ := List.append_inj' hb rfl
      exact Or.inr ⟨rfl, congrArg Prod.fst (List.cons.inj hlast).1⟩
    · rw [List.concat_eq_append, ← List.cons_append, ← List.append_assoc] at hb
      exact Or.inl ⟨after', List.append_inj_left' hb rfl⟩
  have hordered : m.names.Pairwise fun a b => ∀ before value after,
      pairs ++ [e] = before ++ (b, value) :: after → a ∈ before.map Prod.fst := by
    refine h.ordered.imp_of_mem fun {a b} ha _ hab before value after hb => ?_
    rcases hsplit hb with ⟨after', hpairs⟩ | ⟨rfl, -⟩
    · exact hab before value after' hpairs
    · exact (h.mem a).mp ha
  by_cases hmem : e.1 ∈ m.names
  · have hnames := names_put_of_mem hmem e.2
    refine ⟨fun name => ?_, hnames ▸ h.nodup, hnames ▸ hordered⟩
    rw [hnames, h.mem, List.map_append, List.mem_append, List.map_singleton, List.mem_singleton]
    refine ⟨Or.inl, fun hname => hname.elim id ?_⟩
    rintro rfl
    exact (h.mem _).mp hmem
  · have hnames := names_put_of_not_mem hmem e.2
    refine ⟨fun name => ?_, ?_, ?_⟩
    · rw [hnames, List.mem_append, h.mem, List.map_append, List.mem_append, List.map_singleton]
    · rw [hnames, List.nodup_append]
      refine ⟨h.nodup, List.nodup_singleton _, ?_⟩
      rintro a ha b hb rfl
      exact hmem (List.mem_singleton.mp hb ▸ ha)
    · rw [hnames, List.pairwise_append]
      refine ⟨hordered, List.pairwise_singleton _ _, fun a ha b hb before value after heq => ?_⟩
      obtain rfl := List.mem_singleton.mp hb
      rcases hsplit heq with ⟨after', hpairs⟩ | ⟨rfl, -⟩
      · -- a new name has no pair yet
        refine absurd ((h.mem e.1).mpr ?_) hmem
        rw [hpairs]
        simp
      · exact (h.mem a).mp ha

theorem registers_ofList (pairs : List (Text × α)) : Registers pairs (ofList pairs) := by
  induction pairs using List.reverseRecOn with
  | nil => exact ⟨fun _ => Iff.rfl, List.nodup_nil, List.Pairwise.nil⟩
  | append_singleton pairs e ih =>
    rw [ofList_concat]
    exact ih.put e

/-- The last pair of a name has the value under it. -/
theorem get?_ofList {before after : List (Text × α)} {name : Text}
    (h : name ∉ after.map Prod.fst) (value : α) :
    (ofList (before ++ (name, value) :: after)).get? name = some value := by
  induction after using List.reverseRecOn with
  | nil => rw [ofList_concat, get?_put, if_pos rfl]
  | append_singleton after e ih =>
    rw [List.map_append, List.mem_append, not_or] at h
    have hne : e.1 ≠ name := fun he => h.2 (by simp [he])
    rw [← List.cons_append, ← List.append_assoc, ofList_concat, get?_put, if_neg hne, ih h.1]

/-- Pairs with new names go to the end as they are. -/
theorem foldl_put_entries (m : OrderedMap α) (pairs : List (Text × α))
    (h : ((m.entries ++ pairs).map Prod.fst).Nodup) :
    (pairs.foldl (fun m e => m.put e.1 e.2) m).entries = m.entries ++ pairs := by
  induction pairs generalizing m with
  | nil => simp
  | cons e rest ih =>
    have hnew : e.1 ∉ m.entries.map Prod.fst := by
      rw [List.map_append, List.map_cons] at h
      intro he
      exact (List.disjoint_of_nodup_append h) he List.mem_cons_self
    have hput : (m.put e.1 e.2).entries = m.entries ++ [e] := putIn_of_not_mem hnew e.2
    rw [List.foldl_cons, ih, hput]
    · simp
    · simpa [hput] using h

theorem ofList_entries {pairs : List (Text × α)} (h : (pairs.map Prod.fst).Nodup) :
    (ofList pairs).entries = pairs :=
  foldl_put_entries empty pairs h

theorem mem_putIn {name : Text} {value : α} {entries : List (Text × α)} {e : Text × α}
    (h : e ∈ putIn name value entries) : e = (name, value) ∨ e ∈ entries := by
  induction entries with
  | nil => exact Or.inl (List.mem_singleton.mp h)
  | cons e' rest ih =>
    rw [putIn] at h
    split at h
    · next hname =>
      rcases List.mem_cons.mp h with rfl | hrest
      · exact Or.inl (congrArg (·, value) hname)
      · exact Or.inr (List.mem_cons_of_mem e' hrest)
    · rcases List.mem_cons.mp h with rfl | hrest
      · exact Or.inr List.mem_cons_self
      · exact (ih hrest).imp_right (List.mem_cons_of_mem e')

/-- A map holds nothing that was not put into it. -/
theorem mem_of_mem_entries_ofList {pairs : List (Text × α)} {e : Text × α}
    (h : e ∈ (ofList pairs).entries) : e ∈ pairs := by
  induction pairs using List.reverseRecOn with
  | nil => exact absurd h List.not_mem_nil
  | append_singleton pairs e' ih =>
    rw [ofList_concat] at h
    rcases mem_putIn h with rfl | hpairs
    · simp
    · exact List.mem_append_left _ (ih hpairs)

/-- A map that was empty once and has been filled pair by pair. -/
def Filled (m : OrderedMap α) : Prop := ∃ pairs, m = ofList pairs

theorem Filled.nodup {m : OrderedMap α} (h : m.Filled) : m.names.Nodup := by
  obtain ⟨pairs, rfl⟩ := h
  exact (registers_ofList pairs).nodup

end OrderedMap

theorem map_fst_zip_eq_take {α β : Type} (as : List α) (bs : List β) :
    (as.zip bs).map Prod.fst = as.take bs.length := by
  induction as generalizing bs with
  | nil => simp
  | cons a as ih => cases bs <;> simp [ih]

theorem Row.entries_zip {names : List Text} (h : names.Nodup) (cells : List Text) :
    (Row.zip names cells).entries = names.zip cells := by
  refine OrderedMap.ofList_entries ?_
  rw [map_fst_zip_eq_take]
  exact h.sublist (List.take_sublist _ _)

/-- A row holds as many of the first names as there are cells. -/
theorem Row.names_zip {names : List Text} (h : names.Nodup) (cells : List Text) :
    (Row.zip names cells).names = names.take cells.length := by
  rw [OrderedMap.names, Row.entries_zip h, map_fst_zip_eq_take]

theorem zip_append_of_length_le {α β : Type} {as : List α} {bs : List β}
    (h : as.length ≤ bs.length) (cs : List β) : as.zip (bs ++ cs) = as.zip bs := by
  induction as generalizing bs with
  | nil => rfl
  | cons a as ih =>
    cases bs with
    | nil => exact absurd h (by simp)
    | cons b bs =>
      rw [List.cons_append, List.zip_cons_cons, List.zip_cons_cons, ih (Nat.le_of_succ_le_succ h)]

/-- A row shows its last cell, unless there are no more names than other cells. -/
theorem Row.zip_concat_inj {names cells : List Text} {a b : Text} :
    Row.zip names (cells ++ [a]) = Row.zip names (cells ++ [b]) ↔
      a = b ∨ names.length ≤ cells.length := by
  constructor
  · intro h
    by_cases hl : names.length ≤ cells.length
    · exact Or.inr hl
    have hlt : cells.length < names.length := Nat.lt_of_not_le hl
    have htake : (names.take cells.length).length = cells.length :=
      List.length_take_of_le (Nat.le_of_lt hlt)
    have hname (v : Text) : (Row.zip names (cells ++ [v])).get? names[cells.length] = some v := by
      have hzip : names.zip (cells ++ [v]) =
          (names.take cells.length).zip cells ++ [(names[cells.length], v)] := by
        nth_rewrite 1 [← List.take_append_drop cells.length names]
        rw [List.zip_append htake, List.drop_eq_getElem_cons hlt, List.zip_cons_cons,
          List.zip_nil_right]
      rw [Row.zip, hzip, OrderedMap.ofList_concat, OrderedMap.get?_put, if_pos rfl]
    have ha := hname a
    rw [h, hname b] at ha
    exact Or.inl (Option.some.inj ha).symm
  · rintro (rfl | h)
    · rfl
    · rw [Row.zip, Row.zip, zip_append_of_length_le h, zip_append_of_length_le h]

end LedgerExport
