import LedgerExport.Request.Document
import LedgerExport.Proofs.Request.Expression
import LedgerExport.Proofs.Text.Entity
import LedgerExport.Proofs.Text.Numeral

/-! # What callers bring into a request

Behind the period a request is made of fixed markup and of the texts of its table and company. The
markup has no brace in it and keeps the texts apart, so that a placeholder stands there only if it
stands in one of the texts. The main statement is `infix_content_iff`.
-/
namespace LedgerExport.Request
open Piece Text

/-- The texts that a request takes from its table and company. -/
def callerTexts (t : Table) (company : Text) : List Text :=
  company :: t.collection :: (t.fields.map Field.source ++ t.fetch ++ t.filters)

def contentPieces (t : Table) (company : Text) : List Piece :=
  let r := Route.parse t.collection
  formPieces company ++ partPieces r ++ linePieces r t.fields.length ++ fieldsPieces t.fields ++
    collectionPieces r t.fetch t.filters ++ formulaPieces t.filters ++ footerPieces

def content (t : Table) (company : Text) : Text := renderPieces (contentPieces t company)

def preface (start finish : Text) : Text := declaration ++ renderPieces (periodPieces start finish)

/-- The request for a table with the texts of the two ends of the period. -/
def dated (start finish : Text) (t : Table) (company : Text) : Text :=
  preface start finish ++ content t company

theorem renderPieces_append (a b : List Piece) :
    renderPieces (a ++ b) = renderPieces a ++ renderPieces b := List.flatMap_append

/-- The header writes one placeholder for each end of the period. -/
theorem compile_eq_dated (t : Table) (company : Text) :
    compile t company =
      dated (placeholder fromDateKey) (placeholder toDateKey) t company := by
  simp only [compile, documentPieces, headerPieces, dated, preface, content, contentPieces,
    renderPieces_append, List.append_assoc]

def Begun (pieces : List Piece) : Prop := ∀ x, pieces.head? ≠ some (.content x)

theorem begun_element {name : String} {inner : List Piece} {attributes : List (Text × Text)} :
    Begun (element name inner attributes) := by simp [Begun, element]

theorem begun_leaf {name : String} {x : Text} {attributes : List (Text × Text)} :
    Begun (leaf name x attributes) := begun_element

theorem begun_append {a b : List Piece} (ha : Begun a) (hb : Begun b) : Begun (a ++ b) := by
  cases a with
  | nil => exact hb
  | cons p ps => exact ha

theorem begun_flatMap {α : Type} {f : α → List Piece} (hf : ∀ a, Begun (f a)) (l : List α) :
    Begun (l.flatMap f) := by
  induction l with
  | nil => simp [Begun]
  | cons a as ih =>
    rw [List.flatMap_cons]
    exact begun_append (hf a) ih

theorem begun_render {pieces : List Piece} (h : Begun pieces) :
    renderPieces pieces = [] ∨ ∃ rest, renderPieces pieces = '<' :: rest := by
  cases pieces with
  | nil => exact Or.inl rfl
  | cons p ps =>
    cases p with
    | opening name attributes => exact Or.inr ⟨_, rfl⟩
    | closing name => exact Or.inr ⟨_, rfl⟩
    | content x => exact absurd rfl (h x)

theorem exists_mem_zipIdx_iff {α : Type} {l : List α} {k : Nat} {P : α → Prop} :
    (∃ e ∈ l.zipIdx k, P e.1) ↔ ∃ a ∈ l, P a := by
  constructor
  · rintro ⟨e, he, h⟩
    exact ⟨e.1, List.fst_mem_of_mem_zipIdx he, h⟩
  · rintro ⟨a, ha, h⟩
    rw [← List.zipIdx_map_fst k l] at ha
    obtain ⟨e, he, rfl⟩ := List.mem_map.mp ha
    exact ⟨e, he, h⟩

/-- A text to look for that begins with a brace and does not reach over tags and separators. -/
structure Sought (p : Text) : Prop where
  head : ∃ q, p = '{' :: q
  letters : ∀ c ∈ p, c = '{' ∨ c = '}' ∨ c.isAlpha = true

theorem sought_placeholder {key : Text} (h : ∀ c ∈ key, c.isAlpha = true) :
    Sought (placeholder key) where
  head := ⟨key ++ ['}'], rfl⟩
  letters c hc := by
    rcases List.mem_cons.mp hc with rfl | hc
    · exact Or.inl rfl
    · rcases List.mem_append.mp hc with hc | hc
      · exact Or.inr (Or.inr (h c hc))
      · exact Or.inr (Or.inl (List.mem_singleton.mp hc))

namespace Sought
variable {p : Text} (hp : Sought p)
include hp

theorem not_mem {c : Char} (h : ¬ (c = '{' ∨ c = '}' ∨ c.isAlpha = true)) : c ∉ p :=
  fun hc => h (hp.letters c hc)

theorem ne_nil : p ≠ [] := by
  obtain ⟨q, rfl⟩ := hp.head
  exact List.cons_ne_nil '{' q

/-- Text without a brace may stand before. -/
theorem infix_append_iff {a b : Text} (ha : '{' ∉ a) : p <:+: a ++ b ↔ p <:+: b := by
  obtain ⟨q, rfl⟩ := hp.head
  exact infix_append_iff_of_head ha

theorem not_infix {a : Text} (ha : '{' ∉ a) : ¬ p <:+: a := by
  obtain ⟨q, rfl⟩ := hp.head
  exact fun h => ha (h.subset List.mem_cons_self)

theorem infix_renderPieces_append_iff {a b : List Piece} (hb : Begun b) :
    p <:+: renderPieces (a ++ b) ↔ p <:+: renderPieces a ∨ p <:+: renderPieces b := by
  have hlt : '<' ∉ p := hp.not_mem (by decide)
  rw [renderPieces_append]
  rcases begun_render hb with h | ⟨rest, h⟩
  · simp [h, hp.ne_nil]
  · have hcons : p <:+: '<' :: rest ↔ p <:+: rest :=
      hp.infix_append_iff (a := ['<']) (by decide)
    rw [h, infix_append_cons_iff hlt, hcons]

theorem infix_renderPieces_flatMap_iff {α : Type} {f : α → List Piece} (hf : ∀ a, Begun (f a))
    (l : List α) :
    p <:+: renderPieces (l.flatMap f) ↔ ∃ a ∈ l, p <:+: renderPieces (f a) := by
  induction l with
  | nil => simp [renderPieces, hp.ne_nil]
  | cons a as ih =>
    rw [List.flatMap_cons, hp.infix_renderPieces_append_iff (begun_flatMap hf as), ih,
      List.exists_mem_cons_iff (a := a)]

theorem infix_numbered_iff {α : Type} {f : α × Nat → List Piece} {g : α → Text}
    (hf : ∀ e, Begun (f e)) (hg : ∀ a n, p <:+: renderPieces (f (a, n)) ↔ p <:+: g a) (l : List α)
    (k : Nat) : p <:+: renderPieces ((l.zipIdx k).flatMap f) ↔ ∃ a ∈ l, p <:+: g a := by
  rw [hp.infix_renderPieces_flatMap_iff hf,
    ← exists_mem_zipIdx_iff (k := k) (P := fun a => p <:+: g a)]
  exact exists_congr fun e => and_congr_right fun _ => hg e.1 e.2

/-- The tags of an element hide nothing and bring nothing. -/
theorem infix_element_iff {name : String} {inner : List Piece} {attributes : List (Text × Text)}
    (hn : '{' ∉ name.toList) (ha : '{' ∉ attributes.flatMap renderAttribute) :
    p <:+: renderPieces (element name inner attributes) ↔ p <:+: renderPieces inner := by
  have hclose : Begun [.closing name.toList] := by simp [Begun]
  have hopen : '{' ∉ (Piece.opening name.toList attributes).render := by
    simp only [Piece.render, List.mem_append, List.mem_cons, not_or]
    exact ⟨⟨⟨by decide, hn⟩, ha⟩, by decide⟩
  have hend : '{' ∉ renderPieces [.closing name.toList] := by
    simpa [renderPieces, Piece.render] using hn
  have hsplit : renderPieces (element name inner attributes) =
      (Piece.opening name.toList attributes).render ++
        renderPieces (inner ++ [.closing name.toList]) := rfl
  rw [hsplit, hp.infix_append_iff hopen, hp.infix_renderPieces_append_iff hclose]
  exact or_iff_left (hp.not_infix hend)

theorem infix_leaf_iff {name : String} {x : Text} {attributes : List (Text × Text)}
    (hn : '{' ∉ name.toList) (ha : '{' ∉ attributes.flatMap renderAttribute) :
    p <:+: renderPieces (leaf name x attributes) ↔ p <:+: x := by
  have hx : renderPieces [.content x] = x := List.append_nil x
  rw [leaf, hp.infix_element_iff hn ha, hx]

end Sought

theorem brace_not_mem_append {a b : Text} (ha : '{' ∉ a) (hb : '{' ∉ b) : '{' ∉ a ++ b := by
  rw [List.mem_append, not_or]
  exact ⟨ha, hb⟩

theorem brace_not_mem_padZero (width n : Nat) : '{' ∉ padZero width (decimal n) :=
  fun h => absurd (isDigit_of_mem_padZero h) (by decide)

theorem brace_not_mem_numbered {stem : String} (h : '{' ∉ stem.toList) (n : Nat) :
    '{' ∉ numbered stem n := brace_not_mem_append h (brace_not_mem_padZero 2 n)

theorem brace_not_mem_named {name : Text} (h : '{' ∉ name) :
    '{' ∉ (named name).flatMap renderAttribute := by
  simp [named, renderAttribute, h]

theorem brace_not_mem_nameList {name : Nat → Text} (h : ∀ n, '{' ∉ name n) (n : Nat) :
    '{' ∉ nameList name n := by
  intro hb
  rcases mem_join hb with hb | ⟨x, hx, hb⟩
  · exact absurd hb (by decide)
  · obtain ⟨k, -, rfl⟩ := List.mem_map.mp hx
    exact h k hb

section Fragments
variable {p : Text} (hp : Sought p)
include hp

theorem infix_valueExpression_iff (f : Field) : p <:+: valueExpression f ↔ p <:+: f.source := by
  by_cases h : isMethodReference f.source = true
  · have hsource : '{' ∉ f.source := (isMethodReference_iff.mp h).not_mem (by decide)
    have htemplate : '{' ∉ template f.kind f.source := not_mem_template (by decide) hsource
    rw [valueExpression, if_pos h]
    exact iff_of_false (hp.not_infix htemplate) (hp.not_infix hsource)
  · rw [valueExpression, if_neg h]

theorem infix_escape_iff (x : Text) : p <:+: escape x ↔ p <:+: x := by
  have hplain : ∀ c ∈ p, ∀ e ∈ entities, c ≠ e.2 := by
    have hall : ∀ e ∈ entities, ¬ (e.2 = '{' ∨ e.2 = '}' ∨ e.2.isAlpha = true) := by decide
    rintro c hc e he rfl
    exact hall e he (hp.letters e.2 hc)
  obtain ⟨q, rfl⟩ := hp.head
  exact Text.infix_escape_iff (by decide) hplain

theorem infix_formPieces_iff (company : Text) :
    p <:+: renderPieces (formPieces company) ↔ p <:+: company := by
  rw [formPieces, hp.infix_renderPieces_append_iff begun_element,
    hp.infix_renderPieces_append_iff begun_element,
    hp.infix_renderPieces_append_iff (by simp [Begun]),
    hp.infix_leaf_iff (by decide) (by decide), infix_escape_iff hp,
    or_iff_left (hp.not_infix (by decide)), or_iff_left (hp.not_infix (by decide)),
    or_iff_left (hp.not_infix (by decide))]

theorem infix_partPieces_iff (r : Route) :
    p <:+: renderPieces (partPieces r) ↔ ∃ route ∈ r.routes, p <:+: route := by
  have hpart (route : Text) (n : Nat) :
      p <:+: renderPieces (element "PART" (leaf "LINES" (lineName n) ++
        leaf "REPEAT" (lineName n ++ " : ".toList ++ route) ++
        leaf "SCROLLED" "Vertical".toList) (named (partName n))) ↔ p <:+: route := by
    have hline : '{' ∉ lineName n := brace_not_mem_numbered (by decide) n
    have hname : '{' ∉ (named (partName n)).flatMap renderAttribute :=
      brace_not_mem_named (brace_not_mem_numbered (by decide) n)
    rw [hp.infix_element_iff (by decide) hname, hp.infix_renderPieces_append_iff begun_leaf,
      hp.infix_renderPieces_append_iff begun_leaf, hp.infix_leaf_iff (by decide) (by decide),
      hp.infix_leaf_iff (by decide) (by decide), hp.infix_leaf_iff (by decide) (by decide),
      or_iff_left (hp.not_infix (by decide)), or_iff_right (hp.not_infix hline),
      hp.infix_append_iff (brace_not_mem_append hline (by decide))]
  exact hp.infix_numbered_iff (g := id) (fun _ => begun_element) hpart r.routes 1

/-- No text that is looked for stands in the lines. -/
theorem not_infix_linePieces (r : Route) (n : Nat) : ¬ p <:+: renderPieces (linePieces r n) := by
  have hblank : '{' ∉ blankField := by decide
  have hname (k : Nat) : '{' ∉ (named (lineName k)).flatMap renderAttribute :=
    brace_not_mem_named (brace_not_mem_numbered (by decide) k)
  have hfields : '{' ∉ nameList fieldName n :=
    brace_not_mem_nameList (brace_not_mem_numbered (by decide)) n
  rw [linePieces, hp.infix_renderPieces_append_iff begun_element,
    hp.infix_renderPieces_flatMap_iff fun _ => begun_element,
    hp.infix_element_iff (by decide) (hname r.depth), hp.infix_leaf_iff (by decide) (by decide),
    or_iff_left (hp.not_infix hfields)]
  rintro ⟨k, -, h⟩
  have hpart : '{' ∉ partName (k + 1) := brace_not_mem_numbered (by decide) (k + 1)
  rw [hp.infix_element_iff (by decide) (hname k), hp.infix_renderPieces_append_iff begun_leaf,
    hp.infix_leaf_iff (by decide) (by decide), hp.infix_leaf_iff (by decide) (by decide)] at h
  exact h.elim (hp.not_infix hblank) (hp.not_infix hpart)

/-- Fields bring in their sources, and their names do not stand in the request. -/
theorem infix_fieldsPieces_iff (fields : List Field) :
    p <:+: renderPieces (fieldsPieces fields) ↔ ∃ f ∈ fields, p <:+: f.source := by
  have hfield (f : Field) (n : Nat) :
      p <:+: renderPieces (fieldPieces f n) ↔ p <:+: f.source := by
    have htag : '{' ∉ fieldTag n := brace_not_mem_numbered (by decide) n
    have hname : '{' ∉ (named (fieldName n)).flatMap renderAttribute :=
      brace_not_mem_named (brace_not_mem_numbered (by decide) n)
    rw [fieldPieces, hp.infix_element_iff (by decide) hname,
      hp.infix_renderPieces_append_iff begun_leaf, hp.infix_leaf_iff (by decide) (by decide),
      hp.infix_leaf_iff (by decide) (by decide), or_iff_left (hp.not_infix htag),
      infix_valueExpression_iff hp]
  rw [fieldsPieces, hp.infix_renderPieces_append_iff begun_element,
    or_iff_left (hp.not_infix (by decide))]
  exact hp.infix_numbered_iff (fun _ => begun_element) hfield fields 1

/-- A collection holds its target and what it fetches. Filters stand in it by number only. -/
theorem infix_collectionPieces_iff (r : Route) (fetch filters : List Text) :
    p <:+: renderPieces (collectionPieces r fetch filters) ↔
      p <:+: r.target ∨ ∃ x ∈ fetch, p <:+: x := by
  have hfetch : p <:+: renderPieces (if fetch.isEmpty then [] else
      leaf "FETCH" (join [','] fetch)) ↔ ∃ x ∈ fetch, p <:+: x := by
    cases fetch with
    | nil => simp [renderPieces, hp.ne_nil]
    | cons x xs =>
      rw [List.isEmpty_cons, if_neg (by decide), hp.infix_leaf_iff (by decide) (by decide),
        infix_join_iff hp.ne_nil (hp.not_mem (by decide))]
  have hfilter : ¬ p <:+: renderPieces (if filters.isEmpty then [] else
      leaf "FILTER" (nameList filterName filters.length)) := by
    cases filters with
    | nil => simp [renderPieces, hp.ne_nil]
    | cons x xs =>
      rw [List.isEmpty_cons, if_neg (by decide), hp.infix_leaf_iff (by decide) (by decide)]
      exact hp.not_infix (brace_not_mem_nameList (brace_not_mem_numbered (by decide)) _)
  have hbegun {name : String} {x : Text} {b : Bool} :
      Begun (if b then [] else leaf name x) := by
    cases b with
    | true => simp [Begun]
    | false => exact begun_leaf
  rw [collectionPieces, hp.infix_element_iff (by decide) (by decide),
    hp.infix_renderPieces_append_iff hbegun, hp.infix_renderPieces_append_iff hbegun,
    hp.infix_leaf_iff (by decide) (by decide), hfetch, or_iff_left hfilter]

theorem infix_formulaPieces_iff (filters : List Text) :
    p <:+: renderPieces (formulaPieces filters) ↔ ∃ x ∈ filters, p <:+: x := by
  have hformula (x : Text) (n : Nat) :
      p <:+: renderPieces (leaf "SYSTEM" x
        (("TYPE".toList, "Formulae".toList) :: named (filterName n))) ↔ p <:+: x := by
    have hname : '{' ∉ (named (filterName n)).flatMap renderAttribute :=
      brace_not_mem_named (brace_not_mem_numbered (by decide) n)
    exact hp.infix_leaf_iff (by decide) (brace_not_mem_append (by decide) hname)
  exact hp.infix_numbered_iff (g := id) (fun _ => begun_leaf) hformula filters 1

theorem infix_route_iff (collection : Text) :
    (p <:+: (Route.parse collection).target ∨
        ∃ route ∈ (Route.parse collection).routes, p <:+: route) ↔ p <:+: collection := by
  have hown : ¬ p <:+: collectionName := hp.not_infix (by decide)
  conv_rhs => rw [← join_splitOn_singleton '.' collection,
    infix_join_iff hp.ne_nil (hp.not_mem (by decide))]
  rw [Route.parse]
  cases splitOn ['.'] collection with
  | nil => simp [hp.ne_nil, hown]
  | cons target rest => simp [hown]

/-- A placeholder stands in the content of a request if and only if a caller's text has it. -/
theorem infix_content_iff (t : Table) (company : Text) :
    p <:+: content t company ↔ ∃ x ∈ callerTexts t company, p <:+: x := by
  have hparts (r : Route) : Begun (partPieces r) := begun_flatMap (fun _ => begun_element) _
  have hlines (r : Route) (n : Nat) : Begun (linePieces r n) :=
    begun_append (begun_flatMap (fun _ => begun_element) _) begun_element
  have hfields : Begun (fieldsPieces t.fields) :=
    begun_append (begun_flatMap (fun _ => begun_element) _) begun_element
  have hcollection (r : Route) (fetch filters : List Text) :
      Begun (collectionPieces r fetch filters) := begun_element
  have hformulae : Begun (formulaPieces t.filters) := begun_flatMap (fun _ => begun_leaf) _
  have hfooter : Begun footerPieces := by simp [Begun, footerPieces]
  rw [content, contentPieces, hp.infix_renderPieces_append_iff hfooter,
    hp.infix_renderPieces_append_iff hformulae,
    hp.infix_renderPieces_append_iff (hcollection _ _ _),
    hp.infix_renderPieces_append_iff hfields, hp.infix_renderPieces_append_iff (hlines _ _),
    hp.infix_renderPieces_append_iff (hparts _), infix_formPieces_iff hp, infix_partPieces_iff hp,
    infix_fieldsPieces_iff hp, infix_collectionPieces_iff hp, infix_formulaPieces_iff hp,
    or_iff_left (hp.not_infix (by decide)), or_iff_left (not_infix_linePieces hp _ _)]
  have hsources : (∃ x, x ∈ t.fields.map Field.source ∧ p <:+: x) ↔
      ∃ f ∈ t.fields, p <:+: f.source := by simp
  simp only [callerTexts, List.exists_mem_cons_iff, List.mem_append, or_and_right, exists_or,
    hsources, ← infix_route_iff hp t.collection]
  simp only [or_assoc, or_left_comm, or_comm]

end Fragments

end LedgerExport.Request
