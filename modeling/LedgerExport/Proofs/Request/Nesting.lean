import LedgerExport.Job.Config
import LedgerExport.Proofs.Calendar.Writing
import LedgerExport.Proofs.Request.Placeholder
import LedgerExport.Proofs.Request.Tree

/-! # Nested tags

The tags of a request open and close its elements in last-in-first-out order. Filling values in
happens in the texts between the tags: a placeholder has no mark in it and so reaches over no tag,
no tag has a brace in it, and no value brings a mark. The main statement is `compile_nested`.
-/
namespace LedgerExport.Request
open Piece Text

/-- The names of the elements that are open behind the pieces, the innermost first, if each closing
tag closes the last one that was opened. -/
def openAfter : List Text → List Piece → Option (List Text)
  | names, [] => some names
  | names, .opening name _ :: rest => openAfter (name :: names) rest
  | names, .content _ :: rest => openAfter names rest
  | name :: names, .closing name' :: rest => if name = name' then openAfter names rest else none
  | [], .closing _ :: _ => none

/-- One element stands around all pieces and is not closed before the end. -/
def Nested (root : String) (pieces : List Piece) : Prop :=
  ∃ inner, pieces = [.content [], .opening root.toList []] ++ inner ++
    [.closing root.toList, .content []] ∧ openAfter [] inner = some []

namespace Piece

def isTag : Piece → Bool
  | .content _ => false
  | _ => true

def mapContent (f : Text → Text) : Piece → Piece
  | .content t => .content (f t)
  | p => p

end Piece

theorem Piece.map_mapContent_id (pieces : List Piece) : pieces.map (mapContent id) = pieces := by
  refine (List.map_congr_left fun p _ => ?_).trans (List.map_id pieces)
  cases p <;> rfl

def tags (pieces : List Piece) : List Piece := pieces.filter isTag

/-- What a reader with a stack of elements accepts opens and closes in order. -/
theorem openAfter_of_build {stack stack' : List Element} {pieces : List Piece}
    (hne : stack ≠ []) (h : build stack pieces = some stack') :
    openAfter (stack.dropLast.map Element.name) pieces =
      some (stack'.dropLast.map Element.name) := by
  -- the bottom of the stack stands for the document itself and is no open element
  induction pieces generalizing stack with
  | nil =>
    rw [build] at h
    rw [Option.some.inj h, openAfter]
  | cons p rest ih =>
    obtain ⟨e, stack, rfl⟩ := List.exists_cons_of_ne_nil hne
    cases p with
    | content t =>
      have hrest := ih (List.cons_ne_nil (e.add t []) stack) h
      rw [openAfter, ← hrest]
      cases stack <;> rfl
    | opening name attributes => exact ih (List.cons_ne_nil _ _) h
    | closing name =>
      cases stack with
      | nil => exact absurd h (Option.some_ne_none _).symm
      | cons parent stack =>
        rw [build] at h
        split at h
        · next hname =>
          have hrest := ih (List.cons_ne_nil (parent.add [] [e]) stack) h
          rw [List.dropLast_cons_of_ne_nil (List.cons_ne_nil parent stack), List.map_cons,
            openAfter, if_pos hname, ← hrest]
          cases stack <;> rfl
        · exact absurd h (Option.some_ne_none _).symm

theorem Reads.openAfter {pieces : List Piece} {text : Text} {children : List Element}
    (h : Reads pieces text children) : openAfter [] pieces = some [] := by
  have hbuild := h.build_append ⟨[], [], [], []⟩ [] []
  rw [List.append_nil] at hbuild
  exact openAfter_of_build (List.cons_ne_nil _ _) hbuild

section Spread
variable (f : Text → Text)

theorem openAfter_spread (names : List Text) (word : Text) (pieces : List Piece) :
    openAfter names (spread word pieces) = openAfter names pieces := by
  induction pieces generalizing names word with
  | nil => rfl
  | cons p rest ih =>
    cases p with
    | content t => exact ih names (word ++ t)
    | opening name attributes => exact ih (name :: names) []
    | closing name =>
      cases names with
      | nil => rfl
      | cons name' names => simp only [spread, openAfter, ih]

/-- Changing texts opens and closes nothing. -/
theorem openAfter_map (names : List Text) (pieces : List Piece) :
    openAfter names (pieces.map (mapContent f)) = openAfter names pieces := by
  induction pieces generalizing names with
  | nil => rfl
  | cons p rest ih =>
    cases p with
    | content t => exact ih names
    | opening name attributes => exact ih (name :: names)
    | closing name =>
      cases names with
      | nil => rfl
      | cons name' names => simp only [List.map_cons, mapContent, openAfter, ih]

theorem tags_map (pieces : List Piece) : tags (pieces.map (mapContent f)) = tags pieces := by
  induction pieces with
  | nil => rfl
  | cons p rest ih =>
    rw [tags, tags] at ih
    cases p <;> simp [tags, List.filter_cons, isTag, mapContent, ih]

/-- Pieces that have been read with a text between any two tags are read like that again. -/
theorem spread_map (word : Text) (pieces : List Piece) :
    spread [] ((spread word pieces).map (mapContent f)) =
      (spread word pieces).map (mapContent f) := by
  induction pieces generalizing word with
  | nil => rfl
  | cons p rest ih =>
    cases p with
    | content t => exact ih (word ++ t)
    | opening name attributes => simp [spread, mapContent, ih]
    | closing name => simp [spread, mapContent, ih]

theorem spread_append_closing (word name : Text) (pieces : List Piece) :
    spread word (pieces ++ [.closing name]) =
      spread word pieces ++ [.closing name, .content []] := by
  induction pieces generalizing word with
  | nil => rfl
  | cons p rest ih => cases p <;> simp [spread, ih]

theorem renderPieces_spread (word : Text) (pieces : List Piece) :
    renderPieces (spread word pieces) = word ++ renderPieces pieces := by
  induction pieces generalizing word with
  | nil => rfl
  | cons p rest ih => cases p <;> simp_all [spread, renderPieces, Piece.render]

theorem legible_spread {word : Text} {pieces : List Piece} (hword : '<' ∉ word)
    (h : ∀ p ∈ pieces, Legible p) : ∀ p ∈ spread word pieces, Legible p := by
  induction pieces generalizing word with
  | nil => simpa [spread, Legible] using hword
  | cons p rest ih =>
    obtain ⟨hp, hrest⟩ := List.forall_mem_cons.mp h
    cases p with
    | content t =>
      refine ih ?_ hrest
      rw [List.mem_append, not_or]
      exact ⟨hword, hp⟩
    | opening name attributes =>
      have hbehind := List.forall_mem_cons.mpr ⟨hp, ih List.not_mem_nil hrest⟩
      exact List.forall_mem_cons.mpr ⟨hword, hbehind⟩
    | closing name =>
      have hbehind := List.forall_mem_cons.mpr ⟨hp, ih List.not_mem_nil hrest⟩
      exact List.forall_mem_cons.mpr ⟨hword, hbehind⟩

theorem legible_map {f : Text → Text} (hf : ∀ x, '<' ∉ x → '<' ∉ f x) {pieces : List Piece}
    (h : ∀ p ∈ pieces, Legible p) : ∀ p ∈ pieces.map (mapContent f), Legible p := by
  intro p hp
  obtain ⟨q, hq, rfl⟩ := List.mem_map.mp hp
  cases q with
  | content t => exact hf t (h _ hq)
  | opening name attributes => exact h _ hq
  | closing name => exact h _ hq

end Spread

/-- A tag that can be read begins with its only mark and has no brace. -/
theorem render_tag {p : Piece} (h : Legible p) (hp : p.isTag = true) :
    ∃ body, p.render = '<' :: body ∧ '{' ∉ body := by
  cases p with
  | content t => exact absurd hp (by simp [isTag])
  | opening name attributes =>
    refine ⟨name ++ attributes.flatMap renderAttribute ++ ['>'], rfl, ?_⟩
    refine brace_not_mem_append (brace_not_mem_append ?_ ?_) (by decide)
    · exact h.1.not_mem (by decide)
    · exact not_mem_renderAttributes h.2 (by decide)
  | closing name =>
    have hname : IsWord name := h
    exact ⟨'/' :: name ++ ['>'], rfl, brace_not_mem_append
      (brace_not_mem_append (a := ['/']) (by decide) (hname.not_mem (by decide))) (by decide)⟩

section Filling
variable {key out : Text} (hkey : '<' ∉ key)
include hkey

/-- A key is filled in on each side of a tag, and the tag stays. -/
theorem replaceAll_render_tag {p : Piece} (h : Legible p) (hp : p.isTag = true) (x y : Text) :
    replaceAll (placeholder key) out (x ++ (p.render ++ y)) =
      replaceAll (placeholder key) out x ++ (p.render ++ replaceAll (placeholder key) out y) := by
  obtain ⟨body, hrender, hbody⟩ := render_tag h hp
  have hmark : '<' ∉ placeholder key := by simp [placeholder, hkey]
  have hstop := stopsAt_literal (placeholder_ne_nil key) hmark out
  rw [hrender, List.cons_append, replaceAll, hstop.replaceBy_append_cons, ← replaceAll,
    replaceAll_placeholder_append hbody, List.cons_append]

/-- Replacing goes into the texts between the tags and leaves the tags alone. -/
theorem replaceAll_renderPieces {pieces : List Piece} (h : ∀ p ∈ pieces, Legible p)
    (word : Text) : replaceAll (placeholder key) out (renderPieces (spread word pieces)) =
      renderPieces ((spread word pieces).map (mapContent (replaceAll (placeholder key) out))) := by
  induction pieces generalizing word with
  | nil => simp [spread, renderPieces, Piece.render, mapContent]
  | cons p rest ih =>
    obtain ⟨hp, hrest⟩ := List.forall_mem_cons.mp h
    have htag (hp' : p.isTag = true) :
        replaceAll (placeholder key) out (renderPieces (.content word :: p :: spread [] rest)) =
          renderPieces (.content (replaceAll (placeholder key) out word) :: p ::
            (spread [] rest).map (mapContent (replaceAll (placeholder key) out))) := by
      have hrender (x : Text) (ps : List Piece) :
          renderPieces (.content x :: p :: ps) = x ++ (p.render ++ renderPieces ps) := by
        simp [renderPieces, Piece.render]
      rw [hrender, replaceAll_render_tag hkey hp hp', ih hrest, hrender]
    cases p with
    | content t => exact ih hrest (word ++ t)
    | opening name attributes => exact htag rfl
    | closing name => exact htag rfl

end Filling

theorem substitute_nil (values : SubstitutionSet) : substitute [] values = [] := by
  obtain ⟨entries⟩ := values
  induction entries with
  | nil => rfl
  | cons e es ih => exact ih

def MarkFreeEntries (entries : List (Text × Value)) : Prop :=
  ∀ e ∈ entries, '<' ∉ e.1 ∧ '<' ∉ e.2.render

theorem mark_not_mem_substitute {entries : List (Text × Value)} (h : MarkFreeEntries entries)
    {x : Text} (hx : '<' ∉ x) : '<' ∉ substitute x ⟨entries⟩ := by
  induction entries generalizing x with
  | nil => exact hx
  | cons e es ih =>
    obtain ⟨he, hes⟩ := List.forall_mem_cons.mp h
    exact ih hes (not_mem_replaceAll (placeholder_ne_nil e.1) he.2 hx)

/-- Filling values in changes the texts of a document, each on its own. -/
theorem substitute_renderPieces {entries : List (Text × Value)} (h : MarkFreeEntries entries)
    {word : Text} {pieces : List Piece} (hword : '<' ∉ word) (hpieces : ∀ p ∈ pieces, Legible p) :
    substitute (declaration ++ renderPieces (spread word pieces)) ⟨entries⟩ = declaration ++
      renderPieces ((spread word pieces).map (mapContent (substitute · ⟨entries⟩))) := by
  induction entries generalizing word pieces with
  | nil => exact congrArg (declaration ++ renderPieces ·) (map_mapContent_id _).symm
  | cons e es ih =>
    obtain ⟨he, hes⟩ := List.forall_mem_cons.mp h
    have hfilled := legible_map (f := replaceAll (placeholder e.1) e.2.render)
      (fun x hx => not_mem_replaceAll (placeholder_ne_nil e.1) he.2 hx)
      (legible_spread hword hpieces)
    have hstep := ih hes List.not_mem_nil hfilled
    rw [spread_map, List.map_map] at hstep
    have hcompose : mapContent (substitute · ⟨es⟩) ∘
        mapContent (replaceAll (placeholder e.1) e.2.render) =
        mapContent (substitute · ⟨e :: es⟩) := by
      funext p
      cases p <;> rfl
    rw [hcompose, ← replaceAll_renderPieces he.1 hpieces] at hstep
    rw [← hstep, substitute, List.foldl_cons, replaceAll_placeholder_append (by decide)]
    rfl

/-- The two dates and the escaped company bring no mark. -/
theorem markFreeEntries_substitutions {c : JobConfig} {values : SubstitutionSet}
    (h : c.substitutions = .ok values) : MarkFreeEntries values.entries := by
  rw [JobConfig.substitutions] at h
  cases hp : c.period with
  | error invalid =>
    rw [hp] at h
    cases h
  | ok period =>
    obtain ⟨a, b⟩ := period
    rw [hp] at h
    have hdate (d : Date) : '<' ∉ d.compact := d.not_mem_compact (by decide) (by decide)
    have hentries : values.entries = [(fromDateKey, .ofDate a),
        (JobConfig.targetCompanyKey, .text c.effectiveCompany), (toDateKey, .ofDate b)] :=
      congrArg SubstitutionSet.entries (Except.ok.inj h).symm
    have hkeys : '<' ∉ fromDateKey ∧ '<' ∉ JobConfig.targetCompanyKey ∧ '<' ∉ toDateKey := by decide
    rw [hentries, MarkFreeEntries]
    simp only [List.forall_mem_cons]
    exact ⟨⟨hkeys.1, hdate a⟩, ⟨hkeys.2.1, mark_not_mem_escape _⟩, ⟨hkeys.2.2, hdate b⟩,
      List.forall_mem_nil _⟩

/-- Whatever the texts of its document become, a request stays nested with the same tags. -/
theorem MarkFree.nested_map {t : Table} (h : MarkFree t) (company : Text) {f : Text → Text}
    (hf : f [] = []) :
    Nested "ENVELOPE" ((spread [] (documentPieces t company)).map (mapContent f)) := by
  refine ⟨(spread [] (envelopePieces t company)).map (mapContent f), ?_, ?_⟩
  · simp [documentPieces_eq, element, spread, spread_append_closing, mapContent, hf]
  · rw [openAfter_map, openAfter_spread]
    exact (h.reads_envelope company).openAfter

/-- The tags of a request are nested in one envelope, and filling in the values of a job leaves them
as they are, whatever the two companies are called. -/
theorem compile_nested {t : Table} (h : MarkFree t) (company : Text) :
    ∃ pieces, readDocument (compile t company) = some pieces ∧ Nested "ENVELOPE" pieces ∧
      ∀ (c : JobConfig) (values : SubstitutionSet), c.substitutions = .ok values →
        ∃ filled, readDocument (substitute (compile t company) values) = some filled ∧
          Nested "ENVELOPE" filled ∧ tags filled = tags pieces := by
  have hlegible := (h.reads_document company).legible
  have hnested := h.nested_map company (f := id) rfl
  rw [map_mapContent_id] at hnested
  refine ⟨_, h.readDocument_compile company, hnested, ?_⟩
  intro c values hvalues
  have hentries := markFreeEntries_substitutions hvalues
  have hfill : substitute (compile t company) values = declaration ++ renderPieces
      ((spread [] (documentPieces t company)).map (mapContent (substitute · values))) := by
    have hcompile : compile t company =
        declaration ++ renderPieces (spread [] (documentPieces t company)) := by
      rw [renderPieces_spread]
      rfl
    rw [hcompile]
    exact substitute_renderPieces hentries List.not_mem_nil hlegible
  have hfilled := legible_map (fun x hx => mark_not_mem_substitute hentries hx)
    (legible_spread List.not_mem_nil hlegible)
  refine ⟨_, ?_, h.nested_map company (f := (substitute · values)) (substitute_nil values),
    tags_map _ _⟩
  rw [hfill, readDocument, after?_append, Option.bind_some, readPieces_renderPieces hfilled,
    spread_map]

/-- Groups with a filter into which the company is filled. -/
def ownGroups : Table where
  name := "own groups".toList
  collection := "Group".toList
  fields := [⟨"name".toList, "Name".toList, .text⟩]
  filters := ["$Owner = \"{targetCompany}\"".toList]

def ownJob : JobConfig where
  definition := "groups.yaml".toList
  fromDate := "2024-04-01".toList
  toDate := "2025-03-31".toList
  company := some "<A & B>".toList
  server := "localhost".toList
  port := 9000

theorem compile_ownGroups_nested :
    ∃ pieces filled, readDocument (compile ownGroups "</ENVELOPE>".toList) = some pieces ∧
      Nested "ENVELOPE" pieces ∧
      readDocument (substitute (compile ownGroups "</ENVELOPE>".toList)
        (ownJob.valuesOf (⟨2024, 4, 1, by decide⟩, ⟨2025, 3, 31, by decide⟩))) = some filled ∧
      Nested "ENVELOPE" filled ∧ tags filled = tags pieces := by
  have hfree : MarkFree ownGroups := ⟨by decide, by decide, by decide, by decide⟩
  obtain ⟨pieces, hpieces, hnested, hfill⟩ := compile_nested hfree "</ENVELOPE>".toList
  have hvalues : ownJob.substitutions =
      .ok (ownJob.valuesOf (⟨2024, 4, 1, by decide⟩, ⟨2025, 3, 31, by decide⟩)) := rfl
  obtain ⟨filled, hfilled, hnested', htags⟩ := hfill _ _ hvalues
  exact ⟨pieces, filled, hpieces, hnested, hfilled, hnested', htags⟩

end LedgerExport.Request
