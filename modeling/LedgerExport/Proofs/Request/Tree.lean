import LedgerExport.Proofs.Request.Reading
import LedgerExport.Proofs.Request.Route
import LedgerExport.Proofs.Text.Entity

/-! # Requests as trees of elements

Tags are read with a stack of the elements that are open: a closing tag must close the last of them,
which then goes to its parent. What a request holds is read back as one tree, so that statements
about the tree are statements about its text. The main statement is `readElement_compile`.
-/
namespace LedgerExport.Request
open Piece Text

/-- An element with the text and the elements that stand directly in it. -/
structure Element where
  name : Text
  attributes : List (Text × Text)
  text : Text
  children : List Element

namespace Element

def add (e : Element) (text : Text) (children : List Element) : Element :=
  ⟨e.name, e.attributes, e.text ++ text, e.children ++ children⟩

@[simp] theorem add_nil (e : Element) : e.add [] [] = e := by
  obtain ⟨name, attributes, text, children⟩ := e
  simp [add]

@[simp] theorem add_add (e : Element) (s t : Text) (xs ys : List Element) :
    (e.add s xs).add t ys = e.add (s ++ t) (xs ++ ys) := by simp [add]

def ofText (name : String) (text : Text) (attributes : List (Text × Text) := []) : Element :=
  ⟨name.toList, attributes, text, []⟩

def ofChildren (name : String) (children : List Element) (attributes : List (Text × Text) := []) :
    Element := ⟨name.toList, attributes, [], children⟩

end Element

/-- Reading with a stack of open elements, the innermost first. -/
def build : List Element → List Piece → Option (List Element)
  | stack, [] => some stack
  | stack, .opening name attributes :: rest => build (⟨name, attributes, [], []⟩ :: stack) rest
  | e :: stack, .content t :: rest => build (e.add t [] :: stack) rest
  | e :: parent :: stack, .closing name :: rest =>
    if e.name = name then build (parent.add [] [e] :: stack) rest else none
  | _, _ => none

def readElement (t : Text) : Option Element :=
  match (readDocument t).bind (build [⟨[], [], [], []⟩]) with
  | some [⟨_, _, [], [root]⟩] => some root
  | _ => none

/-- The texts of a spread add up to those of its pieces. -/
theorem build_spread (e : Element) (stack : List Element) (word : Text) (pieces : List Piece) :
    build (e :: stack) (spread word pieces) = build (e.add word [] :: stack) pieces := by
  induction pieces generalizing e stack word with
  | nil => rfl
  | cons p rest ih =>
    cases p with
    | content t => simp [spread, build, ih]
    | opening name attributes => simp [spread, build, ih]
    | closing name =>
      cases stack with
      | nil => rfl
      | cons parent stack =>
        simp only [spread, build, ih, Element.add_nil]

/-- The pieces are read as the given text and elements, whatever stands before and behind them. -/
structure Reads (pieces : List Piece) (text : Text) (children : List Element) : Prop where
  legible : ∀ p ∈ pieces, Legible p
  build_append : ∀ e stack rest,
    build (e :: stack) (pieces ++ rest) = build (e.add text children :: stack) rest

theorem reads_nil : Reads [] [] [] where
  legible p hp := absurd hp List.not_mem_nil
  build_append e stack rest := by simp

theorem reads_content {t : Text} (ht : '<' ∉ t) : Reads [.content t] t [] where
  legible p hp := by
    rw [List.mem_singleton.mp hp]
    exact ht
  build_append e stack rest := rfl

theorem Reads.append {a b : List Piece} {s t : Text} {xs ys : List Element} (ha : Reads a s xs)
    (hb : Reads b t ys) : Reads (a ++ b) (s ++ t) (xs ++ ys) where
  legible p hp := by
    rcases List.mem_append.mp hp with hp | hp
    · exact ha.legible p hp
    · exact hb.legible p hp
  build_append e stack rest := by
    rw [List.append_assoc, ha.build_append, hb.build_append, Element.add_add]

/-- An element is one child with what its inside is read as. -/
theorem Reads.element {inner : List Piece} {text : Text} {children : List Element} {name : String}
    {attributes : List (Text × Text)} (h : Reads inner text children) (hn : IsWord name.toList)
    (ha : ∀ a ∈ attributes, IsWord a.1 ∧ IsWord a.2) :
    Reads (element name inner attributes) [] [⟨name.toList, attributes, text, children⟩] where
  legible p hp := by
    rcases List.mem_append.mp hp with hp | hp
    · rcases List.mem_cons.mp hp with rfl | hp
      · exact ⟨hn, ha⟩
      · exact h.legible p hp
    · rw [List.mem_singleton.mp hp]
      exact hn
  build_append e stack rest := by
    rw [Piece.element, List.cons_append, List.cons_append, build, List.append_assoc,
      h.build_append, List.singleton_append, build]
    exact if_pos rfl

theorem reads_leaf {name : String} {t : Text} (ht : '<' ∉ t) (hn : IsWord name.toList) :
    Reads (leaf name t) [] [.ofText name t] :=
  (reads_content ht).element hn (List.forall_mem_nil _)

theorem reads_group {inner : List Piece} {children : List Element} {name : String}
    (h : Reads inner [] children) (hn : IsWord name.toList) :
    Reads (element name inner) [] [.ofChildren name children] :=
  h.element hn (List.forall_mem_nil _)

theorem words_named {name : Text} (h : IsWord name) :
    ∀ a ∈ named name, IsWord a.1 ∧ IsWord a.2 := by
  intro a ha
  obtain rfl := List.mem_singleton.mp ha
  have hkey : IsWord "NAME".toList := by decide
  exact ⟨hkey, h⟩

theorem reads_definition {inner : List Piece} {children : List Element} {kind : String}
    {name : Text} (h : Reads inner [] children) (hk : IsWord kind.toList) (hn : IsWord name) :
    Reads (element kind inner (named name)) [] [.ofChildren kind children (named name)] :=
  h.element hk (words_named hn)

theorem reads_flatMap {α : Type} {f : α → List Piece} {g : α → Element} {l : List α}
    (h : ∀ a ∈ l, Reads (f a) [] [g a]) : Reads (l.flatMap f) [] (l.map g) := by
  induction l with
  | nil => exact reads_nil
  | cons a as ih =>
    exact (h a List.mem_cons_self).append (ih fun b hb => h b (List.mem_cons_of_mem a hb))

section Elements

def partElement (route : Text) (n : Nat) : Element :=
  .ofChildren "PART" [.ofText "LINES" (lineName n),
    .ofText "REPEAT" (lineName n ++ " : ".toList ++ route),
    .ofText "SCROLLED" "Vertical".toList] (named (partName n))

def stepElement (n : Nat) : Element :=
  .ofChildren "LINE" [.ofText "FIELDS" blankField, .ofText "EXPLODE" (partName (n + 1))]
    (named (lineName n))

def lastElement (depth fieldCount : Nat) : Element :=
  .ofChildren "LINE" [.ofText "FIELDS" (nameList fieldName fieldCount)] (named (lineName depth))

def fieldElement (f : Field) (n : Nat) : Element :=
  .ofChildren "FIELD" [.ofText "SET" (valueExpression f), .ofText "XMLTAG" (fieldTag n)]
    (named (fieldName n))

def blankElement : Element :=
  .ofChildren "FIELD" [.ofText "SET" "\"\"".toList] (named blankField)

def collectionElement (target : Text) (fetch filters : List Text) : Element :=
  .ofChildren "COLLECTION" ([.ofText "TYPE" target] ++
    (if fetch.isEmpty then [] else [.ofText "FETCH" (join [','] fetch)]) ++
    (if filters.isEmpty then [] else
      [.ofText "FILTER" (nameList filterName filters.length)])) (named collectionName)

def formulaElement (filter : Text) (n : Nat) : Element :=
  .ofText "SYSTEM" filter (("TYPE".toList, "Formulae".toList) :: named (filterName n))

def definitions (t : Table) : List Element :=
  let r := Route.parse t.collection
  (r.routes.zipIdx 1).map (fun e => partElement e.1 e.2) ++
    ((List.range' 1 (r.depth - 1)).map stepElement ++ [lastElement r.depth t.fields.length]) ++
    ((t.fields.zipIdx 1).map (fun e => fieldElement e.1 e.2) ++ [blankElement]) ++
    [collectionElement r.target t.fetch t.filters] ++
    (t.filters.zipIdx 1).map (fun e => formulaElement e.1 e.2)

def variablesElement (company : Text) : Element :=
  .ofChildren "STATICVARIABLES" [.ofText "SVEXPORTFORMAT" "XML (Data Interchange)".toList,
    .ofText "SVFROMDATE" (placeholder fromDateKey), .ofText "SVTODATE" (placeholder toDateKey),
    .ofText "SVCURRENTCOMPANY" (escape company)]

def headElement : Element :=
  .ofChildren "HEADER" [.ofText "VERSION" "1".toList, .ofText "TALLYREQUEST" "Export".toList,
    .ofText "TYPE" "Data".toList, .ofText "ID" reportName]

def formElements : List Element :=
  [.ofChildren "REPORT" [.ofText "FORMS" formName] (named reportName),
    .ofChildren "FORM" [.ofText "PARTS" (partName 1)] (named formName)]

def requestElement (t : Table) (company : Text) : Element :=
  .ofChildren "ENVELOPE" [headElement, .ofChildren "BODY" [.ofChildren "DESC"
    [variablesElement company, .ofChildren "TDL"
      [.ofChildren "TDLMESSAGE" (formElements ++ definitions t)]]]]

end Elements

/-- The texts that a table brings into the markup of its request hold no mark. -/
structure MarkFree (t : Table) : Prop where
  collection : '<' ∉ t.collection
  expressions : ∀ f ∈ t.fields, '<' ∉ valueExpression f
  fetch : ∀ x ∈ t.fetch, '<' ∉ x
  filters : ∀ x ∈ t.filters, '<' ∉ x

theorem mark_not_mem_escape (x : Text) : '<' ∉ escape x := by
  intro h
  obtain ⟨c, -, hc⟩ := List.mem_flatMap.mp h
  have hentities : ∀ e ∈ entities, '<' ∉ e.1 := by decide
  have hself : '<' ∉ escapeChar '<' := by decide
  rcases escapeChar_cases c with he | ⟨e, he, -, hec⟩
  · rw [he] at hc
    obtain rfl := List.mem_singleton.mp hc
    rw [he] at hself
    exact hself List.mem_cons_self
  · exact hentities e he (hec ▸ hc)

theorem not_mem_nameList {stem : String} (h : IsWord stem.toList) (n : Nat) :
    '<' ∉ nameList (numbered stem) n := by
  intro hm
  rcases mem_join hm with hm | ⟨x, hx, hm⟩
  · exact absurd hm (by decide)
  · obtain ⟨k, -, rfl⟩ := List.mem_map.mp hx
    exact (isWord_numbered h k).not_mem (by decide) hm

theorem reads_parts {r : Route} (h : ∀ route ∈ r.routes, '<' ∉ route) :
    Reads (partPieces r) [] ((r.routes.zipIdx 1).map fun e => partElement e.1 e.2) := by
  refine reads_flatMap fun e he => ?_
  have hroute := h e.1 (List.fst_mem_of_mem_zipIdx he)
  have hline : IsWord (lineName e.2) := isWord_numbered (by decide) e.2
  have hrepeat : '<' ∉ lineName e.2 ++ " : ".toList ++ e.1 := by
    rw [List.mem_append, List.mem_append, not_or, not_or]
    exact ⟨⟨hline.not_mem (by decide), by decide⟩, hroute⟩
  exact reads_definition (((reads_leaf (hline.not_mem (by decide)) (by decide)).append
    (reads_leaf hrepeat (by decide))).append (reads_leaf (by decide) (by decide))) (by decide)
    (isWord_numbered (by decide) e.2)

theorem reads_lines (r : Route) (count : Nat) : Reads (linePieces r count) []
    ((List.range' 1 (r.depth - 1)).map stepElement ++ [lastElement r.depth count]) := by
  refine Reads.append (s := []) (reads_flatMap fun n _ => ?_) ?_
  · have hpart : IsWord (partName (n + 1)) := isWord_numbered (by decide) (n + 1)
    exact reads_definition ((reads_leaf (by decide) (by decide)).append
      (reads_leaf (hpart.not_mem (by decide)) (by decide))) (by decide)
      (isWord_numbered (by decide) n)
  · exact reads_definition (reads_leaf (not_mem_nameList (by decide) count) (by decide))
      (by decide) (isWord_numbered (by decide) r.depth)

theorem reads_field {f : Field} (h : '<' ∉ valueExpression f) (n : Nat) :
    Reads (fieldPieces f n) [] [fieldElement f n] := by
  have htag : IsWord (fieldTag n) := isWord_numbered (by decide) n
  exact reads_definition ((reads_leaf h (by decide)).append
    (reads_leaf (htag.not_mem (by decide)) (by decide))) (by decide)
    (isWord_numbered (by decide) n)

theorem reads_fields {fields : List Field} (h : ∀ f ∈ fields, '<' ∉ valueExpression f) :
    Reads (fieldsPieces fields) []
      ((fields.zipIdx 1).map (fun e => fieldElement e.1 e.2) ++ [blankElement]) := by
  refine Reads.append (s := []) (reads_flatMap fun e he => ?_) ?_
  · exact reads_field (h e.1 (List.fst_mem_of_mem_zipIdx he)) e.2
  · exact reads_definition (reads_leaf (by decide) (by decide)) (by decide) (by decide)

theorem reads_collection {r : Route} {fetch : List Text} (filters : List Text)
    (ht : '<' ∉ r.target) (hf : ∀ x ∈ fetch, '<' ∉ x) :
    Reads (collectionPieces r fetch filters) [] [collectionElement r.target fetch filters] := by
  have hoption {b : Bool} {name : String} {x : Text} (hx : '<' ∉ x) (hn : IsWord name.toList) :
      Reads (if b then [] else leaf name x) [] (if b then [] else [.ofText name x]) := by
    cases b with
    | true => exact reads_nil
    | false => exact reads_leaf hx hn
  have hfetch : '<' ∉ join [','] fetch := by
    intro hm
    rcases mem_join hm with hm | ⟨x, hx, hm⟩
    · exact absurd hm (by decide)
    · exact hf x hx hm
  exact reads_definition (((reads_leaf ht (by decide)).append
    (hoption hfetch (by decide))).append
    (hoption (not_mem_nameList (by decide) filters.length) (by decide))) (by decide) (by decide)

theorem reads_formulae {filters : List Text} (h : ∀ x ∈ filters, '<' ∉ x) :
    Reads (formulaPieces filters) [] ((filters.zipIdx 1).map fun e => formulaElement e.1 e.2) := by
  refine reads_flatMap fun e he => ?_
  have hname : IsWord (filterName e.2) := isWord_numbered (by decide) e.2
  refine (reads_content (h e.1 (List.fst_mem_of_mem_zipIdx he))).element (by decide) fun a ha => ?_
  rcases List.mem_cons.mp ha with rfl | ha
  · decide
  · exact words_named hname a ha

theorem MarkFree.reads_definitions {t : Table} (h : MarkFree t) :
    Reads (partPieces (Route.parse t.collection) ++
      linePieces (Route.parse t.collection) t.fields.length ++ fieldsPieces t.fields ++
      collectionPieces (Route.parse t.collection) t.fetch t.filters ++ formulaPieces t.filters) []
      (definitions t) := by
  obtain ⟨target, rest, hsplit, hparse⟩ := Route.parse_eq t.collection
  have hsegment : ∀ x ∈ target :: rest, '<' ∉ x := by
    intro x hx
    exact not_mem_of_mem_splitOn (by decide) h.collection (hsplit ▸ hx)
  have htarget : '<' ∉ (Route.parse t.collection).target := by
    rw [hparse]
    exact hsegment target List.mem_cons_self
  have hroutes : ∀ route ∈ (Route.parse t.collection).routes, '<' ∉ route := by
    intro route hr
    rw [hparse] at hr
    rcases List.mem_cons.mp hr with rfl | hr
    · decide
    · exact hsegment route (List.mem_cons_of_mem target hr)
  exact ((((reads_parts hroutes).append (reads_lines _ _)).append
    (reads_fields h.expressions)).append (reads_collection _ htarget h.fetch)).append
    (reads_formulae h.filters)

theorem reads_form : Reads (element "REPORT" (leaf "FORMS" formName) (named reportName) ++
    element "FORM" (leaf "PARTS" (partName 1)) (named formName)) [] formElements :=
  (reads_definition (reads_leaf (by decide) (by decide)) (by decide) (by decide)).append
    (reads_definition (reads_leaf (by decide) (by decide)) (by decide) (by decide))

theorem reads_head : Reads (element "HEADER" (leaf "VERSION" "1".toList ++
    leaf "TALLYREQUEST" "Export".toList ++ leaf "TYPE" "Data".toList ++ leaf "ID" reportName)) []
    [headElement] :=
  reads_group ((((reads_leaf (by decide) (by decide)).append
    (reads_leaf (by decide) (by decide))).append (reads_leaf (by decide) (by decide))).append
    (reads_leaf (by decide) (by decide))) (by decide)

theorem reads_variables (company : Text) : Reads (element "STATICVARIABLES"
    (leaf "SVEXPORTFORMAT" "XML (Data Interchange)".toList ++
      leaf "SVFROMDATE" (placeholder fromDateKey) ++ leaf "SVTODATE" (placeholder toDateKey) ++
      leaf "SVCURRENTCOMPANY" (escape company))) [] [variablesElement company] :=
  reads_group ((((reads_leaf (by decide) (by decide)).append
    (reads_leaf (by decide) (by decide))).append (reads_leaf (by decide) (by decide))).append
    (reads_leaf (mark_not_mem_escape company) (by decide))) (by decide)

def envelopePieces (t : Table) (company : Text) : List Piece :=
  element "HEADER" (leaf "VERSION" "1".toList ++ leaf "TALLYREQUEST" "Export".toList ++
    leaf "TYPE" "Data".toList ++ leaf "ID" reportName) ++
  element "BODY" (element "DESC" (
    element "STATICVARIABLES" (leaf "SVEXPORTFORMAT" "XML (Data Interchange)".toList ++
      leaf "SVFROMDATE" (placeholder fromDateKey) ++ leaf "SVTODATE" (placeholder toDateKey) ++
      leaf "SVCURRENTCOMPANY" (escape company)) ++
    element "TDL" (element "TDLMESSAGE" (
      element "REPORT" (leaf "FORMS" formName) (named reportName) ++
      element "FORM" (leaf "PARTS" (partName 1)) (named formName) ++
      (partPieces (Route.parse t.collection) ++
        linePieces (Route.parse t.collection) t.fields.length ++ fieldsPieces t.fields ++
        collectionPieces (Route.parse t.collection) t.fetch t.filters ++
        formulaPieces t.filters)))))

/-- What the header opens the footer closes, around all that is defined. -/
theorem documentPieces_eq (t : Table) (company : Text) :
    documentPieces t company = element "ENVELOPE" (envelopePieces t company) := by
  simp [documentPieces, headerPieces, periodPieces, formPieces, footerPieces, envelopePieces,
    element, leaf]

theorem MarkFree.reads_envelope {t : Table} (h : MarkFree t) (company : Text) :
    Reads (envelopePieces t company) [] (requestElement t company).children := by
  have hmessage : IsWord "TDLMESSAGE".toList := by decide
  have htdl : IsWord "TDL".toList := by decide
  have hinner := (reads_variables company).append
    (reads_group (reads_group (reads_form.append h.reads_definitions) hmessage) htdl)
  exact reads_head.append (reads_group (reads_group hinner (by decide)) (by decide))

theorem MarkFree.reads_document {t : Table} (h : MarkFree t) (company : Text) :
    Reads (documentPieces t company) [] [requestElement t company] := by
  rw [documentPieces_eq]
  exact (h.reads_envelope company).element (by decide) (List.forall_mem_nil _)

theorem MarkFree.readDocument_compile {t : Table} (h : MarkFree t) (company : Text) :
    readDocument (compile t company) = some (spread [] (documentPieces t company)) := by
  rw [readDocument, compile, after?_append, Option.bind_some,
    readPieces_renderPieces (h.reads_document company).legible]

/-- The document of a request is read back as its tree. -/
theorem MarkFree.readElement_compile {t : Table} (h : MarkFree t) (company : Text) :
    readElement (compile t company) = some (requestElement t company) := by
  have hbuild := (h.reads_document company).build_append ⟨[], [], [], []⟩ [] []
  rw [List.append_nil] at hbuild
  rw [readElement, h.readDocument_compile, Option.bind_some, build_spread, Element.add_nil, hbuild,
    build]
  rfl

end LedgerExport.Request
