import LedgerExport.Proofs.Request.Tree

/-! # What stands where in a request

The elements of one kind anywhere in a tree, and the texts of those that stand directly in another.
For the tree of a request they are lists over the path, the fields and the filters of its table.
-/
namespace LedgerExport.Request
open Text

namespace Element

mutual

def all : Element → List Element
  | ⟨name, attributes, text, children⟩ =>
    ⟨name, attributes, text, children⟩ :: allIn children

def allIn : List Element → List Element
  | [] => []
  | e :: es => all e ++ allIn es

end

def elements (kind : String) (e : Element) : List Element :=
  e.all.filter fun x => x.name = kind.toList

def textsIn (kind : String) (es : List Element) : List Text :=
  (es.filter fun x => x.name = kind.toList).map text

/-- The texts of the elements of one kind that stand directly in the element. -/
def texts (kind : String) (e : Element) : List Text := textsIn kind e.children

/-- The texts of the elements of one kind that stand directly in those of another. -/
def textsUnder (outer kind : String) (e : Element) : List Text :=
  (e.elements outer).flatMap (texts kind)

def key? (e : Element) : Option Text := e.attributes.lookup "NAME".toList

def names (kind : String) (e : Element) : List Text := (e.elements kind).filterMap key?

theorem allIn_eq_flatMap (es : List Element) : allIn es = es.flatMap all := by
  induction es with
  | nil => rfl
  | cons e es ih => rw [allIn, ih, List.flatMap_cons]

@[simp] theorem textsIn_nil (kind : String) : textsIn kind [] = [] := rfl

@[simp] theorem textsIn_append (kind : String) (xs ys : List Element) :
    textsIn kind (xs ++ ys) = textsIn kind xs ++ textsIn kind ys := by simp [textsIn]

@[simp] theorem textsIn_cons (kind name : String) (text : Text) (attributes : List (Text × Text))
    (es : List Element) : textsIn kind (ofText name text attributes :: es) =
      (if name = kind then [text] else []) ++ textsIn kind es := by
  by_cases h : name = kind
  · simp [textsIn, ofText, h]
  · simp [textsIn, ofText, h, String.toList_inj]

@[simp] theorem texts_ofChildren (kind name : String) (children : List Element)
    (attributes : List (Text × Text)) :
    (ofChildren name children attributes).texts kind = textsIn kind children := rfl

@[simp] theorem key?_ofChildren (kind : String) (children : List Element) (name : Text) :
    (ofChildren kind children (named name)).key? = some name := rfl

@[simp] theorem elements_ofText (kind name : String) (text : Text)
    (attributes : List (Text × Text)) : (ofText name text attributes).elements kind =
      if name = kind then [ofText name text attributes] else [] := by
  simp [elements, ofText, all, allIn, List.filter_cons, String.toList_inj]

@[simp] theorem elements_ofChildren (kind name : String) (children : List Element)
    (attributes : List (Text × Text)) :
    (ofChildren name children attributes).elements kind =
      (if name = kind then [ofChildren name children attributes] else []) ++
        children.flatMap (elements kind) := by
  have hin : (allIn children).filter (fun x => decide (x.name = kind.toList)) =
      children.flatMap (elements kind) := by
    rw [allIn_eq_flatMap, List.filter_flatMap]
    rfl
  by_cases h : name = kind
  · simp [elements, ofChildren, all, hin, h]
  · simp [elements, ofChildren, all, hin, h, String.toList_inj]

end Element

section Elements
open Element
variable (kind : String)

@[simp] theorem elements_partElement (route : Text) (n : Nat) :
    (partElement route n).elements kind = (if "PART" = kind then [partElement route n] else []) ++
      (if "LINES" = kind then [ofText "LINES" (lineName n)] else []) ++
      (if "REPEAT" = kind then [ofText "REPEAT" (lineName n ++ " : ".toList ++ route)] else []) ++
      (if "SCROLLED" = kind then [ofText "SCROLLED" "Vertical".toList] else []) := by
  simp only [partElement, elements_ofChildren, elements_ofText, List.flatMap_cons, List.flatMap_nil,
    List.append_assoc, List.append_nil]

@[simp] theorem elements_stepElement (n : Nat) : (stepElement n).elements kind =
    (if "LINE" = kind then [stepElement n] else []) ++
      (if "FIELDS" = kind then [ofText "FIELDS" blankField] else []) ++
      (if "EXPLODE" = kind then [ofText "EXPLODE" (partName (n + 1))] else []) := by
  simp only [stepElement, elements_ofChildren, elements_ofText, List.flatMap_cons, List.flatMap_nil,
    List.append_assoc, List.append_nil]

@[simp] theorem elements_lastElement (depth fieldCount : Nat) :
    (lastElement depth fieldCount).elements kind =
      (if "LINE" = kind then [lastElement depth fieldCount] else []) ++
        (if "FIELDS" = kind then [ofText "FIELDS" (nameList fieldName fieldCount)] else []) := by
  simp only [lastElement, elements_ofChildren, elements_ofText, List.flatMap_cons, List.flatMap_nil,
    List.append_nil]

@[simp] theorem elements_fieldElement (f : Field) (n : Nat) : (fieldElement f n).elements kind =
    (if "FIELD" = kind then [fieldElement f n] else []) ++
      (if "SET" = kind then [ofText "SET" (valueExpression f)] else []) ++
      (if "XMLTAG" = kind then [ofText "XMLTAG" (fieldTag n)] else []) := by
  simp only [fieldElement, elements_ofChildren, elements_ofText, List.flatMap_cons,
    List.flatMap_nil, List.append_assoc, List.append_nil]

@[simp] theorem elements_blankElement : blankElement.elements kind =
    (if "FIELD" = kind then [blankElement] else []) ++
      (if "SET" = kind then [ofText "SET" "\"\"".toList] else []) := by
  simp only [blankElement, elements_ofChildren, elements_ofText, List.flatMap_cons,
    List.flatMap_nil, List.append_nil]

@[simp] theorem elements_collectionElement (target : Text) (fetch filters : List Text) :
    (collectionElement target fetch filters).elements kind =
      (if "COLLECTION" = kind then [collectionElement target fetch filters] else []) ++
        (if "TYPE" = kind then [ofText "TYPE" target] else []) ++
        (if fetch.isEmpty then [] else
          if "FETCH" = kind then [ofText "FETCH" (join [','] fetch)] else []) ++
        (if filters.isEmpty then [] else
          if "FILTER" = kind then [ofText "FILTER" (nameList filterName filters.length)]
          else []) := by
  have hoption (b : Bool) (e : Element) : (if b then [] else [e]).flatMap (elements kind) =
      if b then [] else e.elements kind := by
    cases b <;> simp
  simp only [collectionElement, elements_ofChildren, List.flatMap_append, hoption, elements_ofText,
    List.flatMap_singleton, List.append_assoc]

@[simp] theorem elements_formulaElement (filter : Text) (n : Nat) :
    (formulaElement filter n).elements kind =
      if "SYSTEM" = kind then [formulaElement filter n] else [] := by
  simp [formulaElement, elements_ofText]

theorem texts_collectionElement (target : Text) (fetch filters : List Text) :
    (collectionElement target fetch filters).texts kind =
      (if "TYPE" = kind then [target] else []) ++
        (if fetch.isEmpty then [] else if "FETCH" = kind then [join [','] fetch] else []) ++
        (if filters.isEmpty then [] else
          if "FILTER" = kind then [nameList filterName filters.length] else []) := by
  have hoption (b : Bool) (name : String) (x : Text) :
      textsIn kind (if b then [] else [ofText name x]) =
        if b then [] else if name = kind then [x] else [] := by
    cases b <;> simp
  rw [collectionElement, texts_ofChildren, textsIn_append, textsIn_append, hoption, hoption,
    textsIn_cons, textsIn_nil, List.append_nil]

theorem key?_formulaElement (filter : Text) (n : Nat) :
    (formulaElement filter n).key? = some (filterName n) := rfl

end Elements

theorem flatMap_nil_of {α β : Type} (l : List α) : (l.flatMap fun _ => ([] : List β)) = [] :=
  List.flatMap_eq_nil_iff.mpr fun _ _ => rfl

theorem map_zipIdx_fst {α β : Type} (f : α → β) (l : List α) (k : Nat) :
    ((l.zipIdx k).map fun e => f e.1) = l.map f := by
  conv_rhs => rw [← List.zipIdx_map_fst k l, List.map_map]
  rfl

theorem map_zipIdx_snd {α β : Type} (f : Nat → β) (l : List α) (k : Nat) :
    ((l.zipIdx k).map fun e => f e.2) = (List.range' k l.length).map f := by
  rw [← List.zipIdx_map_snd k l, List.map_map]
  rfl

section Kinds
open Element
variable (t : Table) (company : Text)

theorem elements_form : (requestElement t company).elements "FORM" =
    [.ofChildren "FORM" [.ofText "PARTS" (partName 1)] (named formName)] := by
  simp [requestElement, headElement, variablesElement, formElements, definitions, List.flatMap_map,
    flatMap_nil_of]

theorem elements_part : (requestElement t company).elements "PART" =
    ((Route.parse t.collection).routes.zipIdx 1).map fun e => partElement e.1 e.2 := by
  simp [requestElement, headElement, variablesElement, formElements, definitions, List.flatMap_map,
    flatMap_nil_of, ← List.map_eq_flatMap]

theorem elements_line : (requestElement t company).elements "LINE" =
    (List.range' 1 ((Route.parse t.collection).depth - 1)).map stepElement ++
        [lastElement (Route.parse t.collection).depth t.fields.length] := by
  simp [requestElement, headElement, variablesElement, formElements, definitions, List.flatMap_map,
    flatMap_nil_of, ← List.map_eq_flatMap]

theorem elements_explode : (requestElement t company).elements "EXPLODE" =
    (List.range' 1 ((Route.parse t.collection).depth - 1)).map fun n =>
        .ofText "EXPLODE" (partName (n + 1)) := by
  simp [requestElement, headElement, variablesElement, formElements, definitions, List.flatMap_map,
    flatMap_nil_of, ← List.map_eq_flatMap]

theorem elements_field : (requestElement t company).elements "FIELD" =
    (t.fields.zipIdx 1).map (fun e => fieldElement e.1 e.2) ++ [blankElement] := by
  simp [requestElement, headElement, variablesElement, formElements, definitions, List.flatMap_map,
    flatMap_nil_of, ← List.map_eq_flatMap]

theorem elements_collection : (requestElement t company).elements "COLLECTION" =
    [collectionElement (Route.parse t.collection).target t.fetch t.filters] := by
  simp [requestElement, headElement, variablesElement, formElements, definitions, List.flatMap_map,
    flatMap_nil_of]

theorem elements_system : (requestElement t company).elements "SYSTEM" =
    (t.filters.zipIdx 1).map fun e => formulaElement e.1 e.2 := by
  simp [requestElement, headElement, variablesElement, formElements, definitions, List.flatMap_map,
    flatMap_nil_of, ← List.map_eq_flatMap]

theorem elements_staticvariables : (requestElement t company).elements "STATICVARIABLES" =
    [variablesElement company] := by
  simp [requestElement, headElement, variablesElement, formElements, definitions, List.flatMap_map,
    flatMap_nil_of]

theorem under_company : (requestElement t company).textsUnder "STATICVARIABLES" "SVCURRENTCOMPANY" =
    [escape company] := by
  simp [textsUnder, elements_staticvariables, variablesElement]

theorem under_parts : (requestElement t company).textsUnder "FORM" "PARTS" = [partName 1] := by
  simp [textsUnder, elements_form]

theorem under_lines : (requestElement t company).textsUnder "PART" "LINES" =
    (List.range' 1 (Route.parse t.collection).depth).map lineName := by
  simp [textsUnder, elements_part, partElement, List.flatMap_map,
    ← List.map_eq_flatMap, map_zipIdx_snd, Route.depth]

theorem under_repeat : (requestElement t company).textsUnder "PART" "REPEAT" =
    ((Route.parse t.collection).routes.zipIdx 1).map fun e =>
      lineName e.2 ++ " : ".toList ++ e.1 := by
  simp [textsUnder, elements_part, partElement, List.flatMap_map,
    ← List.map_eq_flatMap]

theorem under_set : (requestElement t company).textsUnder "FIELD" "SET" =
    t.fields.map valueExpression ++ ["\"\"".toList] := by
  simp [textsUnder, elements_field, fieldElement, blankElement, List.flatMap_map,
    ← List.map_eq_flatMap, map_zipIdx_fst]

theorem under_type : (requestElement t company).textsUnder "COLLECTION" "TYPE" =
    [(Route.parse t.collection).target] := by
  simp [textsUnder, elements_collection, texts_collectionElement]

theorem under_fetch : (requestElement t company).textsUnder "COLLECTION" "FETCH" =
    if t.fetch.isEmpty then [] else [join [','] t.fetch] := by
  simp [textsUnder, elements_collection, texts_collectionElement]

theorem under_filter : (requestElement t company).textsUnder "COLLECTION" "FILTER" =
    if t.filters.isEmpty then [] else [nameList filterName t.filters.length] := by
  simp [textsUnder, elements_collection, texts_collectionElement]

theorem under_fields : (requestElement t company).textsUnder "LINE" "FIELDS" =
    List.replicate ((Route.parse t.collection).depth - 1) blankField ++
      [nameList fieldName t.fields.length] := by
  simp [textsUnder, elements_line, stepElement, lastElement, List.flatMap_map,
    ← List.map_eq_flatMap]

theorem under_explode : (requestElement t company).textsUnder "LINE" "EXPLODE" =
    (List.range' 1 ((Route.parse t.collection).depth - 1)).map fun n => partName (n + 1) := by
  simp [textsUnder, elements_line, stepElement, lastElement, List.flatMap_map,
    ← List.map_eq_flatMap]

theorem names_part : (requestElement t company).names "PART" =
    (List.range' 1 (Route.parse t.collection).depth).map partName := by
  simp [names, elements_part, partElement, List.filterMap_map, Function.comp_def,
    map_zipIdx_snd, Route.depth]

theorem names_line : (requestElement t company).names "LINE" =
    (List.range' 1 (Route.parse t.collection).depth).map lineName := by
  obtain ⟨n, hn⟩ := Nat.exists_eq_succ_of_ne_zero (Route.depth_parse_pos t.collection).ne'
  simp [hn, List.range'_1_concat, Nat.add_comm, names, elements_line, stepElement, lastElement,
    List.filterMap_map, Function.comp_def]

theorem names_field : (requestElement t company).names "FIELD" =
    (List.range' 1 t.fields.length).map fieldName ++ [blankField] := by
  simp [names, elements_field, fieldElement, blankElement, List.filterMap_map, Function.comp_def,
    map_zipIdx_snd]

theorem names_collection : (requestElement t company).names "COLLECTION" = [collectionName] := by
  simp [names, elements_collection, collectionElement]

theorem names_system : (requestElement t company).names "SYSTEM" =
    (List.range' 1 t.filters.length).map filterName := by
  simp [names, elements_system, key?_formulaElement, List.filterMap_map, Function.comp_def,
    map_zipIdx_snd]

theorem texts_system : ((requestElement t company).elements "SYSTEM").map text = t.filters := by
  simp [elements_system, formulaElement, ofText, Function.comp_def]

end Kinds

end LedgerExport.Request
