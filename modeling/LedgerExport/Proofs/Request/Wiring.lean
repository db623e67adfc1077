import LedgerExport.Proofs.Request.Query
import Mathlib.Data.List.Chain
import Mathlib.Data.List.Nodup

/-! # The definitions of a request

A request defines parts, lines, fields, formulae and one collection, and names them where it uses
them. Every name that is used is defined once, the parts form one chain that follows the path of the
collection, and the last line of the chain shows the fields. The main statement is `compile_wired`.
-/
namespace LedgerExport.Request
open Text

/-- The names in a list; the empty list has none. -/
def listed (list : Text) : List Text := if list = [] then [] else splitOn [','] list

/-- No comma stands at an end of the list or beside another one. -/
structure Tidy (list : Text) : Prop where
  head : list.head? ≠ some ','
  last : list.getLast? ≠ some ','
  apart : list.IsChain fun a b => ¬ (a = ',' ∧ b = ',')

def definingKinds : List String := ["PART", "LINE", "FIELD", "COLLECTION", "SYSTEM"]

namespace Element

/-- The names that are used, each with the kind of what it stands for. -/
def references (doc : Element) : List (String × Text) :=
  (doc.textsUnder "FORM" "PARTS").map ("PART", ·) ++
  (doc.textsUnder "PART" "LINES").map ("LINE", ·) ++
  (doc.textsUnder "PART" "REPEAT").map (fun x => ("LINE", x.takeWhile (· ≠ ' '))) ++
  (doc.textsUnder "LINE" "EXPLODE").map ("PART", ·) ++
  ((doc.textsUnder "LINE" "FIELDS").flatMap listed).map ("FIELD", ·) ++
  ((doc.textsUnder "COLLECTION" "FILTER").flatMap listed).map ("SYSTEM", ·)

structure Shows (doc : Element) (name : Text) (part line : Element) : Prop where
  part_mem : part ∈ doc.elements "PART"
  part_key : part.key? = some name
  line_mem : line ∈ doc.elements "LINE"
  line_key : (part.texts "LINES").map some = [line.key?]

/-- Going from a part to its line, and on to the part that the line explodes into, visits the given
parts and ends at the given line. -/
inductive Leads (doc : Element) : Text → List Element → Element → Prop
  | stop {name : Text} {part line : Element} (h : Shows doc name part line)
      (hend : line.texts "EXPLODE" = []) : Leads doc name [part] line
  | step {name next : Text} {part line last : Element} {parts : List Element}
      (h : Shows doc name part line) (hnext : line.texts "EXPLODE" = [next])
      (hrest : Leads doc next parts last) : Leads doc name (part :: parts) last

end Element

/-- What a tree has to be for the engine to take it as the request for a table. -/
structure Wired (doc : Element) (t : Table) : Prop where
  parts : (doc.elements "PART").length = (splitOn ['.'] t.collection).length
  lines : (doc.elements "LINE").length = (splitOn ['.'] t.collection).length
  explodes : (doc.elements "EXPLODE").length = (splitOn ['.'] t.collection).length - 1
  fields : (doc.elements "FIELD").length = t.fields.length + 1
  collections : (doc.elements "COLLECTION").length = 1
  formulae : (doc.elements "SYSTEM").length = t.filters.length
  named : ∀ kind ∈ definingKinds, (doc.names kind).length = (doc.elements kind).length
  distinct : ∀ kind ∈ definingKinds, (doc.names kind).Nodup
  closed : ∀ r ∈ doc.references, (doc.names r.1).count r.2 = 1
  /-- The form starts the chain of all parts; its last line shows all fields but the blank one. -/
  chain : ∃ start last list, doc.textsUnder "FORM" "PARTS" = [start] ∧
    doc.Leads start (doc.elements "PART") last ∧ last.texts "FIELDS" = [list] ∧
    doc.names "FIELD" = listed list ++ [blankField]
  /-- Each part repeats its line over its step of the path, the first one over the collection. -/
  path : ∃ target rest, splitOn ['.'] t.collection = target :: rest ∧
    doc.textsUnder "COLLECTION" "TYPE" = [target] ∧
    doc.textsUnder "PART" "REPEAT" = List.zipWith (fun line route => line ++ " : ".toList ++ route)
      (doc.textsUnder "PART" "LINES") (doc.names "COLLECTION" ++ rest)
  filters : (doc.textsUnder "COLLECTION" "FILTER").flatMap listed = doc.names "SYSTEM" ∧
    (doc.elements "SYSTEM").map Element.text = t.filters
  tidy : ∀ x ∈ doc.textsUnder "LINE" "FIELDS" ++ doc.textsUnder "COLLECTION" "FILTER", Tidy x
  /-- What the caller wants fetched may itself have commas. -/
  fetch : doc.textsUnder "COLLECTION" "FETCH" =
      (if t.fetch = [] then [] else [join [','] t.fetch]) ∧
    ((∀ x ∈ t.fetch, x ≠ [] ∧ Tidy x) → ∀ x ∈ doc.textsUnder "COLLECTION" "FETCH", Tidy x)

theorem Tidy.append {a b : Text} (ha : Tidy a) (hb : Tidy b) (hane : a ≠ []) (hbne : b ≠ []) :
    Tidy (a ++ ',' :: b) where
  head := by
    rw [List.head?_append_of_ne_nil _ hane]
    exact ha.head
  last := by
    rw [List.getLast?_append_of_ne_nil _ (List.cons_ne_nil _ _), List.getLast?_cons_of_ne_nil hbne]
    exact hb.last
  apart := by
    refine ha.apart.append (List.isChain_cons.mpr ⟨?_, hb.apart⟩) ?_
    · rintro y hy ⟨-, rfl⟩
      exact hb.head hy
    · rintro x hx y - ⟨rfl, -⟩
      exact ha.last hx

theorem join_ne_nil {x : Text} (hx : x ≠ []) (sep : Text) (xs : List Text) :
    join sep (x :: xs) ≠ [] := by
  rw [join_cons]
  exact fun h => hx (List.append_eq_nil_iff.mp h).1

/-- Names with commas between them make a tidy list. -/
theorem tidy_join {l : List Text} (h : ∀ x ∈ l, x ≠ [] ∧ Tidy x) : Tidy (join [','] l) := by
  induction l with
  | nil => exact ⟨by decide, by decide, List.isChain_nil⟩
  | cons x xs ih =>
    cases xs with
    | nil => simpa [join] using (h x List.mem_cons_self).2
    | cons y ys =>
      have hrest : ∀ z ∈ y :: ys, z ≠ [] ∧ Tidy z := fun z hz => h z (List.mem_cons_of_mem x hz)
      have hne : join [','] (y :: ys) ≠ [] := join_ne_nil (hrest y List.mem_cons_self).1 [','] ys
      have hjoin : join [','] (x :: y :: ys) = x ++ ',' :: join [','] (y :: ys) := by
        simp [join, List.intercalate_cons_cons]
      rw [hjoin]
      exact (h x List.mem_cons_self).2.append (ih hrest) (h x List.mem_cons_self).1 hne

theorem tidy_of_isWord {x : Text} (h : IsWord x) : Tidy x := by
  have hcomma : ',' ∉ x := h.not_mem (by decide)
  refine ⟨fun hx => hcomma (List.mem_of_head? hx), fun hx => hcomma (List.mem_of_getLast? hx), ?_⟩
  refine List.Pairwise.isChain (List.pairwise_iff_forall_sublist.mpr ?_)
  rintro a b hab ⟨rfl, -⟩
  exact hcomma (hab.subset List.mem_cons_self)

theorem numbered_ne_nil (stem : String) (n : Nat) : numbered stem n ≠ [] := by
  have hdigits : decimal n ≠ [] := Nat.toDigits_ne_nil
  simp [numbered, padZero, hdigits]

section Lists
variable {stem : String} (h : IsWord stem.toList) (n : Nat)
include h

theorem mem_numbered {x : Text} (hx : x ∈ (List.range' 1 n).map (numbered stem)) :
    x ≠ [] ∧ IsWord x := by
  obtain ⟨k, -, rfl⟩ := List.mem_map.mp hx
  exact ⟨numbered_ne_nil stem k, isWord_numbered h k⟩

theorem tidy_nameList : Tidy (nameList (numbered stem) n) :=
  tidy_join fun _ hx => ⟨(mem_numbered h n hx).1, tidy_of_isWord (mem_numbered h n hx).2⟩

/-- The names of a list are read off it. -/
theorem listed_nameList : listed (nameList (numbered stem) n) =
    (List.range' 1 n).map (numbered stem) := by
  rw [nameList]
  cases hl : (List.range' 1 n).map (numbered stem) with
  | nil => rfl
  | cons x xs =>
    have hmem {y : Text} (hy : y ∈ x :: xs) : y ≠ [] ∧ IsWord y := mem_numbered h n (hl ▸ hy)
    rw [listed, if_neg (join_ne_nil (hmem List.mem_cons_self).1 [','] xs)]
    apply splitOn_join_singleton (List.cons_ne_nil x xs)
    intro y hy
    exact (hmem hy).2.not_mem (by decide)

end Lists

theorem listed_fieldNames (n : Nat) :
    listed (nameList fieldName n) = (List.range' 1 n).map fieldName :=
  listed_nameList (by decide) n

theorem nodup_numbered (stem : String) (n : Nat) :
    ((List.range' 1 n).map (numbered stem)).Nodup :=
  List.Nodup.map (fun _ _ => numbered_injective) List.nodup_range'

/-- A number never makes the name of a field the name of the blank one. -/
theorem fieldName_ne_blankField (n : Nat) : fieldName n ≠ blankField := by
  intro h
  have hpad : padZero 2 (decimal n) = "Blank".toList := List.append_cancel_left h
  have hB : 'B' ∈ padZero 2 (decimal n) := by
    rw [hpad]
    decide
  exact absurd (isDigit_of_mem_padZero hB) (by decide)

section Request
variable (t : Table) (company : Text)

/-- No name is defined twice in a request. -/
theorem nodup_names {kind : String} (h : kind ∈ definingKinds) :
    ((requestElement t company).names kind).Nodup := by
  simp only [definingKinds, List.mem_cons, List.not_mem_nil, or_false] at h
  rcases h with rfl | rfl | rfl | rfl | rfl
  · rw [names_part]
    exact nodup_numbered "MyPart" _
  · rw [names_line]
    exact nodup_numbered "MyLine" _
  · rw [names_field, List.nodup_append']
    refine ⟨nodup_numbered "Fld" _, List.nodup_singleton blankField, ?_⟩
    rw [List.disjoint_singleton]
    intro hb
    obtain ⟨n, -, hn⟩ := List.mem_map.mp hb
    exact fieldName_ne_blankField n hn
  · rw [names_collection]
    exact List.nodup_singleton collectionName
  · rw [names_system]
    exact nodup_numbered "Fltr" _

theorem length_names {kind : String} (h : kind ∈ definingKinds) :
    ((requestElement t company).names kind).length =
      ((requestElement t company).elements kind).length := by
  have hdepth := Route.depth_parse_pos t.collection
  simp only [definingKinds, List.mem_cons, List.not_mem_nil, or_false] at h
  rcases h with rfl | rfl | rfl | rfl | rfl
  · simp [names_part, elements_part, Route.depth]
  · simp [names_line, elements_line]
    omega
  · simp [names_field, elements_field]
  · simp [names_collection, elements_collection]
  · simp [names_system, elements_system]

/-- Each part repeats the line that it shows. -/
theorem map_takeWhile_repeat : ((requestElement t company).textsUnder "PART" "REPEAT").map
    (fun x => x.takeWhile (· ≠ ' ')) = (requestElement t company).textsUnder "PART" "LINES" := by
  have hline (n : Nat) (route : Text) :
      (lineName n ++ " : ".toList ++ route).takeWhile (· ≠ ' ') = lineName n := by
    have hword : IsWord (lineName n) := isWord_numbered (by decide) n
    have hblank : ∀ c ∈ lineName n, decide (c ≠ ' ') = true := fun c hc =>
      decide_eq_true fun h => hword.not_mem (by decide) (h ▸ hc)
    rw [List.append_assoc, List.takeWhile_append_of_pos hblank]
    exact List.append_nil _
  rw [under_repeat, under_lines, List.map_map, Route.depth, ← map_zipIdx_snd]
  exact List.map_congr_left fun e _ => hline e.2 e.1

theorem listed_filter :
    ((requestElement t company).textsUnder "COLLECTION" "FILTER").flatMap listed =
      (requestElement t company).names "SYSTEM" := by
  rw [under_filter, names_system]
  cases t.filters with
  | nil => rfl
  | cons x xs =>
    rw [List.isEmpty_cons, if_neg (by decide), List.flatMap_singleton]
    exact listed_nameList (by decide) _

/-- What is used is defined. -/
theorem references_mem {r : String × Text} (h : r ∈ (requestElement t company).references) :
    r.1 ∈ definingKinds ∧ r.2 ∈ (requestElement t company).names r.1 := by
  have hdepth := Route.depth_parse_pos t.collection
  simp only [Element.references, List.mem_append, List.mem_map, or_assoc] at h
  rcases h with ⟨x, hx, rfl⟩ | ⟨x, hx, rfl⟩ | ⟨x, hx, rfl⟩ | ⟨x, hx, rfl⟩ | ⟨x, hx, rfl⟩ |
    ⟨x, hx, rfl⟩
  · refine ⟨by simp [definingKinds], ?_⟩
    rw [under_parts, List.mem_singleton] at hx
    rw [hx, names_part]
    exact List.mem_map_of_mem (List.mem_range'_1.mpr ⟨le_rfl, by omega⟩)
  · refine ⟨by simp [definingKinds], ?_⟩
    rwa [names_line, ← under_lines t company]
  · refine ⟨by simp [definingKinds], ?_⟩
    rw [names_line, ← under_lines t company, ← map_takeWhile_repeat]
    exact List.mem_map_of_mem hx
  · refine ⟨by simp [definingKinds], ?_⟩
    rw [under_explode] at hx
    obtain ⟨n, hn, rfl⟩ := List.mem_map.mp hx
    rw [List.mem_range'_1] at hn
    rw [names_part]
    exact List.mem_map_of_mem (List.mem_range'_1.mpr ⟨by omega, by omega⟩)
  · refine ⟨by simp [definingKinds], ?_⟩
    obtain ⟨list, hlist, hx⟩ := List.mem_flatMap.mp hx
    rw [under_fields, List.mem_append, List.mem_singleton] at hlist
    rw [names_field, List.mem_append, List.mem_singleton]
    rcases hlist with hlist | rfl
    · rw [List.eq_of_mem_replicate hlist] at hx
      exact Or.inr (List.mem_singleton.mp hx)
    · exact Or.inl (listed_fieldNames t.fields.length ▸ hx)
  · refine ⟨by simp [definingKinds], ?_⟩
    rwa [listed_filter] at hx

theorem shows_part {route : Text} {n : Nat} {line : Element}
    (hpart : (route, n) ∈ (Route.parse t.collection).routes.zipIdx 1)
    (hline : line ∈ (requestElement t company).elements "LINE")
    (hkey : line.key? = some (lineName n)) :
    (requestElement t company).Shows (partName n) (partElement route n) line where
  part_mem := by
    rw [elements_part, List.mem_map]
    exact ⟨(route, n), hpart, rfl⟩
  part_key := rfl
  line_mem := hline
  line_key := by simp [partElement, hkey]

/-- From every step of the path the chain leads through the steps behind it to the last line. -/
theorem leads_parts (route : Text) (rest : List Text) (n : Nat)
    (h : ∃ front, (Route.parse t.collection).routes = front ++ route :: rest ∧
      n = front.length + 1) :
    (requestElement t company).Leads (partName n)
      (((route :: rest).zipIdx n).map fun e => partElement e.1 e.2)
      (lastElement (Route.parse t.collection).depth t.fields.length) := by
  -- `front` holds the steps before `route`, so that its length is the number of the part before
  induction rest generalizing route n with
  | nil =>
    obtain ⟨front, hfront, rfl⟩ := h
    have hdepth : (Route.parse t.collection).depth = front.length + 1 := by
      rw [Route.depth, hfront, List.length_append, List.length_singleton]
    refine .stop (shows_part t company ?_ ?_ ?_) ?_
    · simp [hfront, List.zipIdx_append, Nat.add_comm]
    · simp [elements_line]
    · rw [hdepth]
      rfl
    · simp [lastElement]
  | cons route' rest ih =>
    obtain ⟨front, hfront, rfl⟩ := h
    have hdepth : (Route.parse t.collection).depth = front.length + (rest.length + 2) := by
      rw [Route.depth, hfront, List.length_append]
      rfl
    have hpart : (route, front.length + 1) ∈ (Route.parse t.collection).routes.zipIdx 1 := by
      simp [hfront, List.zipIdx_append, Nat.add_comm]
    have hline : stepElement (front.length + 1) ∈ (requestElement t company).elements "LINE" := by
      rw [elements_line]
      exact List.mem_append_left _ (List.mem_map_of_mem
        (List.mem_range'_1.mpr ⟨by omega, by omega⟩))
    refine .step (shows_part t company hpart hline rfl) ?_
      (ih route' (front.length + 2) ⟨front ++ [route], ?_, ?_⟩)
    · simp [stepElement]
    · rw [hfront, List.append_assoc]
      rfl
    · rw [List.length_append, List.length_singleton]

/-- Each part repeats its own line over its own route. -/
theorem under_repeat_eq_zipWith :
    (requestElement t company).textsUnder "PART" "REPEAT" =
      List.zipWith (fun line route => line ++ " : ".toList ++ route)
        ((requestElement t company).textsUnder "PART" "LINES")
        (Route.parse t.collection).routes := by
  have hzip (l : List Text) (k : Nat) :
      List.zipWith (fun line route => line ++ " : ".toList ++ route)
        ((List.range' k l.length).map lineName) l =
      (l.zipIdx k).map fun e => lineName e.2 ++ " : ".toList ++ e.1 := by
    induction l generalizing k with
    | nil => rfl
    | cons x xs ih =>
      rw [List.length_cons, List.range'_succ, List.map_cons, List.zipWith_cons_cons, ih]
      rfl
  rw [under_repeat, under_lines, Route.depth, hzip]

theorem tidy_lists {x : Text} (hx : x ∈ (requestElement t company).textsUnder "LINE" "FIELDS" ++
    (requestElement t company).textsUnder "COLLECTION" "FILTER") : Tidy x := by
  rw [List.mem_append, under_fields, under_filter, List.mem_append, List.mem_singleton] at hx
  rcases hx with (hx | rfl) | hx
  · rw [List.eq_of_mem_replicate hx]
    exact tidy_of_isWord (by decide)
  · exact tidy_nameList (by decide) t.fields.length
  · split at hx
    · exact absurd hx List.not_mem_nil
    · rw [List.mem_singleton.mp hx]
      exact tidy_nameList (by decide) t.filters.length

theorem tidy_fetch (h : ∀ x ∈ t.fetch, x ≠ [] ∧ Tidy x) {x : Text}
    (hx : x ∈ (requestElement t company).textsUnder "COLLECTION" "FETCH") : Tidy x := by
  rw [under_fetch] at hx
  split at hx
  · exact absurd hx List.not_mem_nil
  · rw [List.mem_singleton.mp hx]
    exact tidy_join h

/-- The tree of a request is wired, whatever its table and its company are. -/
theorem wired_requestElement : Wired (requestElement t company) t := by
  obtain ⟨target, rest, hsplit, hparse⟩ := Route.parse_eq t.collection
  have hdepth := Route.depth_parse t.collection
  have hpos := Route.depth_parse_pos t.collection
  constructor
  case parts => simp [elements_part, ← hdepth, Route.depth]
  case lines =>
    simp [elements_line, ← hdepth]
    omega
  case explodes => simp [elements_explode, ← hdepth]
  case fields => simp [elements_field]
  case collections => simp [elements_collection]
  case formulae => simp [elements_system]
  case named => exact fun kind hkind => length_names t company hkind
  case distinct => exact fun kind hkind => nodup_names t company hkind
  case closed =>
    intro r hr
    obtain ⟨hkind, hname⟩ := references_mem t company hr
    exact List.count_eq_one_of_mem (nodup_names t company hkind) hname
  case chain =>
    have hroutes : (Route.parse t.collection).routes = collectionName :: rest := by rw [hparse]
    have hleads := leads_parts t company collectionName rest 1 ⟨[], hroutes, rfl⟩
    refine ⟨partName 1, lastElement (Route.parse t.collection).depth t.fields.length,
      nameList fieldName t.fields.length, under_parts t company, ?_, ?_, ?_⟩
    · rwa [elements_part, hroutes]
    · simp [lastElement]
    · rw [names_field, listed_fieldNames]
  case path =>
    refine ⟨target, rest, hsplit, ?_, ?_⟩
    · rw [under_type, hparse]
    · rw [under_repeat_eq_zipWith, names_collection, hparse]
      rfl
  case filters => exact ⟨listed_filter t company, texts_system t company⟩
  case tidy => exact fun x hx => tidy_lists t company hx
  case fetch =>
    refine ⟨?_, fun h x hx => tidy_fetch t company h hx⟩
    simp [under_fetch]

end Request

/-- The request for a table is wired, whatever the company is called. -/
theorem compile_wired {t : Table} (h : MarkFree t) (company : Text) :
    ∃ doc, readElement (compile t company) = some doc ∧ Wired doc t :=
  ⟨requestElement t company, h.readElement_compile company, wired_requestElement t company⟩

/-- Bills three levels deep, filtered twice. -/
def openBills : Table where
  name := "open bills".toList
  collection := "Voucher.AllLedgerEntries.BillAllocations".toList
  fields := [⟨"bill".toList, "Name".toList, .text⟩, ⟨"amount".toList, "Amount".toList, .amount⟩]
  fetch := ["AllLedgerEntries.BillAllocations".toList]
  filters := ["NOT $IsCancelled".toList, "$IsOptional = No".toList]

theorem compile_openBills_wired : ∃ doc,
    readElement (compile openBills "</ENVELOPE><PART NAME=\"MyPart01\">".toList) = some doc ∧
      Wired doc openBills ∧ (doc.elements "PART").length = 3 ∧
      (doc.elements "SYSTEM").length = 2 := by
  have hfree : MarkFree openBills := ⟨by decide, by decide, by decide, by decide⟩
  obtain ⟨doc, hdoc, hwired⟩ :=
    compile_wired hfree "</ENVELOPE><PART NAME=\"MyPart01\">".toList
  exact ⟨doc, hdoc, hwired, hwired.parts.trans (by decide), hwired.formulae⟩

end LedgerExport.Request
