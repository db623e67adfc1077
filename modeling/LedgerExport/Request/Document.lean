import LedgerExport.Request.Expression
import LedgerExport.Text.Encoding
import LedgerExport.Text.Numeral

/-! # Export requests

The request for one table: a header with the static variables and the form, one part and one line
for each step of the collection path, one field element for each column, the collection with what it
fetches and filters, and the formulae of the filters. The header leaves the two ends of the period
open as placeholders; everything else is fixed here.

A request is written as opening tags, closing tags and the content between them. A fragment may
open what only a later fragment closes.
-/
namespace LedgerExport.Request

/-! ## Markup -/

inductive Piece where
  | opening (name : Text) (attributes : List (Text × Text))
  | closing (name : Text)
  | content (text : Text)
  deriving Repr, DecidableEq

namespace Piece

def renderAttribute (a : Text × Text) : Text := ' ' :: a.1 ++ "=\"".toList ++ a.2 ++ "\"".toList

def render : Piece → Text
  | .opening name attributes => '<' :: name ++ attributes.flatMap renderAttribute ++ ['>']
  | .closing name => "</".toList ++ name ++ ['>']
  | .content text => text

def element (name : String) (inner : List Piece) (attributes : List (Text × Text) := []) :
    List Piece :=
  .opening name.toList attributes :: inner ++ [.closing name.toList]

def leaf (name : String) (text : Text) (attributes : List (Text × Text) := []) : List Piece :=
  element name [.content text] attributes

end Piece

def renderPieces (pieces : List Piece) : Text := pieces.flatMap Piece.render

open Piece

/-! ## Collection paths -/

def collectionName : Text := "MyCollection".toList

structure Route where
  target : Text
  routes : List Text
  deriving Repr, DecidableEq

namespace Route

/-- The first segment is the target; the first route is always the request's own collection. -/
def parse (collection : Text) : Route :=
  match Text.splitOn ['.'] collection with
  | [] => ⟨[], [collectionName]⟩
  | target :: rest => ⟨target, collectionName :: rest⟩

def depth (r : Route) : Nat := r.routes.length

end Route

/-! ## Names -/

def reportName : Text := "MyReportLedgerTable".toList
def formName : Text := "MyForm".toList
def blankField : Text := "FldBlank".toList

/-- A name with a number of at least two digits behind it. -/
def numbered (stem : String) (n : Nat) : Text := stem.toList ++ Text.padZero 2 (Text.decimal n)

def partName (n : Nat) : Text := numbered "MyPart" n
def lineName (n : Nat) : Text := numbered "MyLine" n
def fieldName (n : Nat) : Text := numbered "Fld" n
def fieldTag (n : Nat) : Text := numbered "F" n
def filterName (n : Nat) : Text := numbered "Fltr" n

def named (name : Text) : List (Text × Text) := [("NAME".toList, name)]

def nameList (name : Nat → Text) (n : Nat) : Text :=
  Text.join [','] ((List.range' 1 n).map name)

def fromDateKey : Text := "fromDate".toList
def toDateKey : Text := "toDate".toList

/-- The keys that the header leaves open, in the order in which it writes them. -/
def periodKeys : List Text := [fromDateKey, toDateKey]

def placeholder (key : Text) : Text := '{' :: key ++ ['}']

def declaration : Text := "<?xml version=\"1.0\" encoding=\"utf-8\"?>".toList

def periodPieces (start finish : Text) : List Piece :=
  .opening "ENVELOPE".toList [] ::
    element "HEADER" (leaf "VERSION" "1".toList ++ leaf "TALLYREQUEST" "Export".toList ++
      leaf "TYPE" "Data".toList ++ leaf "ID" reportName) ++
    [.opening "BODY".toList [], .opening "DESC".toList [], .opening "STATICVARIABLES".toList []] ++
    leaf "SVEXPORTFORMAT" "XML (Data Interchange)".toList ++
    leaf "SVFROMDATE" start ++ leaf "SVTODATE" finish

def formPieces (company : Text) : List Piece :=
  leaf "SVCURRENTCOMPANY" (Text.escape company) ++
    [.closing "STATICVARIABLES".toList, .opening "TDL".toList [],
      .opening "TDLMESSAGE".toList []] ++
    element "REPORT" (leaf "FORMS" formName) (named reportName) ++
    element "FORM" (leaf "PARTS" (partName 1)) (named formName)

/-- The pieces up to the form; what they leave open the footer closes. -/
def headerPieces (company : Text) : List Piece :=
  periodPieces (placeholder fromDateKey) (placeholder toDateKey) ++ formPieces company

/-- One part for each route, which repeats the line of the same number over it. -/
def partPieces (r : Route) : List Piece :=
  (r.routes.zipIdx 1).flatMap fun (route, n) =>
    element "PART" (leaf "LINES" (lineName n) ++
      leaf "REPEAT" (lineName n ++ " : ".toList ++ route) ++
      leaf "SCROLLED" "Vertical".toList) (named (partName n))

/-- Every line but the last leads on to the next part; the last one holds the fields. -/
def linePieces (r : Route) (fieldCount : Nat) : List Piece :=
  (List.range' 1 (r.depth - 1)).flatMap (fun n =>
    element "LINE" (leaf "FIELDS" blankField ++ leaf "EXPLODE" (partName (n + 1)))
      (named (lineName n))) ++
  element "LINE" (leaf "FIELDS" (nameList fieldName fieldCount)) (named (lineName r.depth))

def fieldPieces (f : Field) (n : Nat) : List Piece :=
  element "FIELD" (leaf "SET" (valueExpression f) ++ leaf "XMLTAG" (fieldTag n))
    (named (fieldName n))

/-- The fields in order and then the blank one. -/
def fieldsPieces (fields : List Field) : List Piece :=
  (fields.zipIdx 1).flatMap (fun (f, n) => fieldPieces f n) ++
    element "FIELD" (leaf "SET" "\"\"".toList) (named blankField)

def collectionPieces (r : Route) (fetch filters : List Text) : List Piece :=
  element "COLLECTION" (leaf "TYPE" r.target ++
    (if fetch.isEmpty then [] else leaf "FETCH" (Text.join [','] fetch)) ++
    (if filters.isEmpty then [] else leaf "FILTER" (nameList filterName filters.length)))
    (named collectionName)

/-- The filters are expressions of the engine and are bound as they are. -/
def formulaPieces (filters : List Text) : List Piece :=
  (filters.zipIdx 1).flatMap fun (f, n) =>
    leaf "SYSTEM" f (("TYPE".toList, "Formulae".toList) :: named (filterName n))

def footerPieces : List Piece :=
  [.closing "TDLMESSAGE".toList, .closing "TDL".toList, .closing "DESC".toList,
    .closing "BODY".toList, .closing "ENVELOPE".toList]

def header (company : Text) : Text := declaration ++ renderPieces (headerPieces company)
def parts (r : Route) : Text := renderPieces (partPieces r)
def lines (r : Route) (fieldCount : Nat) : Text := renderPieces (linePieces r fieldCount)
def field (f : Field) (n : Nat) : Text := renderPieces (fieldPieces f n)
def fields (fs : List Field) : Text := renderPieces (fieldsPieces fs)

def collection (r : Route) (fetch filters : List Text) : Text :=
  renderPieces (collectionPieces r fetch filters)

def formulae (filters : List Text) : Text := renderPieces (formulaPieces filters)

def documentPieces (t : Table) (company : Text) : List Piece :=
  let r := Route.parse t.collection
  headerPieces company ++ partPieces r ++ linePieces r t.fields.length ++ fieldsPieces t.fields ++
    collectionPieces r t.fetch t.filters ++ formulaPieces t.filters ++ footerPieces

/-- The request for a table, with the period still open. -/
def compile (t : Table) (company : Text) : Text :=
  declaration ++ renderPieces (documentPieces t company)

theorem compile_eq (t : Table) (company : Text) :
    compile t company = header company ++ parts (Route.parse t.collection) ++
      lines (Route.parse t.collection) t.fields.length ++ fields t.fields ++
      collection (Route.parse t.collection) t.fetch t.filters ++ formulae t.filters ++
      renderPieces footerPieces := by
  simp [compile, documentPieces, header, parts, lines, fields, collection, formulae, renderPieces]

end LedgerExport.Request
