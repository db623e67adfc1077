import LedgerExport.Reply.Decode
import LedgerExport.Run.Report

/-! # Exporting tables

Each table is compiled, filled in, sent and decoded, one after the other. A table that fails is
recorded and the others go on.
-/
namespace LedgerExport.Run

/-- Steps that send documents to the engine, with a log of what has been sent. -/
abbrev Sending := StateM (List Text)

/-- A channel to the engine answers a document. The answer may depend on the documents that have
been sent before. -/
abbrev Channel := List Text → Text → Except TransportFault Text

namespace Channel

def unreachable : Channel := fun _ _ => .error .unreachable

/-- Answers the documents with the replies in order, and then with empty texts. -/
def scripted (replies : List (Except TransportFault Text)) : Channel := fun sent _ =>
  (replies[sent.length]?).getD (.ok [])

def send (channel : Channel) (document : Text) : Sending (Except TransportFault Text) := fun sent =>
  (channel sent document, sent ++ [document])

end Channel

/-- What all tables of a run share. -/
structure Session where
  channel : Channel
  company : Text
  values : Request.SubstitutionSet

structure Transcript where
  report : Report
  sent : List Text
  deriving Repr, DecidableEq

namespace Session

def document (s : Session) (t : Table) : Text :=
  Request.substitute (Request.compile t s.company) s.values

def openKeys (s : Session) (t : Table) : List Text :=
  Request.unresolved (s.document t) Request.periodKeys

/-- The rows of a table. A document with an open period is not sent. -/
def rows (s : Session) (t : Table) : Sending (Except TableFault (List Row)) := do
  match s.openKeys t with
  | [] =>
    match ← s.channel.send (s.document t) with
    | .ok reply => return .ok (Reply.decode (t.fields.map Field.name) reply)
    | .error fault => return .error (.transport fault)
  | keys => return .error (.unresolved keys)

def process (s : Session) (t : Table) : Sending Outcome := do
  match ← s.rows t with
  | .ok rows => return .exported t.name rows
  | .error fault => return .failed ⟨t.name, fault⟩

def report (s : Session) (r : Report) (t : Table) : Sending Report := do
  return r.push (← s.process t)

def sendTables (s : Session) (tables : List Table) : Sending Report := tables.foldlM s.report {}

def run (s : Session) (tables : List Table) : Transcript :=
  let (report, sent) := (s.sendTables tables).run []
  ⟨report, sent⟩

/-- What becomes of a table after `sent` has been sent. -/
def outcome (s : Session) (sent : List Text) (t : Table) : Outcome := ((s.process t).run sent).1

def sentAfter (s : Session) (sent : List Text) (t : Table) : List Text := ((s.process t).run sent).2

end Session

end LedgerExport.Run
