import LedgerExport.Proofs.Run.Period

/-! # Accounts of a run

Outcomes, requests and replies advance at different rates: every table has an outcome, a ready
table sends one document, and each document uses up one reply. The number of documents before a
table tells which reply is its own. The main statement is `run_accounts`.
-/
namespace LedgerExport.Run
open Request

/-- Every outcome is either counted as exported or listed as a failure. -/
theorem Report.exported_add_failures (r : Report) :
    r.exported + r.failures.length = r.outcomes.length := by
  have h (outcomes : List Outcome) : (outcomes.filter Outcome.isExported).length +
      (outcomes.filterMap Outcome.error?).length = outcomes.length := by
    induction outcomes with
    | nil => rfl
    | cons o rest ih =>
      cases o with
      | exported name rows =>
        have hnone : Outcome.error? (.exported name rows) = none := rfl
        rw [List.filter_cons_of_pos rfl, List.filterMap_cons_none hnone, List.length_cons,
          List.length_cons, ← ih]
        omega
      | failed error =>
        have hsome : Outcome.error? (.failed error) = some error := rfl
        rw [List.filter_cons_of_neg Bool.false_ne_true, List.filterMap_cons_some hsome,
          List.length_cons, List.length_cons, ← ih]
        omega
  exact h r.outcomes

namespace Session
variable (s : Session)

/-- The document of a ready table stands behind those of the tables before it. -/
theorem requests_getElem? {tables : List Table} {i : Nat} {t : Table} (ht : tables[i]? = some t)
    (hr : s.Ready t) :
    (s.requests tables)[(s.requests (tables.take i)).length]? = some (s.document t) := by
  obtain ⟨hi, rfl⟩ := List.getElem?_eq_some_iff.mp ht
  have hsplit : s.requests tables =
      s.requests (tables.take i) ++ s.document tables[i] :: s.requests (tables.drop (i + 1)) := by
    rw [← s.requests_append_cons hr, List.cons_getElem_drop_succ, List.take_append_drop]
  rw [hsplit, List.getElem?_append_right (Nat.le_refl _), Nat.sub_self, List.getElem?_cons_zero]

end Session

/-- What a run owes for its tables when the replies are handed out in order, one for each document,
and empty texts when they are used up. -/
structure Accounts (company : Text) (values : SubstitutionSet)
    (replies : List (Except TransportFault Text)) (tables : List Table) (transcript : Transcript) :
    Prop where
  /-- One outcome for each table. -/
  named : transcript.report.outcomes.map Outcome.table = tables.map Table.name
  counted : transcript.report.exported + transcript.report.failures.length = tables.length
  sent : transcript.sent =
    (tables.map fun t => substitute (compile t company) values).filter fun d => Settled d
  /-- An open table names what is open in it, in the order of the header. -/
  blocked : ∀ (i : Nat) t, tables[i]? = some t → ¬ Settled (substitute (compile t company) values) →
    transcript.report.outcomes[i]? = some (.failed ⟨t.name, .unresolved (periodKeys.filter
      fun key => placeholder key <:+: substitute (compile t company) values)⟩)
  /-- A settled document and its reply have the same number. -/
  answered : ∀ (i : Nat) t, tables[i]? = some t → Settled (substitute (compile t company) values) →
    ∃ j, j = ((tables.take i).filter
        fun u => Settled (substitute (compile u company) values)).length ∧
      transcript.sent[j]? = some (substitute (compile t company) values) ∧
      (∀ reply, replies[j]?.getD (.ok []) = .ok reply → transcript.report.outcomes[i]? =
        some (.exported t.name (Reply.decode (t.fields.map Field.name) reply))) ∧
      ∀ fault, replies[j]?.getD (.ok []) = .error fault → transcript.report.outcomes[i]? =
        some (.failed ⟨t.name, .transport fault⟩)

/-- Every table is accounted for, whatever the tables and the replies are. -/
theorem run_accounts (company : Text) (values : SubstitutionSet)
    (replies : List (Except TransportFault Text)) (tables : List Table) :
    Accounts company values replies tables
      (Session.run ⟨.scripted replies, company, values⟩ tables) := by
  let s : Session := ⟨.scripted replies, company, values⟩
  refine ⟨s.run_outcomes_map_table tables, ?_, ?_, ?_, ?_⟩
  · rw [Report.exported_add_failures, Session.run_outcomes_length]
  · rw [Session.run_sent, List.filter_map]
    rfl
  · intro i t ht hopen
    have hr : ¬ s.Ready t := hopen
    rw [Session.run_outcomes, ht, Option.map_some, s.outcome_of_not_ready hr, s.openKeys_eq]
    rfl
  · intro i t ht hsettled
    have hr : s.Ready t := hsettled
    -- the table's place in the queue is the number of the tables before it that are sent
    refine ⟨(s.requests (tables.take i)).length, List.length_map _, ?_, ?_⟩
    · rw [Session.run_sent]
      exact s.requests_getElem? ht hr
    · have houtcome : (s.run tables).report.outcomes[i]? = some (Session.answer t
          (replies[(s.requests (tables.take i)).length]?.getD (.ok []))) := by
        rw [s.run_outcomes, ht, Option.map_some, s.outcome_of_ready hr]
        rfl
      refine ⟨fun reply hreply => ?_, fun fault hfault => ?_⟩
      · exact houtcome.trans (by rw [hreply]; rfl)
      · exact houtcome.trans (by rw [hfault]; rfl)

def recent : Table :=
  { groups with name := "recent".toList, filters := [placeholder "when".toList] }

def measures : Table where
  name := "measures".toList
  collection := "Unit".toList
  fields := [⟨"symbol".toList, "Symbol".toList, .text⟩, ⟨"digits".toList, "1 + 1".toList, .number⟩]

def mixedValues : SubstitutionSet := .ofList [(fromDateKey, .scalar "20240401".toList),
  (toDateKey, .scalar "20250331".toList), ("when".toList, .text (placeholder fromDateKey))]

def mixedReplies : List (Except TransportFault Text) :=
  [.ok "<F01>Assets &amp; more</F01>\r\n".toList, .error (.status 503)]

/-- A table is exported, one is not sent, and one is refused by the engine. -/
def mixedRun : Transcript :=
  Session.run ⟨.scripted mixedReplies, "Acme & Co".toList, mixedValues⟩ [groups, recent, measures]

theorem mixedRun_accounts :
    mixedRun.report.outcomes[0]? = some (.exported "groups".toList
        [⟨[("name".toList, "Assets & more".toList)]⟩]) ∧
      mixedRun.report.outcomes[1]? = some (.failed ⟨"recent".toList,
        .unresolved [fromDateKey]⟩) ∧
      mixedRun.report.outcomes[2]? = some (.failed ⟨"measures".toList,
        .transport (.status 503)⟩) ∧
      mixedRun.sent.length = 2 ∧ mixedRun.sent[0]? = some
        ("<?xml version=\"1.0\" encoding=\"utf-8\"?>".toList ++
          "<ENVELOPE><HEADER><VERSION>1</VERSION>".toList ++
          "<TALLYREQUEST>Export</TALLYREQUEST>".toList ++
          "<TYPE>Data</TYPE><ID>MyReportLedgerTable</ID>".toList ++
          "</HEADER><BODY><DESC><STATICVARIABLES>".toList ++
          "<SVEXPORTFORMAT>XML (Data Interchange)".toList ++
          "</SVEXPORTFORMAT><SVFROMDATE>20240401".toList ++
          "</SVFROMDATE><SVTODATE>20250331</SVTODATE>".toList ++
          "<SVCURRENTCOMPANY>Acme &amp; Co".toList ++
          "</SVCURRENTCOMPANY></STATICVARIABLES>".toList ++
          "<TDL><TDLMESSAGE>".toList ++
          "<REPORT NAME=\"MyReportLedgerTable\">".toList ++
          "<FORMS>MyForm</FORMS></REPORT>".toList ++
          "<FORM NAME=\"MyForm\"><PARTS>MyPart01</PARTS></FORM>".toList ++
          "<PART NAME=\"MyPart01\"><LINES>MyLine01</LINES>".toList ++
          "<REPEAT>MyLine01 : MyCollection</REPEAT>".toList ++
          "<SCROLLED>Vertical</SCROLLED></PART>".toList ++
          "<LINE NAME=\"MyLine01\"><FIELDS>Fld01</FIELDS></LINE>".toList ++
          "<FIELD NAME=\"Fld01\"><SET>$Name</SET>".toList ++
          "<XMLTAG>F01</XMLTAG></FIELD>".toList ++
          "<FIELD NAME=\"FldBlank\"><SET>\"\"</SET></FIELD>".toList ++
          "<COLLECTION NAME=\"MyCollection\">".toList ++
          "<TYPE>Group</TYPE></COLLECTION>".toList ++
          "</TDLMESSAGE></TDL></DESC></BODY></ENVELOPE>".toList) := by
  have h : Accounts "Acme & Co".toList mixedValues mixedReplies [groups, recent, measures]
      mixedRun := run_accounts _ _ _ _
  obtain ⟨hgroups, hrecent, hmeasures⟩ :
      Settled (substitute (compile groups "Acme & Co".toList) mixedValues) ∧
        ¬ Settled (substitute (compile recent "Acme & Co".toList) mixedValues) ∧
        Settled (substitute (compile measures "Acme & Co".toList) mixedValues) := by
    decide +kernel
  have hbefore : (([groups, recent, measures].take 2).filter fun t =>
      Settled (substitute (compile t "Acme & Co".toList) mixedValues)).length = 1 := by
    simp only [List.take_succ_cons, List.take_zero, List.filter_cons, List.filter_nil, hgroups,
      hrecent, decide_true, decide_false, if_true, Bool.false_eq_true, if_false, List.length_cons,
      List.length_nil]
  obtain ⟨first, hfirst, hsent, hexported, -⟩ := h.answered 0 groups rfl hgroups
  obtain ⟨second, hsecond, -, -, hfailed⟩ := h.answered 2 measures rfl hmeasures
  obtain rfl : first = 0 := hfirst
  obtain rfl : second = 1 := hsecond.trans hbefore
  refine ⟨?_, ?_, hfailed (.status 503) rfl, ?_, ?_⟩
  · rw [hexported "<F01>Assets &amp; more</F01>\r\n".toList rfl]
    decide +kernel
  · rw [h.blocked 1 recent rfl hrecent]
    decide +kernel
  · rw [h.sent]
    simp only [List.map_cons, List.map_nil, List.filter_cons, List.filter_nil, hgroups, hrecent,
      hmeasures, decide_true, decide_false, if_true, Bool.false_eq_true, if_false,
      List.length_cons, List.length_nil]
  · rw [hsent]
    decide +kernel

end LedgerExport.Run
