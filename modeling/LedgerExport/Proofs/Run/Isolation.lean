import LedgerExport.Proofs.OrderedMap
import LedgerExport.Proofs.Run.Period

/-! # Isolation of tables

Two runs that differ in one table, or in the reply to it, differ nowhere else: the other tables
send the same documents and have the same outcomes, and the rows under every other name are the
same. What carries this is that an outcome is settled by its table and by what the channel gives
for it. The main statement is `run_isolates`.
-/
namespace LedgerExport
namespace Run
open Request

theorem Report.get?_collect (data : ExportData) {o : Outcome} {name : Text} (h : o.table ≠ name) :
    (collect data o).get? name = data.get? name := by
  cases o with
  | exported table rows =>
    rw [collect, OrderedMap.get?_put, if_neg]
    exact h
  | failed error => rfl

theorem Report.get?_foldl_collect (outcomes : List Outcome) {data data' : ExportData} {name : Text}
    (h : data.get? name = data'.get? name) :
    (outcomes.foldl collect data).get? name = (outcomes.foldl collect data').get? name := by
  induction outcomes generalizing data data' with
  | nil => exact h
  | cons o rest ih =>
    refine ih ?_
    cases o with
    | exported table rows => rw [collect, collect, OrderedMap.get?_put, OrderedMap.get?_put, h]
    | failed error => exact h

/-- Lists that agree in all other places are the same before and behind it. -/
theorem exists_split_of_agree {α : Type} {l l' : List α} {i : Nat} {a a' : α} (ha : l[i]? = some a)
    (ha' : l'[i]? = some a') (h : ∀ k, k ≠ i → l[k]? = l'[k]?) :
    ∃ before after, l = before ++ a :: after ∧ l' = before ++ a' :: after := by
  obtain ⟨hi, rfl⟩ := List.getElem?_eq_some_iff.mp ha
  obtain ⟨hi', rfl⟩ := List.getElem?_eq_some_iff.mp ha'
  have hbefore : l.take i = l'.take i := by
    refine List.ext_getElem? fun k => ?_
    rw [List.getElem?_take, List.getElem?_take]
    by_cases hk : k < i
    · rw [if_pos hk, if_pos hk, h k (Nat.ne_of_lt hk)]
    · rw [if_neg hk, if_neg hk]
  have hafter : l.drop (i + 1) = l'.drop (i + 1) := by
    refine List.ext_getElem? fun k => ?_
    rw [List.getElem?_drop, List.getElem?_drop, h]
    omega
  refine ⟨l.take i, l.drop (i + 1), ?_, ?_⟩
  · rw [List.cons_getElem_drop_succ, List.take_append_drop]
  · rw [hbefore, hafter, List.cons_getElem_drop_succ, List.take_append_drop]

/-- Reports that differ at one position only have the same rows under all other names. -/
theorem Report.get?_data_congr {r r' : Report} {i : Nat} {o o' : Outcome}
    (ho : r.outcomes[i]? = some o) (ho' : r'.outcomes[i]? = some o')
    (h : ∀ k, k ≠ i → r.outcomes[k]? = r'.outcomes[k]?) {name : Text} (hn : o.table ≠ name)
    (hn' : o'.table ≠ name) : r.data.get? name = r'.data.get? name := by
  obtain ⟨before, after, hl, hl'⟩ := exists_split_of_agree ho ho' h
  rw [data, data, hl, hl', List.foldl_append, List.foldl_append, List.foldl_cons, List.foldl_cons]
  refine get?_foldl_collect after ?_
  rw [get?_collect _ hn, get?_collect _ hn']

namespace Session

/-- What the channel gives for the table at a position of a run, if its document is sent. -/
def result? (s : Session) (tables : List Table) (i : Nat) : Option (Except TransportFault Text) :=
  tables[i]?.bind fun t =>
    if s.Ready t then some (s.channel (s.requests (tables.take i)) (s.document t)) else none

/-- An outcome is settled by its table and by what the channel gives for it. -/
theorem run_outcomes_result (s : Session) (tables : List Table) (i : Nat) :
    (s.run tables).report.outcomes[i]? = tables[i]?.map fun t =>
      match s.result? tables i with
      | some reply => answer t reply
      | none => .failed ⟨t.name, .unresolved (s.openKeys t)⟩ := by
  rw [s.run_outcomes]
  cases ht : tables[i]? with
  | none => rfl
  | some t =>
    rw [Option.map_some, Option.map_some, result?, ht, Option.bind_some]
    by_cases hr : s.Ready t
    · rw [if_pos hr, s.outcome_of_ready hr]
    · rw [if_neg hr, s.outcome_of_not_ready hr]

/-- If all tables are sent, each takes the reply of its own position. -/
theorem result?_scripted {s : Session} {replies : List (Except TransportFault Text)}
    (hs : s.channel = .scripted replies) {tables : List Table} (hr : ∀ t ∈ tables, s.Ready t)
    {i : Nat} (hi : i < tables.length) :
    s.result? tables i = some (replies[i]?.getD (.ok [])) := by
  have hlength : (s.requests (tables.take i)).length = i := by
    have hall : (tables.take i).filter (fun t => s.Ready t) = tables.take i :=
      List.filter_eq_self.mpr fun t ht => decide_eq_true (hr t (List.mem_of_mem_take ht))
    rw [requests, hall, List.length_map, List.length_take, Nat.min_eq_left hi.le]
  rw [result?, List.getElem?_eq_getElem hi, Option.bind_some, if_pos (hr _ (List.getElem_mem hi)),
    hs, Channel.scripted, hlength]

theorem getElem?_append_cons_congr {pre post : List Table} {t t' : Table} {k : Nat}
    (hk : k ≠ pre.length) : (pre ++ t :: post)[k]? = (pre ++ t' :: post)[k]? := by
  rcases Nat.lt_or_gt_of_ne hk with h | h
  · rw [List.getElem?_append_left h, List.getElem?_append_left h]
  · obtain ⟨m, rfl⟩ := Nat.exists_eq_add_of_lt h
    rw [List.getElem?_append_right (by omega), List.getElem?_append_right (by omega)]
    have hm : pre.length + m + 1 - pre.length = m + 1 := by omega
    rw [hm, List.getElem?_cons_succ, List.getElem?_cons_succ]

/-- Another ready table in the place of one, or another reply to it, changes neither the documents
nor the outcomes of the other tables nor the rows under other names. -/
theorem run_isolates (channel channel' : Channel) (company : Text) (values : SubstitutionSet)
    {pre post : List Table} {t t' : Table} (ht : Ready ⟨channel, company, values⟩ t)
    (ht' : Ready ⟨channel', company, values⟩ t')
    (hresults : ∀ k, k ≠ pre.length →
      result? ⟨channel, company, values⟩ (pre ++ t :: post) k =
        result? ⟨channel', company, values⟩ (pre ++ t' :: post) k) :
    let s : Session := ⟨channel, company, values⟩
    let transcript := s.run (pre ++ t :: post)
    let transcript' := run ⟨channel', company, values⟩ (pre ++ t' :: post)
    transcript.sent = s.requests pre ++ s.document t :: s.requests post ∧
      transcript'.sent = s.requests pre ++ s.document t' :: s.requests post ∧
      (∀ k, k ≠ pre.length →
        transcript.report.outcomes[k]? = transcript'.report.outcomes[k]?) ∧
      ∀ name, t.name ≠ name → t'.name ≠ name →
        transcript.report.data.get? name = transcript'.report.data.get? name := by
  intro s transcript transcript'
  let s' : Session := ⟨channel', company, values⟩
  have houtcomes : ∀ k, k ≠ pre.length →
      transcript.report.outcomes[k]? = transcript'.report.outcomes[k]? := by
    intro k hk
    have hleft := run_outcomes_result s (pre ++ t :: post) k
    have hright := run_outcomes_result s' (pre ++ t' :: post) k
    rw [← getElem?_append_cons_congr hk, ← hresults k hk] at hright
    exact hleft.trans hright.symm
  refine ⟨(s.run_sent _).trans (s.requests_append_cons ht pre post),
    (s'.run_sent _).trans (s'.requests_append_cons ht' pre post), houtcomes, fun name hn hn' => ?_⟩
  -- of the outcome in between no more is used than the name it carries
  have houtcome (s : Session) (u : Table) :
      (s.run (pre ++ u :: post)).report.outcomes[pre.length]? =
        some (s.outcome (s.requests pre) u) := by
    rw [s.run_outcomes, List.getElem?_append_right (Nat.le_refl _), Nat.sub_self, List.take_left]
    rfl
  refine Report.get?_data_congr (houtcome s t) (houtcome s' t') houtcomes ?_ ?_
  · rw [s.outcome_table]
    exact hn
  · rw [s'.outcome_table]
    exact hn'

def ledgers : Table := { groups with name := "ledgers".toList, collection := "Ledger".toList }
def stock : Table := { groups with name := "stock".toList, collection := "StockItem".toList }
def vouchers : Table := { groups with name := "vouchers".toList, collection := "Voucher".toList }

/-- A job's session with replies to three tables, of which the second one may be a failure. -/
def acmeSession (second : Except TransportFault Text) : Session :=
  session (.scripted [.ok "<F01>Assets</F01>\r\n".toList, second, .ok "<F01>7</F01>\r\n".toList])
    (groupsJob "Acme".toList) (yearStart, yearEnd)

theorem acmeSession_ready (second : Except TransportFault Text) :
    ∀ t ∈ [groups, ledgers, stock, vouchers], (acmeSession second).Ready t := by
  have huntouched : ∀ t ∈ [groups, ledgers, stock, vouchers],
      Untouched t (groupsJob "Acme".toList).effectiveCompany := by decide
  exact fun t ht => ((ready_and_document_iff _ _ _ _ t).mpr (huntouched t ht)).1

theorem acmeSession_result (second : Except TransportFault Text) {t : Table}
    (ht : t ∈ [groups, ledgers, stock, vouchers]) (k : Nat) :
    (acmeSession second).result? ([groups] ++ t :: [vouchers]) k =
      [.ok "<F01>Assets</F01>\r\n".toList, second, .ok "<F01>7</F01>\r\n".toList][k]? := by
  have hready := acmeSession_ready second
  have hall : ∀ u ∈ [groups] ++ t :: [vouchers], (acmeSession second).Ready u := by
    simp only [List.singleton_append, List.mem_cons, List.not_mem_nil, or_false]
    rintro u (rfl | rfl | rfl)
    · exact hready _ (by decide)
    · exact hready _ ht
    · exact hready _ (by decide)
  have hreply (i : Nat) (hi : i < 3) := result?_scripted (s := acmeSession second) rfl hall hi
  match k with
  | 0 => exact hreply 0 (by decide)
  | 1 => exact hreply 1 (by decide)
  | 2 => exact hreply 2 (by decide)
  | k + 3 => rfl

theorem run_isolates_stock :
    let transcript := (acmeSession (.ok "<F01>Cash</F01>\r\n".toList)).run
      [groups, ledgers, vouchers]
    let transcript' := (acmeSession (.error (.status 503))).run [groups, stock, vouchers]
    transcript.report.outcomes[2]? = transcript'.report.outcomes[2]? ∧
      transcript.report.data.get? "vouchers".toList =
        transcript'.report.data.get? "vouchers".toList := by
  have hledgers := acmeSession_ready (.ok "<F01>Cash</F01>\r\n".toList) ledgers (by decide)
  have hstock := acmeSession_ready (.error (.status 503)) stock (by decide)
  have hresults : ∀ k, k ≠ [groups].length →
      (acmeSession (.ok "<F01>Cash</F01>\r\n".toList)).result?
          ([groups] ++ ledgers :: [vouchers]) k =
        (acmeSession (.error (.status 503))).result? ([groups] ++ stock :: [vouchers]) k := by
    intro k hk
    rw [acmeSession_result _ (by decide), acmeSession_result _ (by decide)]
    match k with
    | 0 => rfl
    | 1 => exact absurd rfl hk
    | k + 2 => rfl
  obtain ⟨-, -, houtcomes, hdata⟩ := run_isolates _ _ _ _ hledgers hstock hresults
  rw [List.singleton_append, List.singleton_append] at houtcomes hdata
  rw [acmeSession, acmeSession, session, session]
  exact ⟨houtcomes 2 (by decide), hdata _ (by decide) (by decide)⟩

end Session

end Run

end LedgerExport
