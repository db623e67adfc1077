import LedgerExport.Run.Tables
import LedgerExport.Proofs.Text.Replacement

/-! # What a run sends, and when

A table sends its document if the period is settled in it, whatever became of the tables before it.
So what has been sent when a table's turn comes is known from the tables before it, and its outcome
is the one that the channel gives after that.
-/
namespace LedgerExport.Run
open Request Text

def Settled (document : Text) : Prop := ∀ key ∈ periodKeys, ¬ placeholder key <:+: document

instance (document : Text) : Decidable (Settled document) :=
  inferInstanceAs (Decidable (∀ key ∈ periodKeys, _))

namespace Session
variable (s : Session)

def Ready (t : Table) : Prop := Settled (s.document t)

instance (t : Table) : Decidable (s.Ready t) := inferInstanceAs (Decidable (Settled _))

def requests (tables : List Table) : List Text :=
  (tables.filter fun t => s.Ready t).map s.document

theorem requests_append (a b : List Table) :
    s.requests (a ++ b) = s.requests a ++ s.requests b := by
  simp [requests]

/-- A ready table sends its document between those of the tables around it. -/
theorem requests_append_cons {t : Table} (h : s.Ready t) (a b : List Table) :
    s.requests (a ++ t :: b) = s.requests a ++ s.document t :: s.requests b := by
  have hone : s.requests [t] = [s.document t] := by simp [requests, h]
  rw [← List.singleton_append, requests_append, requests_append, hone, List.singleton_append]

/-- The documents of all tables are sent if and only if all tables are ready. -/
theorem requests_eq_map_iff (tables : List Table) (f : Table → Text) :
    s.requests tables = tables.map f ↔ ∀ t ∈ tables, s.Ready t ∧ s.document t = f t := by
  constructor
  · intro h
    have hlen : (tables.filter fun t => s.Ready t).length = tables.length := by
      simpa [requests] using congrArg List.length h
    have hall : tables.filter (fun t => s.Ready t) = tables :=
      List.filter_sublist.eq_of_length hlen
    rw [requests, hall, List.map_inj_left] at h
    rw [List.filter_eq_self] at hall
    exact fun t ht => ⟨of_decide_eq_true (hall t ht), h t ht⟩
  · intro h
    have hall : tables.filter (fun t => s.Ready t) = tables :=
      List.filter_eq_self.mpr fun t ht => decide_eq_true (h t ht).1
    rw [requests, hall]
    exact List.map_congr_left fun t ht => (h t ht).2

theorem openKeys_eq (t : Table) :
    s.openKeys t = periodKeys.filter fun key => placeholder key <:+: s.document t := by
  rw [openKeys, unresolved]
  refine List.filter_congr fun key _ => ?_
  rw [Bool.eq_iff_iff, contains_iff, decide_eq_true_iff]

theorem openKeys_eq_nil_iff (t : Table) : s.openKeys t = [] ↔ s.Ready t := by
  simp [openKeys_eq, Ready, Settled]

/-! ## One table -/

def answer (t : Table) : Except TransportFault Text → Outcome
  | .ok reply => .exported t.name (Reply.decode (t.fields.map Field.name) reply)
  | .error fault => .failed ⟨t.name, .transport fault⟩

/-- A ready table sends its document and takes what the channel answers. -/
theorem process_of_ready {t : Table} (h : s.Ready t) (sent : List Text) :
    (s.process t).run sent =
      (answer t (s.channel sent (s.document t)), sent ++ [s.document t]) := by
  rw [process, rows, (s.openKeys_eq_nil_iff t).mpr h]
  simp only [Channel.send, StateT.run, bind, StateT.bind]
  cases s.channel sent (s.document t) <;> rfl

/-- Any other table sends nothing and names what is open. -/
theorem process_of_not_ready {t : Table} (h : ¬ s.Ready t) (sent : List Text) :
    (s.process t).run sent = (.failed ⟨t.name, .unresolved (s.openKeys t)⟩, sent) := by
  rw [← openKeys_eq_nil_iff] at h
  obtain ⟨key, keys, hkeys⟩ := List.exists_cons_of_ne_nil h
  rw [process, rows, hkeys]
  rfl

theorem outcome_of_ready {t : Table} (h : s.Ready t) (sent : List Text) :
    s.outcome sent t = answer t (s.channel sent (s.document t)) :=
  congrArg Prod.fst (s.process_of_ready h sent)

theorem outcome_of_not_ready {t : Table} (h : ¬ s.Ready t) (sent : List Text) :
    s.outcome sent t = .failed ⟨t.name, .unresolved (s.openKeys t)⟩ :=
  congrArg Prod.fst (s.process_of_not_ready h sent)

theorem outcome_table (sent : List Text) (t : Table) : (s.outcome sent t).table = t.name := by
  by_cases h : s.Ready t
  · rw [s.outcome_of_ready h]
    cases s.channel sent (s.document t) <;> rfl
  · rw [s.outcome_of_not_ready h]
    rfl

theorem sentAfter_eq (sent : List Text) (t : Table) :
    s.sentAfter sent t = sent ++ s.requests [t] := by
  by_cases h : s.Ready t
  · rw [sentAfter, s.process_of_ready h]
    simp [requests, h]
  · rw [sentAfter, s.process_of_not_ready h]
    simp [requests, h]

/-! ## All tables -/

theorem report_run (r : Report) (t : Table) (sent : List Text) :
    (s.report r t).run sent = (r.push (s.outcome sent t), sent ++ s.requests [t]) := by
  rw [← s.sentAfter_eq]
  rfl

/-- Each table meets what the tables before it have sent. -/
theorem foldlM_report_run (tables : List Table) (r : Report) (sent : List Text) :
    (tables.foldlM s.report r).run sent =
      (⟨r.outcomes ++ tables.mapIdx fun i t => s.outcome (sent ++ s.requests (tables.take i)) t⟩,
        sent ++ s.requests tables) := by
  induction tables generalizing r sent with
  | nil =>
    simp only [List.foldlM_nil, List.mapIdx_nil, List.append_nil, requests, List.filter_nil,
      List.map_nil]
    rfl
  | cons t rest ih =>
    have hrequests (l : List Table) : sent ++ s.requests [t] ++ s.requests l =
        sent ++ s.requests (t :: l) := by
      rw [List.append_assoc, ← requests_append, List.singleton_append]
    have hnone : sent ++ s.requests [] = sent := List.append_nil sent
    rw [List.foldlM_cons, StateT.run_bind, s.report_run]
    refine (ih _ _).trans ?_
    simp only [hrequests, Report.push, List.append_assoc, List.singleton_append,
      List.mapIdx_cons, List.take_zero, List.take_succ_cons, hnone]

/-- The documents of the ready tables are sent, in order and once each. -/
theorem run_sent (tables : List Table) : (s.run tables).sent = s.requests tables :=
  congrArg Prod.snd (s.foldlM_report_run tables {} [])

/-- The outcome of a table is settled by the channel and by what the tables before it have sent. -/
theorem run_outcomes (tables : List Table) (i : Nat) :
    (s.run tables).report.outcomes[i]? =
      tables[i]?.map (s.outcome (s.requests (tables.take i))) := by
  have h := congrArg (fun p => p.1.outcomes) (s.foldlM_report_run tables {} [])
  have hrun : (s.run tables).report.outcomes =
      tables.mapIdx fun i t => s.outcome (s.requests (tables.take i)) t := h
  rw [hrun, List.getElem?_mapIdx]

theorem run_outcomes_map_table (tables : List Table) :
    (s.run tables).report.outcomes.map Outcome.table = tables.map Table.name := by
  refine List.ext_getElem? fun i => ?_
  rw [List.getElem?_map, run_outcomes, List.getElem?_map, Option.map_map]
  exact congrArg (fun f => tables[i]?.map f) (funext (s.outcome_table _))

theorem run_outcomes_length (tables : List Table) :
    (s.run tables).report.outcomes.length = tables.length := by
  simpa using congrArg List.length (s.run_outcomes_map_table tables)

end Session

end LedgerExport.Run
