import LedgerExport.Proofs.Files.Tree
import LedgerExport.Proofs.Run.Transcript
import LedgerExport.Run.Job

/-! # The checks of a job

A job is checked before its first document is sent. Each check looks for one kind of fault, and the
first fault in their order is the one that a job fails with. Until then its log is empty, and behind
the checks no answer of the channel makes it fail. The main statement is `jobs_are_guarded`.
-/
namespace LedgerExport

def JobConfig.dateText (c : JobConfig) : PeriodEnd → Text
  | .start => c.fromDate
  | .finish => c.toDate

namespace Run
open Files

/-! ## Faults in the order of the checks -/

/-- A check gives the fault that it finds. What an earlier check has to find is not its concern. -/
abbrev Check := Readers → FileReader → JobConfig → Option RunFault

namespace Check

def file : Check := fun _ files c =>
  if files.isFile c.definition then none else some (.definitionMissing c.definition)

def text : Check := fun _ files c =>
  match files.text c.definition with
  | .ok _ => none
  | .error fault => some (.unreadable c.definition fault)

def shape : Check := fun readers files c =>
  match files.text c.definition with
  | .ok t =>
    match readers.definition t with
    | .ok _ => none
    | .error fault => some (.invalidDefinition c.definition fault)
  | .error _ => none

def date (which : PeriodEnd) : Check := fun _ _ c =>
  match Date.parse? (c.dateText which) with
  | some _ => none
  | none => some (.invalidDate ⟨which, c.dateText which⟩)

def endpoint : Check := fun readers _ c =>
  match Engine.Endpoint.readWith readers.host c.server c.port with
  | .ok _ => none
  | .error fault => some (.invalidEndpoint c.server c.port fault)

end Check

/-- In a tree of files the path has to lead to a file in it. -/
theorem Check.file_eq_none_iff (readers : Readers) (t : Tree) (c : JobConfig) :
    Check.file readers (reader t) c = none ↔
      ∃ bytes, t.locate c.definition = .ok (.file bytes) := by
  have hfile : (reader t).isFile c.definition = t.isFile c.definition := rfl
  rw [Check.file, hfile, Tree.isFile]
  rcases t.locate c.definition with _ | _ | _ <;> simp

/-- What every job is checked for, in this order. -/
def checks : List Check := [.file, .text, .shape, .date .start, .date .finish]

section Faults
variable (readers : Readers) (files : FileReader) (c : JobConfig)

def firstFault? (checks : List Check) : Option RunFault :=
  checks.findSome? fun check => check readers files c

/-- The plain file at the path of a job holds the text of the definition. -/
def Defines (definition : Definition) : Prop :=
  files.isFile c.definition = true ∧ ∃ bytes t, files.read c.definition = .ok bytes ∧
    Text.decodeUtf8? bytes = some t ∧ readers.definition t = .ok definition

def faultOf? {α : Type} : Except RunFault α → Option RunFault
  | .ok _ => none
  | .error fault => some fault

theorem faultOf?_eq_some_iff {α : Type} {e : Except RunFault α} {fault : RunFault} :
    faultOf? e = some fault ↔ e = .error fault := by
  cases e <;> simp [faultOf?]

theorem firstFault?_append (a b : List Check) :
    firstFault? readers files c (a ++ b) =
      (firstFault? readers files c a).or (firstFault? readers files c b) := by
  simp [firstFault?, List.findSome?_append]

theorem firstFault?_definition :
    firstFault? readers files c [.file, .text, .shape] =
      faultOf? (loadDefinition readers files c.definition) := by
  simp only [firstFault?, List.findSome?, Check.file, Check.text, Check.shape, loadDefinition,
    parseDefinition]
  cases files.isFile c.definition with
  | false => rfl
  | true =>
    cases files.text c.definition with
    | error fault => rfl
    | ok t =>
      dsimp only [Except.mapError, bind, Except.bind, if_true]
      cases readers.definition t <;> rfl

theorem text_eq_ok_iff {path t : Text} : files.text path = .ok t ↔
    ∃ bytes, files.read path = .ok bytes ∧ Text.decodeUtf8? bytes = some t := by
  refine bind_eq_ok_iff.trans (exists_congr fun bytes => and_congr_right fun _ => ?_)
  cases Text.decodeUtf8? bytes <;> simp

theorem loadDefinition_eq_ok_iff {definition : Definition} :
    loadDefinition readers files c.definition = .ok definition ↔
      Defines readers files c definition := by
  rw [loadDefinition, Defines]
  cases files.isFile c.definition with
  | false => simp
  | true =>
    rw [if_pos rfl, bind_eq_ok_iff]
    simp only [mapError_eq_ok_iff, text_eq_ok_iff, parseDefinition, true_and]
    grind

theorem firstFault?_dates :
    firstFault? readers files c [.date .start, .date .finish] =
      faultOf? (c.substitutions.mapError .invalidDate) := by
  simp only [firstFault?, List.findSome?, Check.date, JobConfig.dateText, JobConfig.substitutions,
    JobConfig.period, JobConfig.readDate]
  cases Date.parse? c.fromDate with
  | none => rfl
  | some a => cases Date.parse? c.toDate <;> rfl

theorem firstFault?_endpoint :
    firstFault? readers files c [.endpoint] = faultOf? (checkEndpoint readers c) := by
  simp only [firstFault?, List.findSome?, Check.endpoint, checkEndpoint]
  cases Engine.Endpoint.readWith readers.host c.server c.port <;> rfl

/-- A plan fails with the first fault of the checks. -/
theorem firstFault?_checks :
    firstFault? readers files c checks = faultOf? (prepare readers files c) := by
  have hsplit : checks = [.file, .text, .shape] ++ [.date .start, .date .finish] := rfl
  rw [hsplit, firstFault?_append, firstFault?_definition, firstFault?_dates, prepare]
  cases loadDefinition readers files c.definition with
  | error fault => rfl
  | ok definition => cases c.substitutions <;> rfl

end Faults

/-! ## What the steps of a job come to -/

/-- What a job owes to its checks: `run` is what it comes to, and `steps` brings it there. -/
structure Guarded (checks : List Check) (readers : Readers) (files : FileReader) (c : JobConfig)
    (run : Except RunFault Transcript) (steps : Steps Report) : Prop where
  /-- It fails with the first fault of the checks, and for no other reason. -/
  fails : ∀ fault, run = .error fault ↔ firstFault? readers files c checks = some fault
  /-- Before a fault nothing has been sent. -/
  silent : ∀ fault, run = .error fault → steps.run.run [] = (.error fault, [])
  /-- Without one there is an outcome for each selected table. -/
  reports : firstFault? readers files c checks = none →
    ∃ definition transcript, Defines readers files c definition ∧ run = .ok transcript ∧
      steps.run.run [] = (.ok transcript.report, transcript.sent) ∧
      transcript.report.outcomes.map Outcome.table =
        ((if c.importMaster then definition.master else []) ++
          if c.importTransaction then definition.transaction else []).map Table.name

/-- The end of steps that send nothing before a fault. -/
def logOf : Except RunFault Transcript → Except RunFault Report × List Text
  | .error fault => (.error fault, [])
  | .ok transcript => (.ok transcript.report, transcript.sent)

section Guards
variable {readers : Readers} {files : FileReader} {c : JobConfig}

/-- A job runs the session of its plan, and sends nothing without one. -/
theorem sendWith_run (channel : Channel) : (sendWith readers files channel c).run.run [] =
    logOf ((prepare readers files c).map fun plan =>
      (plan.session channel c).run plan.tables) := by
  rw [sendWith]
  cases prepare readers files c <;> rfl

theorem sendRemote_run (connect : Engine.Endpoint → Channel) :
    (sendRemote readers files connect c).run.run [] =
      logOf ((prepare readers files c).bind fun plan =>
        (checkEndpoint readers c).map fun endpoint =>
          (plan.session (connect endpoint) c).run plan.tables) := by
  rw [sendRemote]
  cases prepare readers files c with
  | error fault => rfl
  | ok plan => cases checkEndpoint readers c <;> rfl

theorem transcript_eq_of_run {steps : Steps Report} {run : Except RunFault Transcript}
    (h : steps.run.run [] = logOf run) : transcript steps = run := by
  rw [transcript, h]
  cases run <;> rfl

theorem outcomes_map_table_of_prepare {plan : Plan} (h : prepare readers files c = .ok plan)
    (s : Session) : ∃ definition, Defines readers files c definition ∧
      (s.run plan.tables).report.outcomes.map Outcome.table =
        (definition.select c.importMaster c.importTransaction).map Table.name := by
  obtain ⟨definition, hdefinition, h⟩ := bind_eq_ok_iff.mp h
  obtain ⟨values, -, h⟩ := bind_eq_ok_iff.mp h
  obtain rfl := Except.ok.inj h
  exact ⟨definition, (loadDefinition_eq_ok_iff readers files c).mp hdefinition,
    s.run_outcomes_map_table _⟩

/-- Steps that fail as the checks do, and run a session over the tables of the plan otherwise. -/
theorem guarded_of_run {checks : List Check} {steps : Steps Report}
    {run : Except RunFault Transcript} (hsteps : steps.run.run [] = logOf run)
    (hfault : firstFault? readers files c checks = faultOf? run)
    (hplan : ∀ transcript, run = .ok transcript → ∃ plan, ∃ s : Session,
      prepare readers files c = .ok plan ∧ s.run plan.tables = transcript) :
    Guarded checks readers files c (transcript steps) steps := by
  rw [transcript_eq_of_run hsteps]
  refine ⟨fun fault => ?_, fun fault h => ?_, fun hnone => ?_⟩
  · rw [hfault, faultOf?_eq_some_iff]
  · rw [hsteps, h, logOf]
  · cases hrun : run with
    | error fault => simp [hfault, hrun, faultOf?] at hnone
    | ok transcript =>
      rw [hrun] at hsteps
      obtain ⟨plan, s, hprepare, rfl⟩ := hplan transcript hrun
      obtain ⟨definition, hdefines, htables⟩ := outcomes_map_table_of_prepare hprepare s
      exact ⟨definition, _, hdefines, rfl, hsteps, htables⟩

end Guards

/-- A job fails with the first fault of its checks and sends nothing then. Otherwise it reports on
each selected table, whatever the channel answers. With the engine at its address the address is
checked last. -/
theorem jobs_are_guarded (readers : Readers) (files : FileReader) (channel : Channel)
    (connect : Engine.Endpoint → Channel) (c : JobConfig) :
    Guarded checks readers files c (runWith readers files channel c)
        (sendWith readers files channel c) ∧
      Guarded (checks ++ [.endpoint]) readers files c (runRemote readers files connect c)
        (sendRemote readers files connect c) := by
  constructor
  · refine guarded_of_run (sendWith_run channel) ?_ fun transcript h => ?_
    · rw [firstFault?_checks]
      cases prepare readers files c <;> rfl
    · obtain ⟨plan, hplan, h⟩ := map_eq_ok_iff.mp h
      exact ⟨plan, _, hplan, h⟩
  · refine guarded_of_run (sendRemote_run connect) ?_ fun transcript h => ?_
    · rw [firstFault?_append, firstFault?_checks, firstFault?_endpoint]
      cases prepare readers files c with
      | error fault => rfl
      | ok plan => cases checkEndpoint readers c <;> rfl
    · obtain ⟨plan, hplan, h⟩ := bind_eq_ok_iff.mp h
      obtain ⟨endpoint, -, h⟩ := map_eq_ok_iff.mp h
      exact ⟨plan, _, hplan, h⟩

end Run
end LedgerExport
