import LedgerExport.CommandLine
import LedgerExport.Service.Answer
import LedgerExport.Proofs.Files.Tree
import LedgerExport.Proofs.Json.Wrapping
import LedgerExport.Proofs.Run.Response

/-! # The two front ends

The service and the command line each turn what a job comes to into a response in their own way. It
is one envelope, and the status of the answer tells as much as the end of the program. The main
statement is `frontEnds_agree`.
-/
namespace LedgerExport.Run
open Files Json Service CommandLine

structure Posts (r : HttpRequest) (t : Text) : Prop where
  method : r.method = "POST".toList
  route : r.route = ['/']
  takesJson : r.takesJson = true
  body : Wraps "config".toList t r.body

def member? (name : Text) : Json → Option Json
  | .object members => members.findSome? fun m =>
    match m.1 with
    | .ok key => if key = name then some m.2 else none
    | .error _ => none
  | _ => none

/-- What the service answers, and how the program ends and leaves the files, for a job with this
outcome: one envelope, written in two ways. -/
structure Agree {σ : Type} [FileSystem σ] (files : σ) (i : Invocation)
    (outcome : Except RunFault Transcript) (answer : HttpAnswer) (ending : Ending) (left : σ)
    (envelope : Json) (output : Text) : Prop where
  answered : answer.body = compact envelope
  printed : output = indented envelope
  answer_read : scan answer.body = (envelope, some [])
  output_read : scan output = (envelope, some [])
  written : write files i.output (Text.encodeUtf8 output) = (.ok (), left)
  kept : ReadsBack files i.output → (reader left).text i.output = .ok output
  ok_iff : answer.status = 200 ↔ ending.exit = 0
  success_iff : ending.exit = 0 ↔
    member? "status".toList envelope = some (.string "success".toList)
  missing_iff : answer.status = 400 ↔ ∃ path, outcome = .error (.definitionMissing path)
  failed_iff : answer.status = 500 ↔
    ∃ fault, outcome = .error fault ∧ ∀ path, fault ≠ .definitionMissing path

/-! ## The two responses -/

section Responses
variable (outcome : Except RunFault Transcript)

theorem isDefinitionMissing_iff {fault : RunFault} :
    fault.isDefinitionMissing = true ↔ ∃ path, fault = .definitionMissing path := by
  cases fault <;> simp [RunFault.isDefinitionMissing]

/-- The service answers with the response that the command line writes. -/
theorem respond_snd : (Service.respond outcome).2 = CommandLine.respond outcome := by
  cases outcome with
  | ok t => rfl
  | error fault =>
    cases h : fault.isDefinitionMissing <;> simp [Service.respond, CommandLine.respond, h]

theorem respond_ok_iff : (Service.respond outcome).1 = 200 ↔
    (CommandLine.respond outcome).status = "success".toList := by
  cases outcome with
  | ok t => exact iff_of_true rfl rfl
  | error fault =>
    cases h : fault.isDefinitionMissing <;>
      simp [Service.respond, CommandLine.respond, h, Response.definitionMissing, Response.failure]

theorem respond_missing_iff : (Service.respond outcome).1 = 400 ↔
    ∃ path, outcome = .error (.definitionMissing path) := by
  cases outcome with
  | ok t => simp [Service.respond]
  | error fault =>
    simp only [Except.error.injEq]
    rw [← isDefinitionMissing_iff]
    cases h : fault.isDefinitionMissing <;> simp [Service.respond, h]

theorem respond_failed_iff : (Service.respond outcome).1 = 500 ↔
    ∃ fault, outcome = .error fault ∧ ∀ path, fault ≠ .definitionMissing path := by
  cases outcome with
  | ok t => simp [Service.respond]
  | error fault =>
    simp only [Except.error.injEq, exists_eq_left', ne_eq]
    rw [← not_exists, ← isDefinitionMissing_iff]
    cases h : fault.isDefinitionMissing <;> simp [Service.respond, h]

theorem exit_ending_iff (i : Invocation) (r : Response) :
    (i.ending r (.ok ())).exit = 0 ↔ r.status = "success".toList := by
  rw [Invocation.ending]
  split
  next h => exact iff_of_false Nat.one_ne_zero h
  next h => exact iff_of_true rfl (not_not.mp h)

theorem member?_status_iff (r : Response) :
    member? "status".toList r.toJson = some (.string "success".toList) ↔
      r.status = "success".toList := by
  have hmember : member? "status".toList r.toJson = some (.string r.status) := rfl
  rw [hmember, Option.some_inj, Json.string.injEq]

end Responses

/-! ## The same job -/

variable {connect : Engine.Endpoint → Channel} {c : JobConfig}

theorem exportRequest_ofJson {v : Json} (h : JobConfig.ofJson v = .ok c) :
    ExportRequest.ofJson (.ofMembers [("config".toList, v)]) = .ok ⟨c⟩ := by
  simp only [Json.ofMembers, List.map_cons, List.map_nil, ExportRequest.ofJson,
    ExportRequest.addAll, if_true, once, h, required, Except.map, bind, Except.bind]
  rfl

/-- A job that is posted is answered with its status and the response of the command line. -/
theorem answer_posts {readers : Readers} {files : FileReader} {r : HttpRequest} {t : Text}
    {v : Json} (hc : JobConfig.ofJson v = .ok c) (ht : Holds t v) (hr : Posts r t) :
    answer readers connect files r =
      ⟨(Service.respond (runRemote readers files connect c)).1,
        compact (CommandLine.respond (runRemote readers files connect c)).toJson⟩ := by
  have hparse : ExportRequest.parse r.body = .ok ⟨c⟩ :=
    readWith_eq_ok_iff.mpr ⟨_, ht.wrap hr.body, exportRequest_ofJson hc⟩
  have hget : ¬ "POST".toList = "GET".toList := by decide
  rw [answer, if_neg (not_not.mpr hr.route), hr.method, if_neg hget, if_pos rfl,
    if_pos hr.takesJson, jobAnswer, hparse, ← respond_snd]

variable {i : Invocation} {files : FileReader}

theorem job_eq_ok {u : Text} {v : Json} (hu : files.text i.config = .ok u) (hv : Holds u v)
    (hc : JobConfig.ofJson v = .ok c) : i.job files = .ok c := by
  have hparse : JobConfig.parse u = .ok c := readWith_eq_ok_iff.mpr ⟨v, hv, hc⟩
  simp only [Invocation.job, hu, hparse, Except.mapError]

/-- A job that cannot be read ends the program with a failure. -/
theorem job_eq_error (h : ∀ u c, files.text i.config = .ok u → JobConfig.parse u ≠ .ok c) :
    ∃ message, i.job files = .error (.failure message) := by
  unfold Invocation.job
  cases hu : files.text i.config with
  | error fault => exact ⟨_, rfl⟩
  | ok u =>
    dsimp only
    cases hc : JobConfig.parse u with
    | error e => exact ⟨_, rfl⟩
    | ok c => exact absurd hc (h u c hu)

/-- A configuration gives the same envelope in both front ends, whatever the files and the engine;
one that cannot be read leaves the files as they are. -/
theorem frontEnds_agree {σ : Type} [FileSystem σ] (readers : Readers)
    (connect : Engine.Endpoint → Channel) (files : σ) (args : List Text) :
    (∀ v c t r u, JobConfig.ofJson v = .ok c → Holds t v → Posts r t →
      (reader files).text (Invocation.ofArgs args).config = .ok u → Holds u v →
      (∃ left, write files (Invocation.ofArgs args).output (Text.encodeUtf8 (outputText
        (CommandLine.respond (runRemote readers (reader files) connect c)))) = (.ok (), left)) →
      ∃ envelope output, Agree files (.ofArgs args) (runRemote readers (reader files) connect c)
        (answer readers connect (reader files) r) (run readers connect files args).1
        (run readers connect files args).2 envelope output) ∧
    ((∀ u c, (reader files).text (Invocation.ofArgs args).config = .ok u →
        JobConfig.parse u ≠ .ok c) →
      (run readers connect files args).1.exit ≠ 0 ∧
        (run readers connect files args).2 = files) := by
  constructor
  · rintro v c t r u hc ht hr hu hv ⟨left, hwrite⟩
    generalize houtcome : runRemote readers (reader files) connect c = outcome at hwrite
    have hplain := (CommandLine.respond outcome).plain_toJson
    have hrun : run readers connect files args =
        ((Invocation.ofArgs args).ending (CommandLine.respond outcome) (.ok ()), left) := by
      simp only [run, job_eq_ok hu hv hc, houtcome, hwrite]
    rw [hrun, answer_posts hc ht hr, houtcome]
    exact ⟨(CommandLine.respond outcome).toJson, outputText (CommandLine.respond outcome), {
      answered := rfl
      printed := rfl
      answer_read := hplain.spells.scan_eq
      output_read := (hplain.spells_indentedAt 0).scan_eq
      written := hwrite
      kept := fun hkeeps => FileReader.text_of_read (hkeeps _ _ hwrite)
      ok_iff := (respond_ok_iff outcome).trans (exit_ending_iff (.ofArgs args) _).symm
      success_iff := (exit_ending_iff (.ofArgs args) _).trans (member?_status_iff _).symm
      missing_iff := respond_missing_iff outcome
      failed_iff := respond_failed_iff outcome }⟩
  · intro h
    obtain ⟨message, hjob⟩ := job_eq_error h
    simp only [run, hjob]
    exact ⟨Nat.one_ne_zero, trivial⟩

/-! ## A job with two tables -/

def booksSettings : Text :=
  '{' :: ("\"definition\": \"books.yaml\", \"fromDate\": \"2024-04-01\",\n".toList ++
    (" \"toDate\": \"2025-03-31\", \"server\": \"localhost\", \"port\": 9000".toList ++
      ['}', '\n']))

def booksJob : JobConfig where
  definition := "books.yaml".toList
  fromDate := "2024-04-01".toList
  toDate := "2025-03-31".toList
  server := "localhost".toList
  port := 9000

def booksDefinition : Text :=
  "master:\n  - name: groups\n    collection: Group\n    fields:\n".toList ++
    "      - name: name\n        field: Name\ntransaction:\n".toList ++
    "  - name: stock\n    collection: StockItem\n    fields: []\n".toList

def books : Tree := .ofFiles ["home".toList, "me".toList] [
  ("config.json".toList, Text.encodeUtf8 booksSettings),
  ("books.yaml".toList, Text.encodeUtf8 booksDefinition)]

/-- The engine answers for the groups, and refuses the stock. -/
def booksEngine : Engine.Endpoint → Channel := fun _ =>
  .scripted [.ok "<F01>Assets</F01>\r\n".toList, .error (.status 503)]

def post (settings : Text) : HttpRequest where
  method := "POST".toList
  path := "/?".toList
  body := '{' :: (" \"config\" :".toList ++ (settings ++ ['}', '\r', '\n']))

theorem post_posts (settings : Text) : Posts (post settings) settings where
  method := rfl
  route := rfl
  takesJson := rfl
  body := ⟨[], [' '], "config".toList.flatMap writeChar, [' '], "\r\n".toList, gap_nil, gap_space,
    spellsString_flatMap_writeChar _, gap_space, Text.forall_mem_of_all (by decide), rfl⟩

theorem holds_scan {t rest : Text} (h : (scan t).2 = some rest) (hrest : skipSpace rest = []) :
    Holds t (scan t).1 := ⟨rest, Prod.ext rfl h, hrest⟩

theorem books_write (bytes : Bytes) :
    ∃ left, write books "data.json".toList bytes = (.ok (), left) := ⟨_, rfl⟩

theorem books_text : (reader books).text "config.json".toList = .ok booksSettings :=
  FileReader.text_of_read rfl

def booksReport : Report := ⟨[.exported "groups".toList [⟨[("name".toList, "Assets".toList)]⟩],
  .failed ⟨"stock".toList, .transport (.status 503)⟩]⟩

theorem books_report : ∃ transcript,
    runRemote .standard (reader books) booksEngine booksJob = .ok transcript ∧
      transcript.report = booksReport := by
  have h : ((runRemote .standard (reader books) booksEngine booksJob).map
      Transcript.report).toOption = some booksReport := by decide +kernel
  exact map_eq_ok_iff.mp (eq_ok_of_toOption h)

/-- A job with an exported and a failed table, and a directory without any job. -/
theorem booksJob_agree :
    (∃ envelope output, Agree books (.ofArgs [])
      (runRemote .standard (reader books) booksEngine booksJob)
      (answer .standard booksEngine (reader books) (post booksSettings))
      (run .standard booksEngine books []).1 (run .standard booksEngine books []).2
      envelope output) ∧
    (∃ transcript, runRemote .standard (reader books) booksEngine booksJob = .ok transcript ∧
      transcript.report = booksReport) ∧
    answer .standard booksEngine (reader books) (post booksSettings) =
      ⟨200, compact (envelope ⟨[("groups".toList, [⟨[("name".toList, "Assets".toList)]⟩])]⟩)⟩ ∧
    (run .standard booksEngine ({} : Tree) []).1.exit ≠ 0 ∧
      (run .standard booksEngine ({} : Tree) []).2 = {} := by
  have hjob : JobConfig.ofJson (scan booksSettings).1 = .ok booksJob := by decide +kernel
  have hend : (scan booksSettings).2 = some ['\n'] := by decide +kernel
  have hholds := holds_scan hend (by decide)
  have hnone : (reader ({} : Tree)).text "config.json".toList = .error .missing := rfl
  refine ⟨?_, books_report, ?_, ?_⟩
  · exact (frontEnds_agree .standard booksEngine books []).1 _ _ _ _ _ hjob hholds
      (post_posts booksSettings) books_text hholds (books_write _)
  · obtain ⟨transcript, hrun, hreport⟩ := books_report
    rw [answer_posts hjob hholds (post_posts booksSettings), hrun, Service.respond,
      CommandLine.respond, hreport]
    rfl
  · exact (frontEnds_agree .standard booksEngine ({} : Tree) []).2
      fun u c hu => by cases hnone.symm.trans hu

end LedgerExport.Run
