import LedgerExport.Job.Reader
import LedgerExport.Run.Response

/-! # The command line

Two arguments name the file of the job and the file for its response. Only a job that cannot be read
leaves the response unwritten.
-/
namespace LedgerExport.CommandLine
open Files Run

structure Invocation where
  config : Text := "config.json".toList
  output : Text := "data.json".toList
  deriving Repr, DecidableEq

/-- Arguments that are missing have defaults, and more than two do not count. -/
def Invocation.ofArgs : List Text → Invocation
  | [] => {}
  | [config] => { config }
  | config :: output :: _ => { config, output }

structure Ending where
  exit : Nat
  stderr : Text
  deriving Repr, DecidableEq

def Ending.success : Ending := ⟨0, []⟩

def Ending.failure (message : Text) : Ending := ⟨1, "Error: ".toList ++ message ++ ['\n']⟩

def Ending.causedFailure (message cause : Text) : Ending :=
  .failure (message ++ "\n\nCaused by:\n    ".toList ++ cause)

def Invocation.job (i : Invocation) (files : FileReader) : Except Ending JobConfig :=
  match files.text i.config with
  | .error fault => .error (.causedFailure ("reading ".toList ++ i.config) fault.message)
  | .ok t =>
    (JobConfig.parse t).mapError fun e =>
      .causedFailure ("parsing ".toList ++ i.config) e.message

def respond : Except RunFault Transcript → Response
  | .ok t => .success t.report.data
  | .error fault =>
    if fault.isDefinitionMissing then .definitionMissing else .failure fault.message

def outputText (r : Response) : Text := Json.indented r.toJson

/-- How the program ends once it has tried to write the response. -/
def Invocation.ending (i : Invocation) (r : Response) (written : Except FileFault Unit) : Ending :=
  match written with
  | .error fault => .causedFailure ("writing ".toList ++ i.output) fault.message
  | .ok () => if r.status ≠ "success".toList then .failure r.message else .success

/-- Runs the program on the files of a system, and gives the files as they are left. -/
def run {σ : Type} [FileSystem σ] (readers : Readers) (connect : Engine.Endpoint → Channel)
    (files : σ) (args : List Text) : Ending × σ :=
  let i := Invocation.ofArgs args
  match i.job (reader files) with
  | .error ending => (ending, files)
  | .ok c =>
    let response := respond (runRemote readers (reader files) connect c)
    let (written, left) := write files i.output (Text.encodeUtf8 (outputText response))
    (i.ending response written, left)

end LedgerExport.CommandLine
