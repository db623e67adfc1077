import LedgerExport.Engine.Endpoint
import LedgerExport.Files.FileSystem
import LedgerExport.Job.Config
import LedgerExport.Run.Tables
import LedgerExport.Schema.Reader

/-! # Running jobs

Before anything is sent the definition is read, then the period, and then, if the engine is reached
over the network, its address. The first fault ends the run; faults of tables do not.
-/
namespace LedgerExport.Run
open Files

inductive RunFault where
  | definitionMissing (path : Text)
  /-- The file is there but cannot be read as a text. -/
  | unreadable (path : Text) (fault : FileFault)
  | invalidDefinition (path : Text) (fault : DefinitionFault)
  | invalidDate (fault : InvalidDate)
  | invalidEndpoint (server : Text) (port : UInt16) (fault : Engine.EndpointFault)
  deriving Repr, DecidableEq

def invalidDateMessage (d : InvalidDate) : Text :=
  "invalid ".toList ++ d.which.key ++ " date ".toList ++ Text.quoted d.value ++
    ", expected yyyy-MM-dd".toList

namespace RunFault

def message : RunFault → Text
  | .definitionMissing path =>
    "export definition ".toList ++ Text.quoted path ++ " does not exist".toList
  | .unreadable path fault =>
    "reading ".toList ++ Text.quoted path ++ ": ".toList ++ fault.message
  | .invalidDefinition path fault =>
    "parsing export definition ".toList ++ Text.quoted path ++ ": ".toList ++ fault.message
  | .invalidDate fault => invalidDateMessage fault
  | .invalidEndpoint server port fault =>
    "invalid engine endpoint ".toList ++ server ++ ':' :: Text.decimal port.toNat ++
      ": ".toList ++ fault.message

def isDefinitionMissing : RunFault → Bool
  | .definitionMissing _ => true
  | _ => false

end RunFault

/-- How texts in foreign formats are read: a definition, and the host of an address. -/
structure Readers where
  definition : Text → Except DefinitionFault Definition
  host : Text → Except Engine.HostFault Engine.Host

def Readers.standard : Readers := ⟨Definition.parse, Engine.Host.parse⟩

def parseDefinition (readers : Readers) (path t : Text) : Except RunFault Definition :=
  (readers.definition t).mapError (.invalidDefinition path)

def loadDefinition (readers : Readers) (files : FileReader) (path : Text) :
    Except RunFault Definition :=
  if files.isFile path then do
    let t ← (files.text path).mapError (.unreadable path)
    parseDefinition readers path t
  else throw (.definitionMissing path)

/-- What a run needs before anything is sent. -/
structure Plan where
  tables : List Table
  values : Request.SubstitutionSet
  deriving Repr, DecidableEq

def Plan.session (p : Plan) (channel : Channel) (c : JobConfig) : Session :=
  ⟨channel, c.effectiveCompany, p.values⟩

def prepare (readers : Readers) (files : FileReader) (c : JobConfig) : Except RunFault Plan := do
  let definition ← loadDefinition readers files c.definition
  let values ← c.substitutions.mapError .invalidDate
  return ⟨definition.select c.importMaster c.importTransaction, values⟩

def checkEndpoint (readers : Readers) (c : JobConfig) : Except RunFault Engine.Endpoint :=
  (Engine.Endpoint.readWith readers.host c.server c.port).mapError
    (.invalidEndpoint c.server c.port)

/-- Steps of a job. A fault ends them, but what has been sent before it stays sent. -/
abbrev Steps := ExceptT RunFault Sending

def Plan.send (p : Plan) (channel : Channel) (c : JobConfig) : Steps Report :=
  (p.session channel c).sendTables p.tables

def sendWith (readers : Readers) (files : FileReader) (channel : Channel) (c : JobConfig) :
    Steps Report := do
  let plan ← prepare readers files c
  plan.send channel c

/-- The steps of a job with the engine at the configured address, which `connect` reaches. -/
def sendRemote (readers : Readers) (files : FileReader) (connect : Engine.Endpoint → Channel)
    (c : JobConfig) : Steps Report := do
  let plan ← prepare readers files c
  let endpoint ← checkEndpoint readers c
  plan.send (connect endpoint) c

def transcript (steps : Steps Report) : Except RunFault Transcript :=
  match steps.run.run [] with
  | (.ok report, sent) => .ok ⟨report, sent⟩
  | (.error fault, _) => .error fault

def runWith (readers : Readers) (files : FileReader) (channel : Channel) (c : JobConfig) :
    Except RunFault Transcript :=
  transcript (sendWith readers files channel c)

def runRemote (readers : Readers) (files : FileReader) (connect : Engine.Endpoint → Channel)
    (c : JobConfig) : Except RunFault Transcript :=
  transcript (sendRemote readers files connect c)

end LedgerExport.Run
