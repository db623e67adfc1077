import LedgerExport.CommandLine

/-! # The program

Reads and writes the files that the command line names. There is no network behind the program, so
every request fails as one to an engine that does not listen.
-/
namespace LedgerExport.Main
open Files Run CommandLine

def faultOf : IO.Error → FileFault
  | .alreadyExists _ code details | .otherError code details | .resourceBusy code details
  | .resourceVanished code details | .unsupportedOperation code details
  | .hardwareFault code details | .unsatisfiedConstraints code details
  | .illegalOperation code details | .protocolError code details | .timeExpired code details
  | .interrupted _ code details | .noFileOrDirectory _ code details
  | .invalidArgument _ code details | .permissionDenied _ code details
  | .resourceExhausted _ code details | .inappropriateType _ code details
  | .noSuchThing _ code details => .numbered details.toList code.toNat
  | .unexpectedEof => ⟨"failed to fill whole buffer".toList⟩
  | .userError message => ⟨message.toList⟩

def isFile (path : Text) : IO Bool := do
  try
    let metadata ← ((← IO.currentDir) / String.ofList path).metadata
    return metadata.type == .file
  catch _ => return false

def readFile (path : Text) : IO (Except FileFault Bytes) := do
  try
    return .ok (← IO.FS.readBinFile ⟨String.ofList path⟩).data.toList
  catch e => return .error (faultOf e)

def writeFile (path : Text) (bytes : Bytes) : IO (Except FileFault Unit) := do
  try
    IO.FS.writeBinFile ⟨String.ofList path⟩ ⟨bytes.toArray⟩
    return .ok ()
  catch e => return .error (faultOf e)

def lookAt (path : Text) : IO FileReader := do
  let isFile ← isFile path
  let bytes ← readFile path
  return ⟨fun _ => isFile, fun _ => bytes⟩

def finish (e : Ending) : IO UInt32 := do
  IO.eprint (String.ofList e.stderr)
  return UInt32.ofNat e.exit

/-- Runs the program; each file is looked at once, when its path is known. -/
def run (args : List Text) : IO UInt32 := do
  let i := Invocation.ofArgs args
  match i.job (← lookAt i.config) with
  | .error ending => finish ending
  | .ok c =>
    let response := respond
      (runRemote .standard (← lookAt c.definition) (fun _ => .unreachable) c)
    finish (i.ending response (← writeFile i.output (Text.encodeUtf8 (outputText response))))

end LedgerExport.Main

def main (args : List String) : IO UInt32 := LedgerExport.Main.run (args.map String.toList)
