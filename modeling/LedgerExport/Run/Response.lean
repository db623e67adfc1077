import LedgerExport.Json.Writer
import LedgerExport.Run.Job

/-! # Responses

The envelope in which a front end answers for a run.
-/
namespace LedgerExport.Run

structure Response where
  status : Text
  message : Text
  data : Option ExportData := none
  error : Option Text := none
  deriving Repr, DecidableEq

def rowJson (r : Row) : Json := .ofMembers (r.entries.map fun e => (e.1, .string e.2))

def rowsJson (rows : List Row) : Json := .array (rows.map rowJson)

def dataJson (d : ExportData) : Json := .ofMembers (d.entries.map fun e => (e.1, rowsJson e.2))

namespace Response

def success (data : ExportData) : Response where
  status := "success".toList
  message := "Data retrieved successfully".toList
  data

def definitionMissing : Response where
  status := "error".toList
  message := "Export definition file does not exist or is invalid.".toList

def failure (error : Text) : Response where
  status := "error".toList
  message := "An error occurred while processing the request.".toList
  error

/-- Members without a value are left out. -/
def toJson (r : Response) : Json :=
  .ofMembers (("status".toList, .string r.status) :: ("message".toList, .string r.message) ::
    (r.data.toList.map (fun d => ("data".toList, dataJson d)) ++
      r.error.toList.map fun e => ("error".toList, .string e)))

end Response

end LedgerExport.Run
