import LedgerExport.Job.Reader
import LedgerExport.Run.Response
import LedgerExport.Service.MediaType

/-! # The HTTP front end

One path with two methods: a greeting, and a job in the body of the request. The body is looked at
only if its media type is JSON or is not named at all.
-/
namespace LedgerExport.Service
open Files Run

structure HttpRequest where
  method : Text
  path : Text
  body : Text := []
  contentType : Option Text := none
  deriving Repr, DecidableEq

structure HttpAnswer where
  status : Nat
  body : Text
  deriving Repr, DecidableEq

def HttpRequest.route (r : HttpRequest) : Text := r.path.takeWhile fun c => c != '?' && c != '#'

def HttpRequest.takesJson (r : HttpRequest) : Bool :=
  r.contentType.all fun t => (MediaType.parse? t).any MediaType.isJson

def greeting : Json :=
  .ofMembers [("message".toList, .string "Hello".toList),
    ("status".toList, .string "success".toList)]

def respond : Except RunFault Transcript → Nat × Response
  | .ok t => (200, .success t.report.data)
  | .error fault =>
    if fault.isDefinitionMissing then (400, .definitionMissing)
    else (500, .failure fault.message)

def jobAnswer (readers : Readers) (connect : Engine.Endpoint → Channel) (files : FileReader)
    (body : Text) : HttpAnswer :=
  match ExportRequest.parse body with
  | .error e => ⟨400, "Request body deserialize error: ".toList ++ e.message⟩
  | .ok request =>
    let (status, response) := respond (runRemote readers files connect request.config)
    ⟨status, Json.compact response.toJson⟩

def answer (readers : Readers) (connect : Engine.Endpoint → Channel) (files : FileReader)
    (r : HttpRequest) : HttpAnswer :=
  if r.route ≠ ['/'] then ⟨404, []⟩
  else if r.method = "GET".toList then ⟨200, Json.compact greeting⟩
  else if r.method = "POST".toList then
    if r.takesJson then jobAnswer readers connect files r.body
    else ⟨415, "The request's content-type is not supported".toList⟩
  else ⟨405, "HTTP method not allowed".toList⟩

end LedgerExport.Service
