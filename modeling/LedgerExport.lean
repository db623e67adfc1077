import LedgerExport.Main
import LedgerExport.Proofs.Reply.Page
import LedgerExport.Proofs.Reply.Runs
import LedgerExport.Proofs.Reply.Scan
import LedgerExport.Proofs.Reply.Tags
import LedgerExport.Proofs.Request.Content
import LedgerExport.Proofs.Run.Accounting
import LedgerExport.Proofs.Run.Isolation
import LedgerExport.Proofs.Run.Period
import LedgerExport.Proofs.Run.Transcript
import LedgerExport.Proofs.Text.Entity
import LedgerExport.Service.Answer
import LedgerExport.Text.Encoding
import LedgerExport.Proofs.OrderedMap
import LedgerExport.Proofs.Steps
import LedgerExport.Proofs.Reply.Census
import LedgerExport.Proofs.Request.Reading
import LedgerExport.Proofs.Request.Tree
import LedgerExport.Proofs.Request.Query
import LedgerExport.Proofs.Request.Faithful
import LedgerExport.Proofs.Request.Wiring
import LedgerExport.Proofs.Request.Nesting
import LedgerExport.Proofs.Run.ExportedData
import LedgerExport.Proofs.Run.Refusal
import LedgerExport.Proofs.Reply.Truncation
import LedgerExport.Proofs.Reply.Spacing
import LedgerExport.Proofs.Run.Checks
import LedgerExport.Proofs.Text.Utf16
import LedgerExport.Proofs.Json.Spelling
import LedgerExport.Proofs.Json.Writing
import LedgerExport.Proofs.Run.Response
import LedgerExport.Proofs.Request.Filling
import LedgerExport.Proofs.Reply.Header
import LedgerExport.Proofs.Json.Following
import LedgerExport.Proofs.Json.Wrapping
import LedgerExport.Proofs.Files.Tree
import LedgerExport.Proofs.Run.FrontEnds
import LedgerExport.Proofs.Text.Escaping
import LedgerExport.Proofs.Reply.Blanks
import LedgerExport.Proofs.Calendar.Reading
import LedgerExport.Proofs.Job.Dates
import LedgerExport.Proofs.Calendar.Writing
import LedgerExport.Proofs.Job.DateValues
import LedgerExport.Proofs.Request.Expression
import LedgerExport.Proofs.Reply.Row
import LedgerExport.Proofs.Engine.Endpoint
