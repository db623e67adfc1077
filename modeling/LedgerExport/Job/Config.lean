import LedgerExport.Calendar.Date
import LedgerExport.Request.Substitution

/-! # Job configurations -/
namespace LedgerExport

/-- One export job: which definition to run, over which period, against which engine. -/
structure JobConfig where
  /-- The path of the export definition. -/
  definition : Text
  fromDate : Text
  toDate : Text
  company : Option Text := none
  server : Text
  port : UInt16
  importMaster : Bool := true
  importTransaction : Bool := true
  deriving Repr, DecidableEq

inductive PeriodEnd where
  | start | finish
  deriving Repr, DecidableEq

def PeriodEnd.key : PeriodEnd → Text
  | .start => Request.fromDateKey
  | .finish => Request.toDateKey

structure InvalidDate where
  which : PeriodEnd
  value : Text
  deriving Repr, DecidableEq

namespace JobConfig

/-- The engine's own variable for the company that is open in it. -/
def currentCompany : Text := "##SVCurrentCompany".toList

def targetCompanyKey : Text := "targetCompany".toList

/-- The configured company, or the engine's current one if none is named. -/
def effectiveCompany (c : JobConfig) : Text :=
  match c.company with
  | some (x :: xs) => x :: xs
  | _ => currentCompany

def readDate (which : PeriodEnd) (value : Text) : Except InvalidDate Date :=
  match Date.parse? value with
  | some d => .ok d
  | none => .error ⟨which, value⟩

def period (c : JobConfig) : Except InvalidDate (Date × Date) := do
  let start ← readDate .start c.fromDate
  let finish ← readDate .finish c.toDate
  return (start, finish)

/-- The values that all tables of a run share. -/
def valuesOf (c : JobConfig) (period : Date × Date) : Request.SubstitutionSet :=
  .ofList [(Request.fromDateKey, .ofDate period.1), (Request.toDateKey, .ofDate period.2),
    (targetCompanyKey, .text c.effectiveCompany)]

def substitutions (c : JobConfig) : Except InvalidDate Request.SubstitutionSet :=
  c.period.map c.valuesOf

end JobConfig

end LedgerExport
