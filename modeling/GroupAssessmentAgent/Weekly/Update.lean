import GroupAssessmentAgent.Flush
import GroupAssessmentAgent.Python.Ordinals
import GroupAssessmentAgent.Reports.Identity

/-!
# The weekly command

`run_once`: a report for every group of every owner, and then the mails that tell of them. An owner whose groups cannot
be listed is passed over; an exception in the work on a report ends the command.
-/

namespace GroupAssessmentAgent
open Prog

/-- `date - timedelta(days)`. -/
def Instant.Date.minusDays (d : Instant.Date) (days : Int) : Except Exc Instant.Date :=
  let n := (d.ordinal : Int) - days
  if 1 ≤ n ∧ n ≤ Instant.Date.maxOrdinal then .ok (.ofOrdinal n.toNat)
  else .error ⟨.overflowError, "date value out of range"⟩

/-- `reporting_period`, where `today` is the date in the default timezone. -/
def reportingPeriod (lookbackDays : Int) (today : Instant.Date) : Except Exc Period := do
  let start ← today.minusDays lookbackDays
  return ⟨start, today⟩

/-- `owners` are the items of the dict that `load_group_owners` gives. -/
structure WeeklyUpdate where
  owners : List (Text × Nat)
  workflow : WeeklyReportWorkflow
  lookbackDays : Int := 7

namespace WeeklyUpdate
variable (out : Outside) (u : WeeklyUpdate)

/-- The call for the report about a group. -/
def wanted (ownerEmail : Text) (userId : Nat) (period : Period) (group : GroupSummary) : ReportStore.Wanted :=
  { groupId := group.id, groupName := group.name, ownerEmail, backendUserId := userId,
    periodStart := period.start.isoformat, periodEnd := period.stop.isoformat }

/-- `create_or_get`, then `workflow.run`. -/
def updateGroup (c : ReportStore.Wanted) : M Unit := do
  let report ← c.call out
  match report with
  | none => throw ⟨.attributeError, "'NoneType' object has no attribute 'report_id'"⟩
  | some report => u.workflow.run out report.reportId

/-- The loop over the groups of an owner. -/
def updateGroups : List ReportStore.Wanted → M Nat
  | [] => pure 0
  | c :: calls => do
    u.updateGroup out c
    let generated ← updateGroups calls
    return generated + 1

/-- The groups of an owner. -/
def listGroups (userId : Nat) : M (List GroupSummary) := do
  let token ← callBackend (.login userId) fun n => u.workflow.diarisation.login n userId
  callBackend (.listGroups token) fun n => u.workflow.diarisation.listGroups n token

/-- The groups of an owner, or nothing where they cannot be listed. -/
def listed (userId : Nat) : M (Option (List GroupSummary)) :=
  tryCatch (some <$> u.listGroups userId) fun _ => pure none

/-- The loop over the owners. -/
def updateOwners (period : Period) : List (Text × Nat) → M Nat
  | [] => pure 0
  | (ownerEmail, userId) :: owners => do
    let groups ← u.listed userId
    match groups with
    | none => updateOwners period owners
    | some groups => do
      let generated ← u.updateGroups out (groups.map (wanted ownerEmail userId period))
      let rest ← updateOwners period owners
      return generated + rest

/-- `run_once`. -/
def runOnce (today : Instant.Date) : M Nat :=
  if u.owners = [] then pure 0
  else do
    let period ← Prog.ofExcept (reportingPeriod u.lookbackDays today)
    let generated ← u.updateOwners out period u.owners
    let _ ← flushReportOutbox out
    return generated

end WeeklyUpdate

end GroupAssessmentAgent
