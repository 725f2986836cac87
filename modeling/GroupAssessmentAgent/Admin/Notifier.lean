import GroupAssessmentAgent.Jobs.Store

/-!
# Admin alerts

At most one alert of a category within the cooldown. An alert is a mail in the outbox like any other.
-/

namespace GroupAssessmentAgent
open Prog

def AdminCategory.value : AdminCategory → Text
  | unauthorisedSender => "unauthorised_sender"
  | llmParseFailure => "llm_parse_failure"
  | backendSubmissionFailure => "backend_submission_failure"
  | assessQueryFailure => "assess_query_failure"
  | infrastructure => "infrastructure"

/-- `cooldown` is in microseconds. -/
structure AdminNotifier where
  adminEmail : Option Text
  cooldown : Nat := 15 * 60 * Instant.microsPerSecond

namespace AdminNotifier

def shouldSend (out : Outside) (n : AdminNotifier) (category : AdminCategory) : M Bool := do
  let row ← observe .selectAlerts fun w => w.adminAlerts.find? category
  match row with
  | none => return true
  | some row =>
    let now ← utcnow out
    return row.lastSentAt + n.cooldown ≤ now

def recordSent (out : Outside) (category : AdminCategory) : M Unit := do
  let now ← utcnow out
  change .putAlert fun w => { w with adminAlerts := w.adminAlerts.upsert ⟨category, now⟩ }

def alertSubject (category : AdminCategory) : Text :=
  cat ["[GroupAssessmentAgent] ", title (replaceChar '_' ' ' category.value)]

def detailLines (detail : List (Text × Text)) : List Text :=
  if detail = [] then [] else "Details:" :: detail.map fun kv => cat ["  ", kv.1, ": ", kv.2]

def alertBody (summary : Text) (detail : List (Text × Text)) : Text :=
  join "\n" (summary :: "" :: detailLines detail)

def alert (out : Outside) (n : AdminNotifier) (category : AdminCategory) (summary : Text)
    (detail : List (Text × Text)) : M Bool :=
  match truthy n.adminEmail with
  | none => return false
  | some adminEmail => do
    let due ← shouldSend out n category
    if due then
      let _ ← Outbox.enqueue out adminEmail (alertSubject category) (alertBody summary detail) none [] none none
      recordSent out category
      return true
    else
      return false

end AdminNotifier

end GroupAssessmentAgent
