import GroupAssessmentAgent.Jobs.Worker
import GroupAssessmentAgent.Pipeline
import GroupAssessmentAgent.Weekly.Update

/-!
# The service

What the program is started with (the loaded settings, `load_group_owners`), what it builds from that (`run` and the
weekly command), and the loops that then run side by side: the mail loop, the job worker, and the weekly command, which is
a process of its own. `Installation.Call` are the calls these make, and a run of the service is a run of a pool of threads
that make them.
-/

namespace GroupAssessmentAgent
open Prog

/-! ### Settings -/

/-- The loaded settings, as far as they decide who is served and where mails go. -/
structure Settings where
  groupOwners : List (Text × Nat) := []
  requireAuthPass : Bool := true
  maxParseRetries : Nat := 2
  limits : LimitsSettings := {}
  maxEmailBodyChars : Nat := 20000
  storage : StorageSettings
  alertCooldown : Nat := 15 * 60 * Instant.microsPerSecond
  lookbackDays : Int := 7
  adminEmail : Option Text := none
  authorisedEmailDomains : List Text := []
  diarisationServiceApiKey : Option Text := none

/-- What the client gets for `GET /admin/group-owners`: an `HTTPError`, or an answer with its status and its text, which
may or may not be JSON. -/
inductive AdminResponse where
  | httpError (text : Text)
  | answered (status : Nat) (text : Text) (json : Except Exc (List (Text × Nat)))

/-- `AdminDiarisationApiError`, or another exception. -/
inductive AdminFailure where
  | api (message : Text)
  | other (e : Exc)

/-- `get_group_owners`. -/
def getGroupOwners : AdminResponse → Except AdminFailure (List (Text × Nat))
  | .httpError text => .error (.api (cat ["GET /admin/group-owners failed: ", text]))
  | .answered status text json =>
    if status ≠ 200 then
      .error (.api (cat ["GET /admin/group-owners returned ", natText status, ": ", text.take 200]))
    else
      match json with
      | .ok owners => .ok owners
      | .error e => .error (.other e)

/-- `load_group_owners`. -/
def loadGroupOwners (settings : Settings) (response : AdminResponse) : Except Exc (List (Text × Nat)) :=
  if settings.groupOwners ≠ [] then .ok settings.groupOwners
  else
    match truthy settings.diarisationServiceApiKey with
    | none => .ok []
    | some _ =>
      match getGroupOwners response with
      | .ok owners => .ok owners
      | .error (.api _) => .ok []
      | .error (.other e) => .error e

/-! ### What is built from them -/

/-- The settings, the owners that the service and the weekly command have loaded, and the backends. -/
structure Installation where
  settings : Settings
  owners : List (Text × Nat)
  weeklyOwners : List (Text × Nat)
  systemPrompt : Text
  diarisation : DiarisationClient
  github : GithubRaginatorClient

namespace Installation

def admin (i : Installation) : AdminNotifier := ⟨i.settings.adminEmail, i.settings.alertCooldown⟩

def authoriser (i : Installation) : SenderAuthoriser :=
  ⟨i.owners, i.settings.authorisedEmailDomains, i.settings.requireAuthPass⟩

def pipeline (i : Installation) : EmailProcessingPipeline :=
  { authoriser := i.authoriser
    parser := ⟨i.systemPrompt, i.settings.maxParseRetries, i.settings.maxEmailBodyChars⟩
    admin := i.admin
    storage := i.settings.storage
    limits := i.settings.limits
    adminEmail := i.settings.adminEmail }

def worker (i : Installation) : JobWorker := ⟨i.diarisation, i.github, i.admin, i.settings.storage⟩

def weekly (i : Installation) : WeeklyUpdate :=
  ⟨i.weeklyOwners, ⟨i.diarisation, i.github, i.admin⟩, i.settings.lookbackDays⟩

/-! ### The loops -/

section
variable [PyChars] (out : Outside)

/-- `poll_once`, with a match against the weekly reports. -/
def pollOnceWith (p : EmailProcessingPipeline) (matchReport : EmailMessage → Text → M (Option WeeklyReport))
    (fetched : Except Exc (List EmailMessage)) : M Nat := do
  let messages ← observeE .fetch fun _ => fetched
  p.processAllWith out matchReport messages
  return messages.length

theorem pollOnceWith_matchReport (p : EmailProcessingPipeline) (fetched : Except Exc (List EmailMessage)) :
    pollOnceWith out p EmailProcessingPipeline.matchReport fetched = p.pollOnce out fetched :=
  rfl

/-- A round of `_mail_loop`: an exception ends the round, not the loop. -/
def mailRound (i : Installation) (matchReport : EmailMessage → Text → M (Option WeeklyReport))
    (fetched : Except Exc (List EmailMessage)) : M Unit :=
  tryCatch (do
      let _ ← pollOnceWith out i.pipeline matchReport fetched
      let _ ← flushOutbox out)
    fun _ => pure ()

/-- A round of `run_forever`. -/
def workerRound (i : Installation) : M Unit :=
  tryCatch (do let _ ← i.worker.runOnce out) fun _ => pure ()

/-- The weekly command, on the day `today`. -/
def weeklyRun (i : Installation) (today : Instant.Date) : M Unit := do
  let _ ← i.weekly.runOnce out today

/-- The calls that the service and the weekly command make, whatever the mail client fetches. -/
inductive Call (i : Installation) (matchReport : EmailMessage → Text → M (Option WeeklyReport)) : M Unit → Prop
  | mail (fetched : Except Exc (List EmailMessage)) : Call i matchReport (i.mailRound out matchReport fetched)
  | work : Call i matchReport (i.workerRound out)
  | weekly (today : Instant.Date) : Call i matchReport (i.weeklyRun out today)

end

end Installation

end GroupAssessmentAgent
