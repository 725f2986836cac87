import GroupAssessmentAgent.Outbox.Delivery
import GroupAssessmentAgent.Service.Addressees

/-!
# A start without owners

`load_group_owners` gives no owners when it cannot reach the backend. A service that has started so serves nobody: in no
run does it create a job or a report, ask the model, or call a backend, and the mails that it sends go to the admin and to
addresses in the authorised domains (`nobody_served`).
-/

namespace GroupAssessmentAgent
open Prog

/-- The answer is not a list of owners. -/
def AdminResponse.Unreached : AdminResponse → Prop
  | .httpError _ => True
  | .answered status _ _ => status ≠ 200

/-- No service key is set, or the backend could not be reached. -/
def LoadedOffline (settings : Settings) (owners : List (Text × Nat)) : Prop :=
  ∃ response : AdminResponse, (truthy settings.diarisationServiceApiKey ≠ none → response.Unreached) ∧
    loadGroupOwners settings response = .ok owners

/-- An installation whose owners were to come from the backend, which could not be reached. -/
structure StartedOffline (i : Installation) : Prop where
  override : i.settings.groupOwners = []
  owners : LoadedOffline i.settings i.owners
  weeklyOwners : LoadedOffline i.settings i.weeklyOwners

theorem LoadedOffline.eq_nil {settings : Settings} {owners : List (Text × Nat)} (h : LoadedOffline settings owners)
    (hsettings : settings.groupOwners = []) : owners = [] := by
  obtain ⟨response, hunreached, hload⟩ := h
  rw [loadGroupOwners, if_neg fun h => h hsettings] at hload
  cases hkey : truthy settings.diarisationServiceApiKey with
  | none =>
    rw [hkey] at hload
    exact (Except.ok.inj hload).symm
  | some key =>
    rw [hkey] at hload hunreached
    have hunreached := hunreached (Option.some_ne_none key)
    cases response with
    | httpError text => exact (Except.ok.inj hload).symm
    | answered status text json =>
      have hstatus : status ≠ 200 := hunreached
      simp only [getGroupOwners, if_pos hstatus] at hload
      exact (Except.ok.inj hload).symm

/-! ### Nothing is begun -/

/-- No job or report has been begun, and neither the model nor a backend has been asked for anything. -/
structure Unbegun (w : World) : Prop where
  jobs : w.jobs.rows = []
  reports : w.weeklyReports.rows = []
  questions : w.pendingClarifications.rows = []
  evidence : w.reportEvidence.rows = []
  generations : w.generations = 0
  calls : w.backendCalls = 0

/-- The step begins nothing. -/
def BeginsNothing (_ : Stmt) (f : World → World) : Prop := ∀ w, Unbegun w → Unbegun (f w)

/-- The others begin nothing. -/
def StaysUnbegun (w w' : World) : Prop := Unbegun w → Unbegun w'

theorem map_rows_nil {α κ : Type} [DecidableEq κ] {key : α → κ} {t : Table key} (h : t.rows = []) (k : κ) (f : α → α)
    (hf : ∀ a, key (f a) = key a) : (t.modify k f hf).rows = [] := by
  simp [Table.modify, h]

theorem unbegun_writeJob {w : World} (h : Unbegun w) (jobId : Text) (fields : List JobField) :
    Unbegun (w.writeJob jobId fields) :=
  { h with jobs := map_rows_nil h.jobs jobId _ fun _ => by simp }

theorem covers_beginsNothing : Covers BeginsNothing (fun _ => False) fun _ => True where
  look _ _ _ h := h
  ask _ _ h := h
  tick _ h := { h with }
  job _ _ hjob := hjob.elim
  status _ _ _ _ hjob := hjob.elim
  outbox _ _ _ _ h := { h with }
  put _ hjob := hjob.elim
  delete _ hjob := hjob.elim
  alert _ _ h := { h with }
  files _ _ _ hf w h := by
    obtain ⟨t, n, heq⟩ := hf w
    rw [heq]
    exact { h with }

theorem coversMarks_beginsNothing : CoversMarks BeginsNothing fun _ => True := by
  refine ⟨⟨fun _ f _ hf w h => ?_, fun _ f _ hf w h => ?_⟩, fun _ _ h => { h with }⟩
  · obtain ⟨t, heq, -⟩ := hf w
    rw [heq]
    exact { h with }
  · obtain ⟨t, heq, -⟩ := hf w
    rw [heq]
    exact { h with }

theorem coversDelivery_beginsNothing (id : Nat) : CoversDelivery BeginsNothing id where
  read _ h := h
  outbox _ h := h
  tick _ h := { h with }
  send f hf w h := by
    obtain ⟨d, -, heq⟩ := hf w
    rw [heq]
    exact { h with }
  sent _ _ h := { h with }
  link _ f hf w h := by
    rcases hf w with heq | ⟨_, _, -, -, heq⟩
    · rw [heq]
      exact h
    · rw [heq]
      exact { h with }
  failure _ _ _ h := { h with }

theorem unbegun_stable : Stable StaysUnbegun Unbegun := fun _ _ h hs => h hs

section
variable [PyChars] (out : Outside)

/-- Without owners every sender is a stranger. -/
theorem processMessage_beginsNothing {p : EmailProcessingPipeline} (hp : p.authoriser.groupOwners = [])
    (matchReport : EmailMessage → Text → M (Option WeeklyReport)) (msg : EmailMessage) :
    Always BeginsNothing (p.processMessageWith out matchReport msg) := by
  have hbegin : Always BeginsNothing (ProcessedMessageStore.begin out msg.messageId
      (orText (p.authOf msg).senderEmail msg.fromAddress) (p.authOf msg).reason.value) :=
    begin_always covers_beginsNothing out coversMarks_beginsNothing.toCoversLedger trivial _ _
  refine hbegin.bind fun fresh => ?_
  split_ifs with hfresh hauth
  · exact markProcessed_always coversMarks_beginsNothing _
  · obtain ⟨email, userId, -, howner, -⟩ := SenderAuthoriser.authorise_authorised hauth
    rw [SenderAuthoriser.ownerId, hp] at howner
    cases howner
  · exact handleStranger_always covers_beginsNothing out coversMarks_beginsNothing msg trivial p _ (fun _ _ _ => trivial)
      fun _ _ _ => trivial

theorem mailRound_beginsNothing {i : Installation} (hi : i.owners = [])
    (matchReport : EmailMessage → Text → M (Option WeeklyReport)) (fetched : Except Exc (List EmailMessage)) :
    Always BeginsNothing (i.mailRound out matchReport fetched) := by
  have hall : ∀ msgs, Always BeginsNothing (i.pipeline.processAllWith out matchReport msgs) := by
    intro msgs
    induction msgs with
    | nil => trivial
    | cons msg msgs ih =>
      refine Always.bind (Always.tryCatch (processMessage_beginsNothing out hi matchReport msg) fun _ => ?_) fun _ => ih
      trivial
  have hflush : ∀ m, Always BeginsNothing (flushOne out m) := fun m =>
    (coversDelivery_beginsNothing m.id).flushOne out fun jobId fields w h => unbegun_writeJob h jobId fields
  refine Always.tryCatch ?_ fun _ => trivial
  refine Always.bind ?_ fun _ => ?_
  · refine Always.bind (always_observeE (fun _ h => h) _) fun messages => ?_
    refine (hall messages).bind fun _ => ?_
    trivial
  · refine Always.bind ?_ fun _ => trivial
    exact Always.bind (always_observe (fun _ h => h) _) fun messages => flushAll_always hflush messages

variable {out} {E : Env Stmt World Exc}

theorem workerRound_stays (i : Installation) {w : World} (hw : Unbegun w) :
    RG E StaysUnbegun StaysUnbegun (fun _ _ => True) (i.workerRound out) w := by
  have hrefl : ∀ s, StaysUnbegun s s := fun _ h => h
  have hlist : RG E StaysUnbegun StaysUnbegun (fun x _ => ∀ jobs, x = .ok jobs → jobs = []) JobStore.listQueued w := by
    refine rg_observe unbegun_stable (fun _ _ _ _ h => h) (fun s hs => ⟨fun h => h, fun jobs heq => ?_⟩)
      (fun _ _ _ _ _ h => by cases h) hw
    rw [← Except.ok.inj heq, hs.jobs]
    rfl
  refine Inside.tryCatch hrefl ?_ fun _ _ _ _ => trivial
  refine Inside.bind hrefl ?_ fun _ _ _ _ => trivial
  refine RG.bind hrefl hlist (fun jobs s hjobs => ?_) fun _ _ _ => trivial
  rw [hjobs jobs rfl]
  exact fun _ _ => trivial

theorem call_stays {i : Installation} (howners : i.owners = []) (hweekly : i.weeklyOwners = [])
    {matchReport : EmailMessage → Text → M (Option WeeklyReport)} {p : M Unit} (hcall : i.Call out matchReport p)
    {w : World} (hw : Unbegun w) : RG E StaysUnbegun StaysUnbegun (fun _ _ => True) p w := by
  cases hcall with
  | mail fetched => exact (mailRound_beginsNothing out howners matchReport fetched).rg (fun _ _ hA s _ => hA s) w
  | work => exact workerRound_stays i hw
  | weekly today =>
    have hidle : i.weekly.runOnce out today = pure 0 := if_pos hweekly
    rw [Installation.weeklyRun, hidle]
    exact fun _ _ => trivial

/-- The surroundings: files come and go, and so does Ollama. -/
def Weather (w w' : World) : Prop := ∃ files up, w' = { w with files := files, ollamaUp := up }

/-- Some threads of these installations, in such surroundings. -/
abbrev WeatheredRun (installed : Installation → Prop) (out : Outside) (E : Env Stmt World Exc) {ι : Type}
    [DecidableEq ι] (c c' : (ι → M Unit) × World) : Prop :=
  PoolSteps E Weather
    (fun _ p _ => ∃ i, installed i ∧ ∃ matchReport, FindsOwn E matchReport ∧ i.Call out matchReport p) c c'

/-- **Without owners nobody is served.** Where every installation that runs was started with the backend out of reach,
no job and no report is ever begun, nothing is asked of the model or of a backend, and every mail that is written goes to
an admin or to an address in an authorised domain. -/
theorem nobody_served {installed : Installation → Prop} (hoffline : ∀ i, installed i → StartedOffline i) {ι : Type}
    [DecidableEq ι] {c : (ι → M Unit) × World} (hrun : WeatheredRun installed out E (fun _ => ret (), {}) c) :
    Unbegun c.2 ∧ ∀ m ∈ c.2.outbox.rows, ∃ i, installed i ∧ ∃ a, mailboxOf a = mailboxOf m.toEmail ∧
      (some a = truthy i.settings.adminEmail ∨
        ∃ email, normaliseEmail a = some email ∧ i.authoriser.knowsDomain (domainOf email)) := by
  have hnone : ∀ i, installed i → i.owners = [] ∧ i.weeklyOwners = [] := fun i hi =>
    ⟨(hoffline i hi).owners.eq_nil (hoffline i hi).override, (hoffline i hi).weeklyOwners.eq_nil (hoffline i hi).override⟩
  have haround : ∀ w w', Weather w w' → StaysUnbegun w w' := by
    rintro w _ ⟨files, up, rfl⟩ h
    exact { h with }
  refine ⟨?_, fun m hm => ?_⟩
  · have hspec : PoolSpec E Weather (fun (_ : ι) p w => (∃ i, installed i ∧ ∃ matchReport, FindsOwn E matchReport ∧
        i.Call out matchReport p) ∧ Unbegun w) (fun _ => StaysUnbegun) (fun _ => StaysUnbegun) (fun _ _ => True) :=
      { refl := fun _ _ h => h
        trans := fun _ _ _ _ h h' hw => h' (h hw)
        others := fun _ _ _ _ _ h => h
        around := fun _ => haround
        called := by
          rintro _ p w ⟨⟨i, hi, matchReport, -, hcall⟩, hw⟩
          exact call_stays (hnone i hi).1 (hnone i hi).2 hcall hw }
    have hempty : Unbegun ({} : World) := ⟨rfl, rfl, rfl, rfl, rfl, rfl⟩
    exact (hspec.inv_of_calls (fun _ _ _ h => h) haround hrun (fun _ _ _ => trivial) hempty).2
  · have hbooks : ∀ w w', Weather w w' → BooksAgree w w' := by
      rintro w _ ⟨files, up, rfl⟩
      rfl
    have hinstalled : InstalledRun installed out E (fun _ => ret (), {}) c := hrun.around hbooks
    have hsound := hinstalled.sound Books.sound_empty
    have hletter : m.letter ∈ c.2.books.letters := List.mem_map_of_mem hm
    obtain ⟨i, hi, a, hsame, hlists⟩ := hsound.letter_known (fun _ _ => knownTo_congr) hletter
    refine ⟨i, hi, a, hsame, ?_⟩
    cases hlists with
    | admin hadmin => exact .inl hadmin
    | owner howner =>
      rw [(hnone i hi).1, (hnone i hi).2] at howner
      cases howner
    | domain hemail hdomain => exact .inr ⟨_, hemail, hdomain⟩

end

section
attribute [local instance] asciiChars

/-- An installation with a service key, and a backend that did not answer. -/
def strandedInstallation : Installation :=
  { smallInstallation with
    settings := { smallInstallation.settings with diarisationServiceApiKey := some "key" }
    owners := []
    weeklyOwners := [] }

theorem stranded_offline : StartedOffline strandedInstallation where
  override := rfl
  owners := ⟨.httpError "connection refused", fun _ => trivial, rfl⟩
  weeklyOwners := ⟨.httpError "connection refused", fun _ => trivial, rfl⟩

/-- A round of the mail loop with a message that would have been an owner's. -/
def mailToStranded : M Unit := strandedInstallation.mailRound .plain EmailProcessingPipeline.noReport (.ok [aliceMessage])

theorem nobody_served_stranded : Unbegun (mailToStranded.run {}).2 ∧ (mailToStranded.run {}).2.outbox.rows ≠ [] := by
  have hrun : WeatheredRun (· = strandedInstallation) .plain Env.calm (fun _ : Unit => ret (), {}) _ :=
    PoolSteps.call (t := ()) .refl ⟨_, rfl, _, noReport_findsOwn, .mail _⟩
      (steps_run _ (fun _ _ => trivial) mailToStranded {})
  have hoffline : ∀ i, i = strandedInstallation → StartedOffline i := by
    rintro _ rfl
    exact stranded_offline
  exact ⟨(nobody_served hoffline hrun).1, by decide +kernel⟩

end

end GroupAssessmentAgent
