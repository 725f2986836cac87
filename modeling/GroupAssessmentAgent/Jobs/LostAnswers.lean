import GroupAssessmentAgent.Jobs.Submission
import GroupAssessmentAgent.Lib.Retry

/-!
# Answers that are lost

`DiarisationClient` repeats a request that fails in passing, whatever its method, and the backend may have applied it.
So one run of `execute` can create several meetings, and upload the file several times: as often as the client may try,
and one more, at most, than requests were applied and repeated because their answer was lost (`created_atMost`).
-/

namespace GroupAssessmentAgent
open Prog

/-- An HTTP request: whether the backend has applied it, and what `_do_request` makes of the answer. -/
abbrev HttpAttempt (α : Type) := Retry.Attempt Exc α

/-- What becomes of the k-th attempt at the n-th call. -/
structure Network where
  login : Nat → Nat → Nat → HttpAttempt Text
  listGroups : Nat → Nat → Text → HttpAttempt (List GroupSummary)
  createMeeting : Nat → Nat → Text → Nat → Datetime → HttpAttempt Nat
  uploadFile : Nat → Nat → Text → Nat → Nat → Option Text → Bytes → HttpAttempt Nat
  addAttendee : Nat → Nat → Text → Nat → Nat → Nat → HttpAttempt Unit
  resolveAliases : Nat → Nat → Text → Nat → List Text → HttpAttempt (List (Text × Option Nat))
  searchTranscripts : Nat → Nat → Text → Nat → Text → HttpAttempt (List TranscriptChunk)

namespace Network
variable (net : Network) (maxRetryAttempts : Nat)

/-- `DiarisationClient`: each method is a `_request`, and the retryer stops after `max_retry_attempts` attempts. -/
def client : DiarisationClient where
  login n userId := (Retry.send maxRetryAttempts fun k => net.login n k userId).2
  listGroups n token := (Retry.send maxRetryAttempts fun k => net.listGroups n k token).2
  createMeeting n token groupId date :=
    (Retry.send maxRetryAttempts fun k => net.createMeeting n k token groupId date).2
  uploadFile n token groupId meetingId filename content :=
    (Retry.send maxRetryAttempts fun k => net.uploadFile n k token groupId meetingId filename content).2
  addAttendee n token groupId meetingId memberId :=
    (Retry.send maxRetryAttempts fun k => net.addAttendee n k token groupId meetingId memberId).2
  resolveAliases n token groupId names :=
    (Retry.send maxRetryAttempts fun k => net.resolveAliases n k token groupId names).2
  searchTranscripts n token groupId query :=
    (Retry.send maxRetryAttempts fun k => net.searchTranscripts n k token groupId query).2

/-- The requests of a call that creates a meeting. -/
def creating : BackendCall → Nat → List (HttpAttempt Nat)
  | .createMeeting token groupId date, n =>
    (Retry.send maxRetryAttempts fun k => net.createMeeting n k token groupId date).1
  | _, _ => []

/-- The requests of a call that uploads a file. -/
def uploading : BackendCall → Nat → List (HttpAttempt Nat)
  | .uploadFile token groupId meetingId filename content, n =>
    (Retry.send maxRetryAttempts fun k => net.uploadFile n k token groupId meetingId filename content).1
  | _, _ => []

end Network

/-- The requests that a run has sent. -/
def sentBy (requests : BackendCall → Nat → List (HttpAttempt Nat)) (h : WorldHistory) : List (HttpAttempt Nat) :=
  h.flatMap fun t => (t.label.call?.map fun call => requests call t.state.backendCalls).getD []

/-- Everything but a call of the backend may raise whatever exception. -/
def BesidesCalls : Env Stmt World Exc := ⟨fun _ _ => True, fun l _ _ => l.call? = none⟩

/-! ### At most one call -/

theorem sentBy_cons (requests : BackendCall → Nat → List (HttpAttempt Nat)) {t : Taken Stmt World Exc}
    {call : BackendCall}
    (hcall : t.label.call? = some call) (h : WorldHistory) :
    sentBy requests (t :: h) = requests call t.state.backendCalls ++ sentBy requests h := by
  simp [sentBy, hcall]

theorem sentBy_once {requests : BackendCall → Nat → List (HttpAttempt Nat)} {p : BackendCall → Bool}
    (hrequests : ∀ call n, p call = false → requests call n = []) {h : WorldHistory}
    (honce : (callsOf h).countP p ≤ 1) :
    sentBy requests h = [] ∨ ∃ call n, p call = true ∧ sentBy requests h = requests call n := by
  have hnone : ∀ h : WorldHistory, (callsOf h).countP p = 0 → sentBy requests h = [] := by
    intro h hzero
    refine List.flatMap_eq_nil_iff.2 fun t ht => ?_
    cases hcall : t.label.call? with
    | none => rfl
    | some call =>
      have hp := List.countP_eq_zero.1 hzero call (List.mem_filterMap.2 ⟨t, ht, hcall⟩)
      exact hrequests call _ (by simpa using hp)
  induction h with
  | nil => exact .inl rfl
  | cons t h ih =>
    cases hcall : t.label.call? with
    | none =>
      have hcalls : callsOf (t :: h) = callsOf h := List.filterMap_cons_none hcall
      have hsent : sentBy requests (t :: h) = sentBy requests h := by simp [sentBy, hcall]
      rw [hcalls] at honce
      rw [hsent]
      exact ih honce
    | some call =>
      have hcalls : callsOf (t :: h) = call :: callsOf h := List.filterMap_cons_some hcall
      rw [hcalls, List.countP_cons] at honce
      rw [sentBy_cons requests hcall]
      cases hp : p call with
      | true =>
        rw [hp, if_pos rfl] at honce
        rw [hnone h (by omega), List.append_nil]
        exact .inr ⟨call, _, hp, rfl⟩
      | false =>
        rw [hrequests call _ hp, List.nil_append]
        exact ih (by omega)

section
variable [PyChars] {E : Env Stmt World Exc} (out : Outside) (worker : JobWorker) (job : Job) {p : BackendCall → Bool}

/-- A plan with one call of the kind. -/
def OnceInPlan (p : BackendCall → Bool) : Prop :=
  (∀ call, call.finds = true → p call = false) ∧ ∀ token groupId date meetingId filename content names members,
    (SubmitTranscript.submitPlan token groupId date meetingId filename content names members).countP p ≤ 1

namespace SubmitTranscript

omit [PyChars] in
theorem countP_callFree {α : Type} {q : M α} (hq : Always (fun l _ => l.call? = none) q) (w : World) :
    Ensures E (fun h _ _ => (callsOf h).countP p = 0) q w :=
  (callFree_ensures hq w).mono fun _ _ _ hnone => by rw [hnone, List.countP_nil]

theorem attempt_once (hp : OnceInPlan p) (w : World) :
    Ensures E (fun h _ _ => (callsOf h).countP p ≤ 1) (attempt out worker job) w := by
  have hfinds : ∀ h : WorldHistory, (∀ call ∈ callsOf h, call.finds = true) → (callsOf h).countP p = 0 :=
    fun h hall => List.countP_eq_zero.2 fun call hcall => by simp [hp.1 call (hall call hcall)]
  refine Ensures.bind (groupsOf_ensures worker.diarisation job w) (fun h₁ found w₁ hfound => ?_)
    fun h₁ e w₁ hfound => ?_
  · have hzero := hfinds h₁ hfound.1
    have hask : Ensures E (fun h _ _ => (callsOf (h₁ ++ h)).countP p ≤ 1)
        (askForGroup out job found.2 "this transcript") w₁ := by
      refine (countP_callFree (p := p) (askForGroup_always covers_callFree out job trivial _ _) w₁).mono
        fun h x w' hcount => ?_
      rw [callsOf_append, List.countP_append, hzero, hcount]
      exact Nat.zero_le _
    cases matchGroup job.groupHint found.2 with
    | noMatch => exact hask
    | ambiguous candidates => exact hask
    | matched group =>
      have hplan : ∀ h, SubmitCalls worker.diarisation group.id h → (callsOf h).countP p ≤ 1 := by
        intro h hcalls
        obtain ⟨token, date, meetingId, filename, content, names, members, hupto, -⟩ := hcalls.plan
        exact (hupto.sublist.countP_le).trans (hp.2 token group.id date meetingId filename content names members)
      refine Ensures.bind (submit_ensures out worker.diarisation job found.1 group w₁) (fun h₂ s w₂ hs => ?_)
        fun h₂ e w₂ hs => ?_
      · have hcomplete := complete_always covers_callFree out job trivial worker.storage group s
        refine (countP_callFree (p := p) hcomplete w₂).mono
          fun h₃ x w' hcount => ?_
        rw [callsOf_append, callsOf_append, List.countP_append, List.countP_append, hzero, hcount, Nat.zero_add,
          Nat.add_zero]
        exact hplan h₂ hs.1
      · rw [callsOf_append, List.countP_append, hzero, Nat.zero_add]
        exact hplan h₂ hs.1
  · rw [hfinds h₁ hfound.1]
    exact Nat.zero_le _

theorem execute_once (hp : OnceInPlan p) (w : World) :
    Ensures E (fun h _ _ => (callsOf h).countP p ≤ 1) (execute out worker job) w := by
  have hfree : ∀ {h h' : WorldHistory}, (callsOf h).countP p = 0 → (callsOf h').countP p ≤ 1 →
      (callsOf (h ++ h')).countP p ≤ 1 := fun hzero hone => by
    rwa [callsOf_append, List.countP_append, hzero, Nat.zero_add]
  refine Ensures.bind (countP_callFree (p := p) (setStatus_always covers_callFree out trivial _ _) w)
    (fun h₁ _ w₁ hzero₁ => ?_) fun h₁ e w₁ hzero => hzero.le.trans (Nat.zero_le _)
  refine Ensures.bind (countP_callFree (p := p) (refreshed_always covers_callFree job trivial worker) w₁)
    (fun h₂ current w₂ hzero₂ => ?_) fun h₂ e w₂ hzero => hfree hzero₁ (hzero.le.trans (Nat.zero_le _))
  cases current with
  | none => exact ensures_raise (hfree hzero₁ (hfree hzero₂ (Nat.zero_le _)))
  | some current =>
    refine Ensures.mono (Q := fun h _ _ => (callsOf h).countP p ≤ 1) ?_ fun h x w' hone =>
      hfree hzero₁ (hfree hzero₂ hone)
    refine Ensures.tryCatch (attempt_once out worker current hp w₂) (fun h _ w' hone => hone) fun h₃ e w₃ hone => ?_
    refine (countP_callFree (p := p) (handleExecuteFailure_always covers_callFree out current trivial worker _) w₃).mono
      fun h₄ x w' hzero => ?_
    rw [callsOf_append, List.countP_append, hzero, Nat.add_zero]
    exact hone

end SubmitTranscript

/-! ### What the backend has applied -/

/-- So many of the requests may be applied: one per attempt, and one more than were applied and repeated. -/
structure AppliedAtMost (limit : Nat) (requests : List (HttpAttempt Nat)) : Prop where
  limit : Retry.applied requests ≤ max 1 limit
  lost : Retry.applied requests ≤ Retry.lost requests + 1

omit [PyChars] in
theorem appliedAtMost_nil (limit : Nat) : AppliedAtMost limit [] := ⟨Nat.zero_le _, Nat.zero_le _⟩

omit [PyChars] in
theorem appliedAtMost_send (limit : Nat) (attempt : Nat → HttpAttempt Nat) :
    AppliedAtMost limit (Retry.send limit attempt).1 :=
  ⟨Retry.applied_le_limit _ limit, Retry.applied_le _ limit⟩

omit [PyChars] in
theorem appliedAtMost_sentBy {limit : Nat} {requests : BackendCall → Nat → List (HttpAttempt Nat)}
    (hrequests : ∀ call n, p call = false → requests call n = [])
    (hsend : ∀ call n, AppliedAtMost limit (requests call n)) {h : WorldHistory} (honce : (callsOf h).countP p ≤ 1) :
    AppliedAtMost limit (sentBy requests h) := by
  rcases sentBy_once hrequests honce with hnil | ⟨call, n, -, hone⟩
  · rw [hnil]
    exact appliedAtMost_nil limit
  · rw [hone]
    exact hsend call n

omit [PyChars] in
theorem onceInPlan_creates : OnceInPlan BackendCall.creates := by
  refine ⟨fun call h => by (cases call <;> first | rfl | cases h), ?_⟩
  intro token groupId date meetingId filename content names members
  have hnone : (members.map (BackendCall.addAttendee token groupId meetingId)).countP BackendCall.creates = 0 := by
    simp [List.countP_eq_zero, BackendCall.creates]
  simp [SubmitTranscript.submitPlan, List.countP_cons, hnone, BackendCall.creates]

omit [PyChars] in
theorem onceInPlan_uploads : OnceInPlan BackendCall.uploads := by
  refine ⟨fun call h => by (cases call <;> first | rfl | cases h), ?_⟩
  intro token groupId date meetingId filename content names members
  have hnone : (members.map (BackendCall.addAttendee token groupId meetingId)).countP BackendCall.uploads = 0 := by
    simp [List.countP_eq_zero, BackendCall.uploads]
  simp [SubmitTranscript.submitPlan, List.countP_cons, hnone, BackendCall.uploads]

/-- **One run creates at most as many meetings as the client may try, and one more, at most, than requests for one were
applied and repeated because their answer was lost; so too with the files that it uploads**, whatever else fails. -/
theorem created_atMost {net : Network} {maxRetryAttempts : Nat} {w w' : World} {h : WorldHistory} {x : Except Exc Unit}
    (hexec : Exec BesidesCalls
      (SubmitTranscript.execute out { worker with diarisation := net.client maxRetryAttempts } job) w h x w') :
    AppliedAtMost maxRetryAttempts (sentBy (net.creating maxRetryAttempts) h) ∧
      AppliedAtMost maxRetryAttempts (sentBy (net.uploading maxRetryAttempts) h) := by
  constructor
  · refine appliedAtMost_sentBy (p := BackendCall.creates) (fun call n hother => ?_) (fun call n => ?_)
      (SubmitTranscript.execute_once out _ job onceInPlan_creates w h x w' hexec)
    · cases call <;> first | rfl | cases hother
    · cases call <;> first | exact appliedAtMost_send _ _ | exact appliedAtMost_nil _
  · refine appliedAtMost_sentBy (p := BackendCall.uploads) (fun call n hother => ?_) (fun call n => ?_)
      (SubmitTranscript.execute_once out _ job onceInPlan_uploads w h x w' hexec)
    · cases call <;> first | rfl | cases hother
    · cases call <;> first | exact appliedAtMost_send _ _ | exact appliedAtMost_nil _

end

/-! ### A lost answer -/

section
attribute [local instance] asciiChars

/-- A network that loses the answers to so many requests for a meeting, and no others. -/
def losing (answers : Nat) : Network where
  login _ _ _ := ⟨true, .answered "token"⟩
  listGroups _ _ _ := ⟨true, .answered [⟨7, "Team A"⟩]⟩
  createMeeting _ k _ _ _ :=
    if k < answers then ⟨true, .transient ⟨.diarisationApiError, "Timeout calling POST /groups/7/meetings/"⟩⟩
    else ⟨true, .answered (k + 1)⟩
  uploadFile _ _ _ _ _ _ _ := ⟨true, .answered 1⟩
  addAttendee _ _ _ _ _ _ := ⟨true, .answered ()⟩
  resolveAliases _ _ _ _ _ := ⟨true, .answered []⟩
  searchTranscripts _ _ _ _ _ := ⟨true, .answered []⟩

def executeOver (net : Network) : M Unit :=
  SubmitTranscript.execute .plain { smallWorker [] with diarisation := net.client 3 } transcriptJob

/-- The history of the run in which nothing else fails. -/
def historyOver (net : Network) : WorldHistory := (play [] (executeOver net) transcriptWorld).1

theorem exec_historyOver (net : Network)
    (hclean : ∀ t ∈ historyOver net, t.fault.isSome = true → t.label.call? = none) :
    Exec BesidesCalls (executeOver net) transcriptWorld (historyOver net)
      (play [] (executeOver net) transcriptWorld).2.1 (play [] (executeOver net) transcriptWorld).2.2 :=
  exec_play (fun _ _ => trivial) [] _ _ fun t ht _ he => hclean t ht (Option.isSome_of_eq_some he)

/-- Where no answer is lost, one meeting is created. -/
theorem created_once : Retry.applied (sentBy ((losing 0).creating 3) (historyOver (losing 0))) ≤ 1 := by
  have hexec := exec_historyOver (losing 0) (by decide +kernel)
  have hlost : Retry.lost (sentBy ((losing 0).creating 3) (historyOver (losing 0))) = 0 := by decide +kernel
  have hatMost : Retry.applied (sentBy ((losing 0).creating 3) (historyOver (losing 0))) ≤
      Retry.lost (sentBy ((losing 0).creating 3) (historyOver (losing 0))) + 1 :=
    (created_atMost .plain (smallWorker []) transcriptJob hexec).1.lost
  rw [hlost] at hatMost
  exact hatMost

/-- The first answer is lost, and the run that completes the job has created two meetings. -/
theorem created_twice : ∃ h w', Exec BesidesCalls (executeOver (losing 1)) transcriptWorld h (.ok ()) w' ∧
    statusOf w' transcriptJob.jobId = some .completed ∧
    Retry.applied (sentBy ((losing 1).creating 3) h) = 2 := by
  have hexec := exec_historyOver (losing 1) (by decide +kernel)
  have hok : (play [] (executeOver (losing 1)) transcriptWorld).2.1 = .ok () := by decide +kernel
  rw [hok] at hexec
  exact ⟨_, _, hexec, by decide +kernel, by decide +kernel⟩

end

end GroupAssessmentAgent
