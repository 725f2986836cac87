import GroupAssessmentAgent.Jobs.Executions

/-!
# What a submission does to the backend

`execute` of `submit_transcript` makes its calls in a fixed order (`submitPlan`), and may stop after any of them. So all
that it writes goes to one group and one meeting (`OneTarget`), and a job that it completes records what was used
(`RecordedIn`), whatever the backend answers and whichever statement fails (`one_target`). An attendee is added for each
label whose alias is known: once per member exactly if no two labels are aliases of one member (`addedOnce_iff`).
-/

namespace GroupAssessmentAgent
open Prog

/-! ### Calls that write -/

namespace BackendCall

/-- The group that a call writes to. -/
def group? : BackendCall → Option Nat
  | createMeeting _ groupId _ => some groupId
  | uploadFile _ groupId _ _ _ => some groupId
  | addAttendee _ groupId _ _ => some groupId
  | _ => none

/-- The meeting that a call writes to. -/
def meeting? : BackendCall → Option Nat
  | uploadFile _ _ meetingId _ _ => some meetingId
  | addAttendee _ _ meetingId _ => some meetingId
  | _ => none

/-- The member that a call adds. -/
def member? : BackendCall → Option Nat
  | addAttendee _ _ _ memberId => some memberId
  | _ => none

def creates : BackendCall → Bool
  | createMeeting .. => true
  | _ => false

def uploads : BackendCall → Bool
  | uploadFile .. => true
  | _ => false

def resolves : BackendCall → Bool
  | resolveAliases .. => true
  | _ => false

/-- The calls that find the groups of a user. -/
def finds : BackendCall → Bool
  | login _ | listGroups _ => true
  | _ => false

theorem group?_of_finds {call : BackendCall} (h : call.finds = true) : call.group? = none := by
  cases call <;> first | rfl | cases h

end BackendCall

namespace DiarisationClient
variable (d : DiarisationClient)

/-- The token that a login of the user gets. -/
def tokenOf (userId : Nat) : BackendCall → Nat → Option Text
  | .login u, n => if u = userId then (d.login n u).toOption else none
  | _, _ => none

def groupsListed (token : Text) : BackendCall → Nat → Option (List GroupSummary)
  | .listGroups t, n => if t = token then (d.listGroups n t).toOption else none
  | _, _ => none

def meetingCreated : BackendCall → Nat → Option Nat
  | .createMeeting token groupId date, n => (d.createMeeting n token groupId date).toOption
  | _, _ => none

def fileUploaded : BackendCall → Nat → Option Nat
  | .uploadFile token groupId meetingId filename content, n =>
    (d.uploadFile n token groupId meetingId filename content).toOption
  | _, _ => none

def aliasesResolved : BackendCall → Nat → Option (List (Text × Option Nat))
  | .resolveAliases token groupId names, n => (d.resolveAliases n token groupId names).toOption
  | _, _ => none

/-- The member that an attendee was added for. -/
def attendeeAdded : BackendCall → Nat → Option Nat
  | .addAttendee token groupId meetingId memberId, n =>
    (d.addAttendee n token groupId meetingId memberId).toOption.map fun _ => memberId
  | _, _ => none

/-- The alias result of a history: one label after another, each with the member it belongs to, if that is known. -/
def aliasResult (h : WorldHistory) : List (Text × Option Nat) := (answersOf d.aliasesResolved h).flatten

end DiarisationClient

/-- The members that attendees were added for. -/
def membersOf (h : WorldHistory) : List Nat := (callsOf h).filterMap BackendCall.member?

section
variable [PyChars]

/-- The only group that the hint admits, or the only group there is. -/
def OnlyAdmitted (hint : Option Text) (groups : List GroupSummary) (group : GroupSummary) : Prop :=
  match truthy hint with
  | some hint => (groups.filter fun g => lower (strip g.name) = lower (strip hint)) = [group]
  | none => groups = [group]

theorem matchGroup_matched {hint : Option Text} {groups : List GroupSummary} {group : GroupSummary} :
    matchGroup hint groups = .matched group ↔ OnlyAdmitted hint groups group := by
  unfold matchGroup OnlyAdmitted
  by_cases hnil : groups = []
  · subst hnil
    cases truthy hint <;> simp
  · rw [if_neg hnil]
    cases truthy hint with
    | none =>
      simp only
      split
      · simp
      · next hne => simpa using hne group
    | some hint =>
      simp only
      split
      · next heq => simp [heq]
      · next heq => simp [heq]
      · next hne _ => simpa using hne group

end

/-! ### The calls of each function -/

section
variable {E : Env Stmt World Exc} (out : Outside)

theorem answersOf_finds {α : Type} {ask : BackendCall → Nat → Option α} {h : WorldHistory}
    (hfinds : ∀ call ∈ callsOf h, call.finds = true) (hask : ∀ call n, call.finds = true → ask call n = none) :
    answersOf ask h = [] :=
  answersOf_eq_nil fun call hcall n => hask call n (hfinds call hcall)

theorem groupsOf_ensures (d : DiarisationClient) (job : Job) (w : World) :
    Ensures E (fun h x _ => (∀ call ∈ callsOf h, call.finds = true) ∧ ∀ found, x = .ok found →
      found.1 ∈ answersOf (d.tokenOf job.backendUserId) h ∧ found.2 ∈ answersOf (d.groupsListed found.1) h)
      (groupsOf d job) w := by
  refine Ensures.bind (callBackend_ensures _ _ w) (fun h token w₁ hlogin => ?_) fun h e w₁ hlogin => ?_
  · obtain ⟨hcalls, hlogin⟩ := hlogin
    obtain ⟨rfl, htoken⟩ := hlogin token rfl
    refine Ensures.bind (callBackend_ensures _ _ w₁) (fun h groups w₂ hlist => ?_) fun h e w₂ hlist => ?_
    · obtain ⟨-, hlist⟩ := hlist
      obtain ⟨rfl, hgroups⟩ := hlist groups rfl
      refine ensures_ret ⟨by simp [callsOf, Stmt.call?, BackendCall.finds], fun found hfound => ?_⟩
      rw [← Except.ok.inj hfound]
      simp [answersOf, Stmt.call?, DiarisationClient.tokenOf, DiarisationClient.groupsListed, htoken, hgroups,
        Except.toOption]
    · refine ⟨?_, fun _ h => by cases h⟩
      rw [callsOf_append, hcalls, hlist.1]
      simp [BackendCall.finds]
  · refine ⟨?_, fun _ h => by cases h⟩
    rw [hlogin.1]
    simp [BackendCall.finds]

namespace SubmitTranscript

/-- The labels of the known aliases, and the others. -/
def attending (aliases : List (Text × Option Nat)) : List Text :=
  (aliases.filter fun entry => entry.2.isSome).map Prod.fst

def notAttending (aliases : List (Text × Option Nat)) : List Text :=
  (aliases.filter fun entry => !entry.2.isSome).map Prod.fst

theorem attending_perm (aliases : List (Text × Option Nat)) :
    (attending aliases ++ notAttending aliases).Perm (aliases.map Prod.fst) := by
  rw [attending, notAttending, ← List.map_append]
  exact (List.filter_append_perm (fun entry => entry.2.isSome) aliases).map Prod.fst

section
variable (d : DiarisationClient) (token : Text) (groupId meetingId : Nat)

/-- The calls for the members in an alias result, in its order; all of them if the loop comes to its end. -/
theorem addAttendees_ensures (aliases : List (Text × Option Nat)) (w : World) :
    Ensures E (fun h x _ => callsOf h <+: (aliases.filterMap Prod.snd).map (.addAttendee token groupId meetingId) ∧
      ∀ found, x = .ok found → found = (attending aliases, notAttending aliases) ∧
        callsOf h = (aliases.filterMap Prod.snd).map (.addAttendee token groupId meetingId))
      (addAttendees d token groupId meetingId aliases) w := by
  induction aliases generalizing w with
  | nil => exact ensures_ret ⟨List.nil_prefix, fun found h => ⟨(Except.ok.inj h).symm, rfl⟩⟩
  | cons entry aliases ih =>
    obtain ⟨name, member⟩ := entry
    cases member with
    | none =>
      refine Ensures.bind (ih w) (fun h found w' hfound => ensures_ret ?_) fun h e w' hfound => ?_
      · obtain ⟨hupto, hfound⟩ := hfound
        obtain ⟨rfl, hcalls⟩ := hfound found rfl
        rw [List.append_nil]
        exact ⟨hupto, fun found h => ⟨by rw [← Except.ok.inj h]; rfl, hcalls⟩⟩
      · exact ⟨hfound.1, fun _ h => by cases h⟩
    | some memberId =>
      refine Ensures.bind (callBackend_ensures _ _ w) (fun h _ w₁ hcall => ?_) fun h e w₁ hcall => ?_
      · refine Ensures.bind (ih w₁) (fun h₁ found w' hfound => ensures_ret ?_) fun h₁ e w' hfound => ?_
        · obtain ⟨hupto, hfound⟩ := hfound
          obtain ⟨rfl, hcalls⟩ := hfound found rfl
          rw [List.append_nil, callsOf_append, hcall.1, hcalls]
          exact ⟨List.prefix_rfl, fun found h => ⟨by rw [← Except.ok.inj h]; rfl, rfl⟩⟩
        · rw [callsOf_append, hcall.1]
          exact ⟨List.prefix_cons_iff.2 (.inr ⟨_, rfl, hfound.1⟩), fun _ h => by cases h⟩
      · rw [hcall.1]
        exact ⟨List.prefix_cons_iff.2 (.inr ⟨[], rfl, List.nil_prefix⟩), fun _ h => by cases h⟩

theorem attendeesOf_ensures (speakers : List Text) (w : World) :
    Ensures E (fun h x _ =>
      (∃ members : List Nat, callsOf h <+:
        .resolveAliases token groupId speakers :: members.map (.addAttendee token groupId meetingId)) ∧
      membersOf h <+: (d.aliasResult h).filterMap Prod.snd ∧ ∀ found, x = .ok found →
        found = (attending (d.aliasResult h), notAttending (d.aliasResult h)) ∧
          membersOf h = (d.aliasResult h).filterMap Prod.snd)
      (attendeesOf d token groupId meetingId speakers) w := by
  unfold attendeesOf
  split_ifs
  · exact ensures_ret ⟨⟨[], List.nil_prefix⟩, List.nil_prefix, fun found h => ⟨(Except.ok.inj h).symm, rfl⟩⟩
  · refine Ensures.bind (callBackend_ensures _ _ w) (fun h aliases w₁ hcall => ?_) fun h e w₁ hcall => ?_
    · obtain ⟨-, hcall⟩ := hcall
      obtain ⟨rfl, haliases⟩ := hcall aliases rfl
      refine (addAttendees_ensures d token groupId meetingId aliases w₁).mono fun h₁ x w' hadded => ?_
      have hmembers : ∀ members : List Nat,
          (members.map (BackendCall.addAttendee token groupId meetingId)).filterMap BackendCall.member? = members := by
        intro members
        simp [List.filterMap_map, Function.comp_def, BackendCall.member?]
      have hnone : answersOf d.aliasesResolved h₁ = [] := answersOf_eq_nil fun call hcall n => by
        obtain ⟨m, -, rfl⟩ := List.mem_map.1 (hadded.1.subset hcall)
        rfl
      have hresult : d.aliasResult (⟨.backend (.resolveAliases token groupId speakers), w, none⟩ :: h₁) = aliases := by
        have hfirst : answersOf d.aliasesResolved [⟨.backend (.resolveAliases token groupId speakers), w, none⟩] =
            [aliases] := by
          simp [answersOf, Stmt.call?, DiarisationClient.aliasesResolved, haliases, Except.toOption]
        rw [DiarisationClient.aliasResult, ← List.singleton_append, answersOf_append, hfirst, hnone]
        simp
      rw [List.singleton_append, hresult]
      refine ⟨⟨_, List.prefix_cons_iff.2 (.inr ⟨_, rfl, hadded.1⟩)⟩, ?_, fun found hfound => ?_⟩
      · have hadds := hadded.1.filterMap BackendCall.member?
        rwa [hmembers] at hadds
      · obtain ⟨hclassified, hcalls⟩ := hadded.2 found hfound
        refine ⟨hclassified, ?_⟩
        have hadds := congrArg (List.filterMap BackendCall.member?) hcalls
        rwa [hmembers] at hadds
    · refine ⟨⟨[], ?_⟩, ?_, fun _ h => by cases h⟩
      · rw [hcall.1]
        exact List.prefix_rfl
      · rw [membersOf, hcall.1]
        exact List.nil_prefix

end

/-- The calls of a submission, in their order. -/
def submitPlan (token : Text) (groupId : Nat) (date : Datetime) (meetingId : Nat) (filename : Option Text)
    (content : Bytes) (names : List Text) (members : List Nat) : List BackendCall :=
  .createMeeting token groupId date :: .uploadFile token groupId meetingId filename content ::
    .resolveAliases token groupId names :: members.map (.addAttendee token groupId meetingId)

/-- The calls up to any point of the plan, in the meeting that the first of them has created. -/
structure SubmitCalls (d : DiarisationClient) (groupId : Nat) (h : WorldHistory) : Prop where
  plan : ∃ token date meetingId filename content names members,
    callsOf h <+: submitPlan token groupId date meetingId filename content names members ∧
      ((callsOf h).length ≤ 1 ∨ answersOf d.meetingCreated h = [meetingId])
  members : membersOf h <+: (d.aliasResult h).filterMap Prod.snd

/-- What a submission answers, by its history. -/
structure SubmittedBy (d : DiarisationClient) (h : WorldHistory) (s : Submitted) : Prop where
  meeting : answersOf d.meetingCreated h = [s.meetingId]
  file : answersOf d.fileUploaded h = [s.rawFileId]
  resolved : s.resolvedAttendees = attending (d.aliasResult h)
  unresolved : s.unresolvedSpeakers = notAttending (d.aliasResult h)
  members : membersOf h = (d.aliasResult h).filterMap Prod.snd

theorem SubmitCalls.of_create {d : DiarisationClient} {groupId : Nat} {h : WorldHistory} (token : Text)
    (date : Datetime) (hcalls : callsOf h = [] ∨ callsOf h = [.createMeeting token groupId date]) :
    SubmitCalls d groupId h := by
  refine ⟨⟨token, date, 0, none, [], [], [], ?_, .inl ?_⟩, ?_⟩
  · rcases hcalls with hcalls | hcalls <;> rw [hcalls]
    · exact List.nil_prefix
    · exact List.prefix_cons_iff.2 (.inr ⟨[], rfl, List.nil_prefix⟩)
  · rcases hcalls with hcalls | hcalls <;> simp [hcalls]
  · rw [membersOf]
    rcases hcalls with hcalls | hcalls <;> rw [hcalls] <;> exact List.nil_prefix

/-- A created meeting, an upload into it, and what the loop over the speakers adds: what the whole history says. -/
theorem SubmitCalls.of_upload {d : DiarisationClient} {groupId : Nat} {token : Text} {date : Datetime} {meetingId : Nat}
    {filename : Option Text} {content : Bytes} {names : List Text} {members : List Nat}
    {created between uploaded rest : WorldHistory} (hcreate : callsOf created = [.createMeeting token groupId date])
    (hmeeting : answersOf d.meetingCreated created = [meetingId]) (hbetween : callsOf between = [])
    (hupload : callsOf uploaded = [.uploadFile token groupId meetingId filename content])
    (hrest : callsOf rest <+: .resolveAliases token groupId names :: members.map (.addAttendee token groupId meetingId))
    (hmembers : membersOf rest <+: (d.aliasResult rest).filterMap Prod.snd) {h : WorldHistory}
    (hh : h = created ++ (between ++ (uploaded ++ rest))) :
    SubmitCalls d groupId h ∧ answersOf d.meetingCreated h = [meetingId] ∧
      answersOf d.fileUploaded h = answersOf d.fileUploaded uploaded ∧ d.aliasResult h = d.aliasResult rest ∧
      membersOf h = membersOf rest := by
  have hcalls : callsOf h = .createMeeting token groupId date ::
      .uploadFile token groupId meetingId filename content :: callsOf rest := by
    rw [hh, callsOf_append, callsOf_append, callsOf_append, hcreate, hbetween, hupload]
    rfl
  have hloop : ∀ call ∈ callsOf rest, (∀ n, d.meetingCreated call n = none) ∧ ∀ n, d.fileUploaded call n = none := by
    intro call hcall
    rcases List.mem_cons.1 (hrest.subset hcall) with rfl | hcall
    · exact ⟨fun _ => rfl, fun _ => rfl⟩
    · obtain ⟨m, -, rfl⟩ := List.mem_map.1 hcall
      exact ⟨fun _ => rfl, fun _ => rfl⟩
  have hsplit : ∀ {α : Type} (ask : BackendCall → Nat → Option α),
      answersOf ask h = answersOf ask created ++ (answersOf ask uploaded ++ answersOf ask rest) := by
    intro α ask
    rw [hh, answersOf_append, answersOf_append, answersOf_append, answersOf_nil_calls hbetween, List.nil_append]
  have hsingle : ∀ {α : Type} (ask : BackendCall → Nat → Option α) {part : WorldHistory} {call : BackendCall},
      callsOf part = [call] → (∀ n, ask call n = none) → answersOf ask part = [] := by
    intro α ask part call hpart hnone
    refine answersOf_eq_nil fun call' hcall' => ?_
    rw [hpart, List.mem_singleton] at hcall'
    rw [hcall']
    exact hnone
  have hmeetings : answersOf d.meetingCreated h = [meetingId] := by
    rw [hsplit, hmeeting, hsingle _ hupload fun _ => rfl, answersOf_eq_nil fun call hcall => (hloop call hcall).1]
    rfl
  have haliases : d.aliasResult h = d.aliasResult rest := by
    rw [DiarisationClient.aliasResult, hsplit, hsingle _ hcreate fun _ => rfl, hsingle _ hupload fun _ => rfl]
    rfl
  have hadded : membersOf h = membersOf rest := by
    rw [membersOf, hcalls]
    rfl
  refine ⟨⟨⟨token, date, meetingId, filename, content, names, members, ?_, .inr hmeetings⟩, ?_⟩, hmeetings, ?_,
    haliases, hadded⟩
  · rw [hcalls]
    exact List.prefix_cons_iff.2 (.inr ⟨_, rfl, List.prefix_cons_iff.2 (.inr ⟨_, rfl, hrest⟩)⟩)
  · rw [hadded, haliases]
    exact hmembers
  · rw [hsplit, hsingle _ hcreate fun _ => rfl, answersOf_eq_nil fun call hcall => (hloop call hcall).2,
      List.nil_append,
      List.append_nil]

theorem submit_ensures (d : DiarisationClient) (job : Job) (token : Text) (group : GroupSummary) (w : World) :
    Ensures E (fun h x _ => SubmitCalls d group.id h ∧ ∀ s, x = .ok s → SubmittedBy d h s)
      (submit out d job token group) w := by
  refine Ensures.bind (M := fun h _ _ => h = []) (ensures_ofExcept rfl) (fun _ date w₀ h₀ => ?_) fun _ e w₀ h₀ => ?_
  · subst h₀
    refine Ensures.bind (callBackend_ensures _ _ w₀) (fun created meetingId w₁ hcreate => ?_)
      fun created e w₁ hcreate =>
      ⟨.of_create token date (.inr hcreate.1), fun _ h => by cases h⟩
    have hmeeting : answersOf d.meetingCreated created = [meetingId] := by
      obtain ⟨rfl, hmeeting⟩ := hcreate.2 meetingId rfl
      simp [answersOf, Stmt.call?, DiarisationClient.meetingCreated, hmeeting, Except.toOption]
    refine Ensures.bind (callFree_ensures (storedContent_always rfl job) w₁) (fun between content w₂ hnone => ?_)
      fun between e w₂ hnone => ⟨.of_create token date (.inr ?_), fun _ h => by cases h⟩
    · refine Ensures.bind (callBackend_ensures _ _ w₂) (fun uploaded fileId w₃ hupload => ?_)
        fun uploaded e w₃ hupload => ?_
      · have hfile : answersOf d.fileUploaded uploaded = [fileId] := by
          obtain ⟨rfl, hfile⟩ := hupload.2 fileId rfl
          simp [answersOf, Stmt.call?, DiarisationClient.fileUploaded, hfile, Except.toOption]
        refine Ensures.bind (attendeesOf_ensures d token group.id meetingId job.speakers w₃)
          (fun rest found w₄ hloop => ensures_ret ?_) fun rest e w₄ hloop => ?_
        · obtain ⟨⟨members, hcalls⟩, hmembers, hfound⟩ := hloop
          obtain ⟨rfl, hall⟩ := hfound found rfl
          obtain ⟨hplan, hmeetings, hfiles, haliases, hadded⟩ :=
            SubmitCalls.of_upload hcreate.1 hmeeting hnone hupload.1
            hcalls hmembers (h := [] ++ (created ++ (between ++ (uploaded ++ (rest ++ []))))) (by simp)
          refine ⟨hplan, fun s hs => ?_⟩
          rw [← Except.ok.inj hs]
          exact ⟨hmeetings, hfiles.trans hfile, by rw [haliases], by rw [haliases], by rw [haliases, hadded, hall]⟩
        · obtain ⟨⟨members, hcalls⟩, hmembers, -⟩ := hloop
          exact ⟨(SubmitCalls.of_upload hcreate.1 hmeeting hnone hupload.1 hcalls hmembers rfl).1,
            fun _ h => by cases h⟩
      · have hrest : callsOf [] <+: .resolveAliases token group.id [] ::
            ([] : List Nat).map (.addAttendee token group.id meetingId) := List.nil_prefix
        have hcalls := SubmitCalls.of_upload hcreate.1 hmeeting hnone hupload.1 hrest List.nil_prefix
          (h := [] ++ (created ++ (between ++ uploaded))) (by simp)
        exact ⟨hcalls.1, fun _ h => by cases h⟩
    · rw [List.nil_append, callsOf_append, hcreate.1, hnone]
      rfl
  · subst h₀
    exact ⟨.of_create token [] (.inl rfl), fun _ h => by cases h⟩

theorem SubmitCalls.once {d : DiarisationClient} {groupId : Nat} {h : WorldHistory} (H : SubmitCalls d groupId h) :
    (answersOf d.aliasesResolved h).length ≤ 1 := by
  obtain ⟨token, date, meetingId, filename, content, names, members, hplan, -⟩ := H.plan
  have hresolves := (hplan.filter BackendCall.resolves).length_le
  have hnone : (members.map (BackendCall.addAttendee token groupId meetingId)).filter BackendCall.resolves = [] := by
    simp [List.filter_eq_nil_iff, BackendCall.resolves]
  rw [submitPlan, List.filter_cons_of_neg (by simp [BackendCall.resolves]),
    List.filter_cons_of_neg (by simp [BackendCall.resolves]), List.filter_cons_of_pos rfl, hnone] at hresolves
  refine (answersOf_length_le (fun call n hcall => ?_) h).trans hresolves
  cases call <;> first | rfl | cases hcall

theorem SubmitCalls.group {d : DiarisationClient} {groupId : Nat} {h : WorldHistory} (H : SubmitCalls d groupId h) :
    ∀ call ∈ callsOf h, ∀ g, call.group? = some g → g = groupId := by
  obtain ⟨token, date, meetingId, filename, content, names, members, hplan, -⟩ := H.plan
  intro call hcall g hg
  rcases List.mem_cons.1 (hplan.subset hcall) with rfl | hcall
  · exact (Option.some.inj hg).symm
  rcases List.mem_cons.1 hcall with rfl | hcall
  · exact (Option.some.inj hg).symm
  rcases List.mem_cons.1 hcall with rfl | hcall
  · cases hg
  · obtain ⟨m, -, rfl⟩ := List.mem_map.1 hcall
    exact (Option.some.inj hg).symm

theorem SubmitCalls.meeting {d : DiarisationClient} {groupId : Nat} {h : WorldHistory} (H : SubmitCalls d groupId h) :
    ∀ call ∈ callsOf h, ∀ m, call.meeting? = some m → answersOf d.meetingCreated h = [m] := by
  obtain ⟨token, date, meetingId, filename, content, names, members, hplan, hmeeting⟩ := H.plan
  intro call hcall m hm
  have hwhere : m = meetingId := by
    rcases List.mem_cons.1 (hplan.subset hcall) with rfl | hcall
    · cases hm
    rcases List.mem_cons.1 hcall with rfl | hcall
    · exact (Option.some.inj hm).symm
    rcases List.mem_cons.1 hcall with rfl | hcall
    · cases hm
    · obtain ⟨_, -, rfl⟩ := List.mem_map.1 hcall
      exact (Option.some.inj hm).symm
  rcases hmeeting with hshort | hmeeting
  · -- the first call creates the meeting
    obtain ⟨rest, hrest⟩ := hplan
    obtain ⟨first, hfirst⟩ := List.length_eq_one_iff.1 (Nat.le_antisymm hshort (List.length_pos_of_mem hcall))
    rw [hfirst, List.mem_singleton] at hcall
    rw [hfirst, submitPlan, List.singleton_append] at hrest
    obtain ⟨rfl, -⟩ := List.cons_eq_cons.1 hrest
    subst hcall
    cases hm
  · rw [hmeeting, hwhere]

end SubmitTranscript

/-! ### One run -/

/-- All that a run writes to the backend, it writes to this group of the job's user, and to the one meeting that it has
created there. Attendees are added in the order of one alias result. -/
structure OneTarget [PyChars] (d : DiarisationClient) (job : Job) (h : WorldHistory) (group : GroupSummary) : Prop where
  admitted : ∃ token groups, token ∈ answersOf (d.tokenOf job.backendUserId) h ∧
    groups ∈ answersOf (d.groupsListed token) h ∧ OnlyAdmitted job.groupHint groups group
  group : ∀ call ∈ callsOf h, ∀ groupId, call.group? = some groupId → groupId = group.id
  meeting : ∀ call ∈ callsOf h, ∀ meetingId, call.meeting? = some meetingId →
    answersOf d.meetingCreated h = [meetingId]
  once : (answersOf d.aliasesResolved h).length ≤ 1
  members : membersOf h <+: (d.aliasResult h).filterMap Prod.snd

/-- The row names the group, the meeting and the file that the run used, it divides the labels of the alias result, and
the run has added an attendee for each member of a label that has one. -/
structure RecordedIn (d : DiarisationClient) (h : WorldHistory) (group : GroupSummary) (row : Job) : Prop where
  group : row.resolvedGroupId = some group.id ∧ row.resolvedGroupName = some group.name
  meeting : ∃ meetingId, answersOf d.meetingCreated h = [meetingId] ∧ row.backendMeetingId = some meetingId
  file : ∃ fileId, answersOf d.fileUploaded h = [fileId] ∧ row.backendRawFileId = some fileId
  labels : (row.resolvedAttendees ++ row.unresolvedSpeakers).Perm ((d.aliasResult h).map Prod.fst)
  attendees : row.resolvedAttendees = SubmitTranscript.attending (d.aliasResult h)
  members : membersOf h = (d.aliasResult h).filterMap Prod.snd

/-- A submission, after the calls that find the groups. -/
structure Within (d : DiarisationClient) (before h h' : WorldHistory) : Prop where
  calls : callsOf h' = callsOf before ++ callsOf h
  finds : ∀ call ∈ callsOf before, call.finds = true
  found : ∀ {α : Type} (ask : BackendCall → Nat → Option α) (a : α), a ∈ answersOf ask before → a ∈ answersOf ask h'
  answers : ∀ {α : Type} (ask : BackendCall → Nat → Option α), (∀ call n, call.finds = true → ask call n = none) →
    answersOf ask h' = answersOf ask h

theorem finds_within {d : DiarisationClient} {before after : WorldHistory}
    (hfinds : ∀ call ∈ callsOf before, call.finds = true) (hafter : callsOf after = []) (h : WorldHistory) :
    Within d before h (before ++ (h ++ after)) where
  calls := by rw [callsOf_append, callsOf_append, hafter, List.append_nil]
  finds := hfinds
  found ask a ha := by
    rw [answersOf_append]
    exact List.mem_append_left _ ha
  answers ask hask := by
    rw [answersOf_append, answersOf_append, answersOf_finds hfinds hask, answersOf_nil_calls hafter, List.nil_append,
      List.append_nil]

namespace Within
variable {d : DiarisationClient} {job : Job} {before h h' : WorldHistory} {group : GroupSummary}

theorem meetings (hin : Within d before h h') : answersOf d.meetingCreated h' = answersOf d.meetingCreated h :=
  hin.answers _ fun call n hfinds => by cases call <;> first | rfl | cases hfinds

theorem files (hin : Within d before h h') : answersOf d.fileUploaded h' = answersOf d.fileUploaded h :=
  hin.answers _ fun call n hfinds => by cases call <;> first | rfl | cases hfinds

theorem resolved (hin : Within d before h h') : answersOf d.aliasesResolved h' = answersOf d.aliasesResolved h :=
  hin.answers _ fun call n hfinds => by cases call <;> first | rfl | cases hfinds

theorem aliases (hin : Within d before h h') : d.aliasResult h' = d.aliasResult h :=
  congrArg List.flatten hin.resolved

theorem members (hin : Within d before h h') : membersOf h' = membersOf h := by
  have hnone : (callsOf before).filterMap BackendCall.member? = [] := List.filterMap_eq_nil_iff.2 fun call hcall => by
    have hfinds := hin.finds call hcall
    cases call <;> first | rfl | cases hfinds
  rw [membersOf, hin.calls, List.filterMap_append, hnone, List.nil_append, membersOf]

theorem mem_of_group (hin : Within d before h h') {call : BackendCall} (hcall : call ∈ callsOf h')
    (hwrites : call.finds = false) : call ∈ callsOf h := by
  rw [hin.calls] at hcall
  rcases List.mem_append.1 hcall with hcall | hcall
  · rw [hin.finds call hcall] at hwrites
    cases hwrites
  · exact hcall

theorem target [PyChars] (hin : Within d before h h') {token : Text} {groups : List GroupSummary}
    (htoken : token ∈ answersOf (d.tokenOf job.backendUserId) before)
    (hgroups : groups ∈ answersOf (d.groupsListed token) before) (hadmitted : OnlyAdmitted job.groupHint groups group)
    (hplan : SubmitTranscript.SubmitCalls d group.id h) : OneTarget d job h' group where
  admitted := ⟨token, groups, hin.found _ _ htoken, hin.found _ _ hgroups, hadmitted⟩
  group call hcall groupId hgroup := by
    refine hplan.group call (hin.mem_of_group hcall ?_) groupId hgroup
    cases call <;> first | rfl | cases hgroup
  meeting call hcall meetingId hmeeting := by
    rw [hin.meetings]
    refine hplan.meeting call (hin.mem_of_group hcall ?_) meetingId hmeeting
    cases call <;> first | rfl | cases hmeeting
  once := hin.resolved ▸ hplan.once
  members := by
    rw [hin.members, hin.aliases]
    exact hplan.members

theorem recorded (hin : Within d before h h') {j : Job} (hj : RecordedIn d h group j) : RecordedIn d h' group j := by
  obtain ⟨hgroup, hmeeting, hfile, hlabels, hattendees, hmembers⟩ := hj
  exact ⟨hgroup, hin.meetings ▸ hmeeting, hin.files ▸ hfile, hin.aliases ▸ hlabels, hin.aliases ▸ hattendees,
    by rw [hin.members, hin.aliases, hmembers]⟩

end Within

section
variable [PyChars]

/-- How a run ends: without a group and without a completed job, or with one target for all it has written. -/
def EndsAt (d : DiarisationClient) (job : Job) (h : WorldHistory) (w' : World) : Prop :=
  ((∀ call ∈ callsOf h, call.finds = true) ∧ RowHas job.jobId (fun j => j.status ≠ .completed) w') ∨
    ∃ group, OneTarget d job h group ∧
      RowHas job.jobId (fun j => j.status = .completed → RecordedIn d h group j) w'

theorem EndsAt.congr {d : DiarisationClient} {job job' : Job} {h h' : WorldHistory} {w' : World}
    (hends : EndsAt d job h w') (hcalls : SameCalls h' h) (hid : job'.jobId = job.jobId)
    (huser : job'.backendUserId = job.backendUserId) (hhint : job'.groupHint = job.groupHint) :
    EndsAt d job' h' w' := by
  have hmembers : membersOf h' = membersOf h := by rw [membersOf, hcalls.calls, membersOf]
  have haliases : d.aliasResult h' = d.aliasResult h := by
    rw [DiarisationClient.aliasResult, hcalls.answers, DiarisationClient.aliasResult]
  rcases hends with ⟨hfinds, hrow⟩ |
    ⟨group, ⟨⟨token, groups, htoken, hgroups, hadmitted⟩, hgroup, hmeeting, honce, hadded⟩, hrow⟩
  · refine .inl ⟨?_, hid ▸ hrow⟩
    rw [hcalls.calls]
    exact hfinds
  · refine .inr ⟨group, ⟨⟨token, groups, ?_, ?_, hhint ▸ hadmitted⟩, ?_, ?_, hcalls.answers _ ▸ honce, ?_⟩, ?_⟩
    · rw [hcalls.answers, huser]
      exact htoken
    · rw [hcalls.answers]
      exact hgroups
    · rw [hcalls.calls]
      exact hgroup
    · rw [hcalls.calls, hcalls.answers]
      exact hmeeting
    · rw [hmembers, haliases]
      exact hadded
    · rw [hid]
      refine hrow.mono fun j hj hdone => ?_
      obtain ⟨hgroup, hmeeting, hfile, hlabels, hattendees, hadded⟩ := hj hdone
      exact ⟨hgroup, hcalls.answers _ ▸ hmeeting, hcalls.answers _ ▸ hfile, haliases ▸ hlabels, haliases ▸ hattendees,
        by rw [hmembers, haliases, hadded]⟩

/-- What happens to the row afterwards does not complete the job, and keeps the columns of a completed one. -/
theorem EndsAt.later {d : DiarisationClient} {job : Job} {h : WorldHistory} {w w' : World} (hends : EndsAt d job h w)
    (hlater : ∀ cols : Job → Prop, (∀ j path, cols j → cols { j with attachmentStoragePath := path }) →
      RowHas job.jobId (fun j => j.status = .completed → cols j) w →
      RowHas job.jobId (fun j => j.status = .completed → cols j) w') : EndsAt d job h w' := by
  rcases hends with ⟨hfinds, hrow⟩ | ⟨group, htarget, hrow⟩
  · exact .inl ⟨hfinds, hlater (fun _ => False) (fun _ _ h => h) hrow⟩
  · refine .inr ⟨group, htarget, hlater _ (fun j path hj => ?_) hrow⟩
    exact ⟨hj.group, hj.meeting, hj.file, hj.labels, hj.attendees, hj.members⟩

namespace SubmitTranscript
variable (worker : JobWorker) (job : Job)

/-- The columns that `execute` writes once the transcript is submitted. -/
def Holds (group : GroupSummary) (s : Submitted) (j : Job) : Prop :=
  j.resolvedGroupId = some group.id ∧ j.resolvedGroupName = some group.name ∧ j.backendMeetingId = some s.meetingId ∧
    j.backendRawFileId = some s.rawFileId ∧ j.resolvedAttendees = s.resolvedAttendees ∧
    j.unresolvedSpeakers = s.unresolvedSpeakers

omit [PyChars] in
theorem Holds.recorded {d : DiarisationClient} {h : WorldHistory} {group : GroupSummary} {s : Submitted} {j : Job}
    (hs : SubmittedBy d h s) (hj : Holds group s j) : RecordedIn d h group j := by
  obtain ⟨hid, hname, hmeeting, hfile, hresolved, hunresolved⟩ := hj
  refine ⟨⟨hid, hname⟩, ⟨_, hs.meeting, hmeeting⟩, ⟨_, hs.file, hfile⟩, ?_, hresolved.trans hs.resolved, hs.members⟩
  rw [hresolved, hunresolved, hs.resolved, hs.unresolved]
  exact attending_perm _

omit [PyChars] in
theorem complete_ensures (storage : StorageSettings) (group : GroupSummary) (s : Submitted) {w : World}
    (hw : RowHas job.jobId (fun j => j.status ≠ .completed) w) :
    Ensures E (fun h _ w' => RowHas job.jobId (fun j => j.status = .completed → Holds group s j) w' ∧ callsOf h = [])
      (complete out storage job group s) w := by
  refine Ensures.and ?_ (callFree_ensures (complete_always covers_callFree out job trivial storage group s) w)
  refine Ensures.bind (update_ensures job.jobId (List.cons_ne_nil _ _) w) (fun _ _ w₁ hw₁ => ?_) fun _ e w₁ hw₁ => ?_
  · rcases hw₁ with ⟨hw₁, -⟩ | ⟨-, _, h, -⟩
    · have hheld : RowHas job.jobId (fun j => j.status ≠ .completed ∧ Holds group s j) w₁ := by
        rw [hw₁]
        refine hw.writeJob fun j hj => ⟨?_, rfl, rfl, rfl, rfl, rfl, rfl⟩
        simpa only [Job.unstamped_status, Job.setAll_status] using hj
      refine Ensures.bind (setStatus_ensures out job.jobId .completed [] w₁) (fun _ _ w₂ hw₂ => ?_) fun _ e w₂ hw₂ => ?_
      · rcases hw₂.row (Q := Holds group s) hheld fun j hj => hj.2 with ⟨-, hw₂⟩ | ⟨_, h, -⟩
        · have hpath : IgnoresPath (Holds group s) := fun _ _ hj => hj
          refine Ensures.bind (moveStored_ensures hpath job storage.completed hw₂) (fun _ _ w₃ hw₃ => ?_)
            fun _ _ _ hw₃ =>
            hw₃.mono fun _ hj _ => hj
          exact (jobsKept_ensures (mail_always covers_jobsKept out _ _ _ _) w₃).mono fun _ _ _ hjobs =>
            (hw₃.congr hjobs).mono fun _ hj _ => hj
        · cases h
      · rcases hw₂.row (Q := Holds group s) hheld fun j hj => hj.2 with ⟨h, -⟩ | ⟨_, -, hw₂⟩
        · cases h
        · exact hw₂.mono fun _ hj hdone => absurd hdone hj.1
    · cases h
  · rcases hw₁ with ⟨-, h, -⟩ | ⟨rfl, -⟩
    · cases h
    · exact hw.mono fun _ hj hdone => absurd hdone hj

omit [PyChars] in
theorem ask_ensures (groups : List GroupSummary) (subject : Text) {w : World}
    (hw : RowHas job.jobId (fun j => j.status ≠ .completed) w) :
    Ensures E (fun h _ w' => RowHas job.jobId (fun j => j.status ≠ .completed) w' ∧ callsOf h = [])
      (askForGroup out job groups subject) w := by
  refine Ensures.and ?_ (callFree_ensures (askForGroup_always covers_callFree out job trivial groups subject) w)
  have hasked : ∀ {h x w'}, StatusSet E job.jobId .needsClarification [] w h x w' →
      RowHas job.jobId (fun j => j.status ≠ .completed) w' := by
    intro h x w' hset
    rcases hset.row (Q := fun j => j.status ≠ .completed) hw fun _ _ => JobState.noConfusion with ⟨-, h⟩ | ⟨_, -, h⟩
    · exact h
    · exact h
  refine Ensures.bind (setStatus_ensures out job.jobId .needsClarification [] w) (fun _ _ w₁ hw₁ => ?_)
    fun _ _ _ hw₁ => hasked hw₁
  refine (jobsKept_ensures ?_ w₁).mono fun _ _ _ hjobs => (hasked hw₁).congr hjobs
  -- `put` writes no job, whatever the id
  refine Always.bind (Always.bind (utcnow_always covers_jobsKept out) fun _ => always_change fun _ => rfl) fun _ => ?_
  exact mail_always covers_jobsKept out _ _ _ _

theorem attempt_ensures {w : World} (hw : RowHas job.jobId (fun j => j.status ≠ .completed) w) :
    Ensures E (fun h _ w' => EndsAt worker.diarisation job h w') (attempt out worker job) w := by
  have hgroups := (groupsOf_ensures (E := E) worker.diarisation job w).and
    (jobsKept_ensures (groupsOf_always coversCalls_jobsKept worker.diarisation job) w)
  refine Ensures.bind hgroups (fun h₁ found w₁ hfound => ?_) fun h₁ e w₁ hfound =>
    .inl ⟨hfound.1.1, hw.congr hfound.2⟩
  obtain ⟨⟨hfinds, hfound⟩, hjobs⟩ := hfound
  obtain ⟨htoken, hlisted⟩ := hfound found rfl
  have hw₁ : RowHas job.jobId (fun j => j.status ≠ .completed) w₁ := hw.congr hjobs
  have hask : Ensures E (fun h _ w' => EndsAt worker.diarisation job (h₁ ++ h) w')
      (askForGroup out job found.2 "this transcript") w₁ := by
    refine (ask_ensures out job found.2 _ hw₁).mono fun h x w' hasked => .inl ⟨?_, hasked.1⟩
    rw [callsOf_append, hasked.2, List.append_nil]
    exact hfinds
  cases hmatch : matchGroup job.groupHint found.2 with
  | noMatch => exact hask
  | ambiguous candidates => exact hask
  | matched group =>
    have hadmitted := matchGroup_matched.1 hmatch
    have hsubmit := (submit_ensures (E := E) out worker.diarisation job found.1 group w₁).and
      (jobsKept_ensures (submit_always coversCalls_jobsKept out (fun _ => rfl) worker.diarisation job found.1 group) w₁)
    refine Ensures.bind hsubmit (fun h₂ s w₂ hs => ?_) fun h₂ e w₂ hs => ?_
    · obtain ⟨⟨hplan, hs⟩, hjobs⟩ := hs
      refine (complete_ensures out job worker.storage group s (hw₁.congr hjobs)).mono fun h₃ x w' hdone => ?_
      have hwithin := finds_within (d := worker.diarisation) hfinds hdone.2 h₂
      refine .inr ⟨group, hwithin.target htoken hlisted hadmitted hplan, hdone.1.mono fun j hj hcompleted => ?_⟩
      exact hwithin.recorded ((hj hcompleted).recorded (hs s rfl))
    · have hwithin := finds_within (d := worker.diarisation) hfinds callsOf_nil h₂
      rw [List.append_nil] at hwithin
      exact .inr ⟨group, hwithin.target htoken hlisted hadmitted hs.1.1,
        (hw₁.congr hs.2).mono fun j hj hcompleted => absurd hcompleted hj⟩

omit [PyChars] in
theorem handleExecuteFailure_ensures {cols : Job → Prop} (hcols : IgnoresPath cols) (reason : Text) {w : World}
    (hw : RowHas job.jobId (fun j => j.status = .completed → cols j) w) :
    Ensures E (fun _ _ w' => RowHas job.jobId (fun j => j.status = .completed → cols j) w')
      (handleExecuteFailure out worker job reason) w := by
  have hpath : IgnoresPath fun j => j.status = .completed → cols j := fun j path hj hdone => hcols j path (hj hdone)
  have hfailed : ∀ {h x w'}, StatusSet E job.jobId .failed [.error (some reason)] w h x w' →
      RowHas job.jobId (fun j => j.status = .completed → cols j) w' := by
    intro h x w' hset
    have hset := hset.row (Q := fun j => j.status = .completed → cols j) hw fun j _ hdone => by
      simp only [Job.unstamped_status, Job.setAll_status, reduceCtorEq] at hdone
    rcases hset with ⟨-, h⟩ | ⟨_, -, h⟩
    · exact h
    · exact h
  refine Ensures.bind (setStatus_ensures out job.jobId .failed _ w) (fun _ _ w₁ hw₁ => ?_) fun _ _ _ hw₁ => hfailed hw₁
  refine Ensures.bind (moveFailedFile_ensures hpath worker.storage job (hfailed hw₁)) (fun _ _ w₂ hw₂ => ?_)
    fun _ _ _ hw₂ => hw₂
  exact (jobsKept_ensures (reportFailure_always covers_jobsKept out _ _ _ _ _ _) w₂).mono fun _ _ _ => hw₂.congr

omit [PyChars] in
theorem refreshed_ensures {φ : Job → Prop} (hφ : IgnoresPath φ) {w : World} (hw : RowHas job.jobId φ w) :
    Ensures E (fun h x w' => (RowHas job.jobId φ w' ∧ ∀ row, x = .ok (some row) →
        row = job ∨ φ row.unstamped ∧ row.jobId = job.jobId) ∧ callsOf h = [])
      (refreshed worker job) w := by
  refine Ensures.and ?_ (callFree_ensures (refreshed_always covers_callFree job trivial worker) w)
  unfold refreshed
  cases truthy job.attachmentStoragePath with
  | none => exact ensures_ret ⟨hw, fun row h => .inl (Option.some.inj (Except.ok.inj h)).symm⟩
  | some path =>
    show Ensures E _ (Prog.bind (moveTo path worker.storage.processing) fun moved =>
      Prog.bind (JobStore.update job.jobId [.attachmentStoragePath (some moved)]) fun _ => JobStore.get job.jobId) w
    rw [← Prog.bind_assoc]
    refine Ensures.bind (moved_ensures hφ path _ hw) (fun _ _ w₁ hw₁ => ?_)
      fun _ _ _ hw₁ => ⟨hw₁, fun _ h => by cases h⟩
    refine ensures_observe ⟨hw₁, fun row h => .inr ?_⟩ fun _ _ => ⟨hw₁, fun _ h => by cases h⟩
    have hfind := Except.ok.inj h
    exact ⟨hw₁ row hfind, Table.find?_key hfind⟩

/-- The row of the job, if it is there, has the job's user and the job's hint. -/
def Current (w : World) (job : Job) : Prop :=
  RowHas job.jobId (fun row => row.backendUserId = job.backendUserId ∧ row.groupHint = job.groupHint) w

theorem guarded_ensures {w : World} (hw : RowHas job.jobId (fun j => j.status ≠ .completed) w) :
    Ensures E (fun h _ w' => EndsAt worker.diarisation job h w')
      (Prog.tryCatch (attempt out worker job) fun e => handleExecuteFailure out worker job (failureReason e)) w := by
  refine Ensures.tryCatch (attempt_ensures out worker job hw) (fun _ _ _ hends => hends) fun h₁ e w₁ hends => ?_
  intro h₂ x w₂ hexec
  have hfree := callFree_ensures
    (handleExecuteFailure_always covers_callFree out job trivial worker (failureReason e)) _ _ _ _ hexec
  have hcalls : SameCalls (h₁ ++ h₂) h₁ := sameCalls_within callsOf_nil hfree h₁
  refine (hends.later fun cols hcols hrow => ?_).congr hcalls rfl rfl rfl
  exact handleExecuteFailure_ensures out worker job hcols _ hrow _ _ _ hexec

/-- A run is refused at its start, or it is one of a job with the same user and hint. -/
theorem execute_ensures {P : Job → Prop} (hP : ∀ j j' : Job, j.backendUserId = j'.backendUserId →
    j.groupHint = j'.groupHint → P j → P j') {w : World} (hjob : P job) (hw : RowHas job.jobId P w) :
    Ensures E (fun h _ w' => (callsOf h = [] ∧ w'.jobs = w.jobs) ∨
      ∃ current, P current ∧ current.jobId = job.jobId ∧ EndsAt worker.diarisation current h w')
      (execute out worker job) w := by
  have hpath : IgnoresPath fun j => P j ∧ j.status ≠ .completed := fun j path hj => ⟨hP j _ rfl rfl hj.1, hj.2⟩
  have hfree : Ensures E (fun h _ _ => callsOf h = []) (JobStore.setStatus out job.jobId .processing []) w :=
    callFree_ensures (setStatus_always covers_callFree out trivial _ _) w
  refine Ensures.bind ((setStatus_ensures out job.jobId .processing [] w).and hfree) (fun h₁ _ w₁ hset => ?_)
    fun h₁ e w₁ hset => ?_
  · obtain ⟨hset, hfree₁⟩ := hset
    have hset := hset.row (Q := fun j => P j ∧ j.status ≠ .completed) hw fun j hj =>
      ⟨hP j.unstamped _ rfl rfl hj, JobState.noConfusion⟩
    rcases hset with ⟨-, hw₁⟩ | ⟨_, h, -⟩
    · refine Ensures.bind (refreshed_ensures worker job hpath hw₁) (fun h₂ current w₂ hrow => ?_) fun h₂ e w₂ hrow => ?_
      · obtain ⟨⟨hw₂, hcurrent⟩, hfree₂⟩ := hrow
        have hnone : callsOf (h₁ ++ h₂) = [] := by rw [callsOf_append, hfree₁, hfree₂, List.nil_append]
        cases current with
        | none =>
          refine ensures_raise (.inr ⟨job, hjob, rfl, .inl ⟨?_, hw₂.mono fun _ hj => hj.2⟩⟩)
          simp [hfree₁, hfree₂]
        | some current =>
          have hrow : P current ∧ current.jobId = job.jobId := by
            rcases hcurrent current rfl with rfl | h
            · exact ⟨hjob, rfl⟩
            · exact ⟨hP current.unstamped _ rfl rfl h.1.1, h.2⟩
          have hw₂ : RowHas current.jobId (fun j => j.status ≠ .completed) w₂ := by
            rw [hrow.2]
            exact hw₂.mono fun _ hj => hj.2
          refine (guarded_ensures out worker current hw₂).mono fun h₃ _ w₃ hends => .inr ⟨current, hrow.1, hrow.2, ?_⟩
          have hcalls := sameCalls_within hnone callsOf_nil h₃
          rw [List.append_nil, List.append_assoc] at hcalls
          exact hends.congr hcalls rfl rfl rfl
      · refine .inr ⟨job, hjob, rfl, .inl ⟨?_, hrow.1.1.mono fun _ hj => hj.2⟩⟩
        simp [hfree₁, hrow.2]
    · cases h
  · obtain ⟨hset, hfree₁⟩ := hset
    cases hset with
    | refused e n _ => exact .inl ⟨hfree₁, rfl⟩

/-- **All that a run writes to the backend goes to one group and one meeting, and a job that it completes records what
was used**: whatever the backend answers, and whichever statement fails. -/
theorem one_target {w w' : World} {h : WorldHistory} {x : Except Exc Unit} (hjob : Current w job)
    (hexec : Exec Env.faulty (execute out worker job) w h x w') :
    ((∃ call ∈ callsOf h, call.group? ≠ none) → ∃ group, OneTarget worker.diarisation job h group) ∧
      (statusOf w job.jobId ≠ some .completed → ∀ row, w'.jobs.find? job.jobId = some row → row.status = .completed →
        ∃ group, OneTarget worker.diarisation job h group ∧ RecordedIn worker.diarisation h group row) := by
  have hrun := execute_ensures out worker job
    (P := fun row => row.backendUserId = job.backendUserId ∧ row.groupHint = job.groupHint)
    (fun j j' huser hhint hj => ⟨huser ▸ hj.1, hhint ▸ hj.2⟩) ⟨rfl, rfl⟩ hjob h x w' hexec
  rcases hrun with ⟨hnone, hjobs⟩ | ⟨current, ⟨huser, hhint⟩, hid, hends⟩
  · refine ⟨fun ⟨call, hcall, _⟩ => ?_, fun hold row hrow hdone => ?_⟩
    · rw [hnone] at hcall
      cases hcall
    · rw [hjobs] at hrow
      refine absurd ?_ hold
      rw [statusOf, hrow, Option.map_some, hdone]
  · rcases hends.congr ⟨rfl, fun _ => rfl⟩ hid.symm huser.symm hhint.symm with ⟨hfinds, hrow⟩ | ⟨group, htarget, hrow⟩
    · refine ⟨fun ⟨call, hcall, hgroup⟩ => ?_, fun _ row hfind hdone => absurd hdone (hrow row hfind)⟩
      exact absurd (BackendCall.group?_of_finds (hfinds call hcall)) hgroup
    · refine ⟨fun _ => ⟨group, htarget⟩, fun _ row hfind hdone => ⟨group, htarget, ?_⟩⟩
      obtain ⟨hnames, hmeeting, hfile, hlabels, hattendees, hmembers⟩ := hrow row hfind hdone
      exact ⟨hnames, hmeeting, hfile, hlabels, hattendees, hmembers⟩

end SubmitTranscript

end

end

namespace SubmitTranscript
attribute [local instance] asciiChars

/-- One of two speakers is known. -/
def oneSpeaker : List (Text × Option Nat) := [("Alice", some 31), ("Bob", none)]

theorem one_target_oneSpeaker : ∃ h w' row group,
    Exec Env.faulty (execute .plain (aliasWorker oneSpeaker) transcriptJob) transcriptWorld h (.ok ()) w' ∧
      w'.jobs.find? transcriptJob.jobId = some row ∧ RecordedIn (aliasWorker oneSpeaker).diarisation h group row := by
  have hcurrent : Current transcriptWorld transcriptJob := by
    intro row hrow
    rw [← Option.some.inj hrow]
    exact ⟨rfl, rfl⟩
  have hresult : (play [] (execute .plain (aliasWorker oneSpeaker) transcriptJob) transcriptWorld).2.1 = .ok () := by
    decide +kernel
  have hstatus : statusOf (play [] (execute .plain (aliasWorker oneSpeaker) transcriptJob) transcriptWorld).2.2
      transcriptJob.jobId = some .completed := by
    decide +kernel
  have hexec := exec_play (E := Env.faulty) (fun _ _ => trivial) []
    (execute .plain (aliasWorker oneSpeaker) transcriptJob) transcriptWorld fun _ _ _ _ => trivial
  rw [hresult] at hexec
  obtain ⟨row, hrow, hdone⟩ := Option.map_eq_some_iff.1 hstatus
  obtain ⟨group, -, hrecorded⟩ :=
    (one_target .plain (aliasWorker oneSpeaker) transcriptJob hcurrent hexec).2 (by decide +kernel) row hrow hdone
  exact ⟨_, _, row, group, hexec, hrow, hrecorded⟩

/-! ### A member with two labels -/

/-- The backend's answer to an attendee that it has. -/
def conflict : Exc := ⟨.diarisationApiError, "409 Conflict"⟩

theorem callBackend_exec {α : Type} (call : BackendCall) (answer : Nat → Except Exc α) {w : World} {a : α}
    (hanswer : answer w.backendCalls = .ok a) :
    Exec Env.faulty (callBackend call answer) w [⟨.backend call, w, none⟩] (.ok a)
      { w with backendCalls := w.backendCalls + 1 } := by
  refine .ok trivial ?_
  show Exec Env.faulty (Prog.ofExcept (answer w.backendCalls)) _ _ _ _
  rw [hanswer]
  exact .ret

theorem addAttendees_repeats {d : DiarisationClient} (hadd : ∀ n token groupId meetingId memberId,
    d.addAttendee n token groupId meetingId memberId = .ok ()) (token : Text) (groupId meetingId : Nat)
    (aliases : List (Text × Option Nat)) (added : List Nat) (hadded : added.Nodup)
    (hrepeats : ¬ (added ++ aliases.filterMap Prod.snd).Nodup) (w : World) :
    ∃ h w', Exec Env.faulty (addAttendees d token groupId meetingId aliases) w h (.error conflict) w' ∧
      (added ++ answersOf d.attendeeAdded h).Nodup ∧ ¬ (added ++ membersOf h).Nodup ∧
      answersOf d.aliasesResolved h = [] := by
  induction aliases generalizing added w with
  | nil => exact absurd (by simpa using hadded) hrepeats
  | cons entry aliases ih =>
    obtain ⟨name, member⟩ := entry
    cases member with
    | none =>
      obtain ⟨h, w', hexec, hends⟩ := ih added hadded hrepeats w
      exact ⟨h, w', hexec.bind_error, hends⟩
    | some memberId =>
      by_cases hmember : memberId ∈ added
      · refine ⟨_, w, .fault trivial .raise, ?_, ?_, rfl⟩
        · simpa [answersOf] using hadded
        · simp [membersOf, callsOf, Stmt.call?, BackendCall.member?, List.nodup_append, hmember]
      · have hadded' : (added ++ [memberId]).Nodup := List.nodup_append_comm.1 (List.nodup_cons.2 ⟨hmember, hadded⟩)
        have hrepeats' : ¬ (added ++ [memberId] ++ aliases.filterMap Prod.snd).Nodup := by
          rw [List.append_assoc]
          exact hrepeats
        obtain ⟨h, w', hexec, hanswers, hmembers, hresolved⟩ := ih (added ++ [memberId]) hadded' hrepeats'
          { w with backendCalls := w.backendCalls + 1 }
        have hcall := callBackend_exec (.addAttendee token groupId meetingId memberId)
          (fun n => d.addAttendee n token groupId meetingId memberId) (hadd w.backendCalls _ _ _ _)
        refine ⟨_, w', hcall.bind hexec.bind_error, ?_, ?_, ?_⟩
        · simpa [answersOf, Stmt.call?, DiarisationClient.attendeeAdded, hadd, Except.toOption] using hanswers
        · simpa [membersOf, callsOf, Stmt.call?, BackendCall.member?] using hmembers
        · simpa [answersOf, Stmt.call?, DiarisationClient.aliasesResolved] using hresolved

/-- The row that `execute` goes on with. -/
def processingJob : Job :=
  { transcriptJob with
    status := .processing, attachmentStoragePath := some "work/0_team.vtt", startedAt := some 1786406400000000 }

/-- The world once the job is PROCESSING, and once its file is moved. -/
def startedWorld : World := ((JobStore.setStatus .plain transcriptJob.jobId .processing []).run transcriptWorld).2

def movedWorld : World := ((refreshed (smallWorker []) transcriptJob).run startedWorld).2

/-- The world after `n` calls. -/
def calledWorld (n : Nat) : World := { movedWorld with backendCalls := n }

theorem result_exec {α : Type} {p : M α} {w : World} {a : α} (hresult : (p.run w).1 = .ok a) :
    ∃ h, Exec Env.faulty p w h (.ok a) (p.run w).2 := by
  obtain ⟨h, hexec, -⟩ := exec_run (E := Env.faulty) (fun _ _ => trivial) p w
  rw [hresult] at hexec
  exact ⟨h, hexec⟩

theorem submit_repeats {resolved : List (Text × Option Nat)} (hrepeats : ¬ (resolved.filterMap Prod.snd).Nodup) :
    ∃ h w', Exec Env.faulty (submit .plain (aliasWorker resolved).diarisation processingJob "token" ⟨7, "Team A"⟩)
        (calledWorld 2) h (.error conflict) w' ∧
      (aliasWorker resolved).diarisation.aliasResult h = resolved ∧
      (answersOf (aliasWorker resolved).diarisation.attendeeAdded h).Nodup ∧ ¬ (membersOf h).Nodup := by
  let d := (aliasWorker resolved).diarisation
  obtain ⟨hread, hcontent⟩ := result_exec (p := storedContent processingJob) (w := calledWorld 3)
    (a := [87, 69, 66]) (by decide +kernel)
  have hfree := callFree_ensures (storedContent_always rfl processingJob) _ _ _ _ hcontent
  obtain ⟨h, w', hloop, hanswers, hmembers, hresolved⟩ :=
    addAttendees_repeats (d := d) (fun _ _ _ _ _ => rfl) "token" 7 1 resolved [] List.nodup_nil hrepeats (calledWorld 5)
  have hcreate := callBackend_exec (.createMeeting "token" 7 "2026-08-10T10:00:00") (w := calledWorld 2) (a := 1)
    (fun n => d.createMeeting n "token" 7 "2026-08-10T10:00:00") rfl
  have hupload := callBackend_exec (.uploadFile "token" 7 1 processingJob.attachmentFilename [87, 69, 66])
    (fun n => d.uploadFile n "token" 7 1 processingJob.attachmentFilename [87, 69, 66])
    (w := calledWorld 3) (a := 1) rfl
  have hresolve := callBackend_exec (.resolveAliases "token" 7 processingJob.speakers)
    (fun n => d.resolveAliases n "token" 7 processingJob.speakers) (w := calledWorld 4) (a := resolved) rfl
  refine ⟨_, w', hcreate.bind (hcontent.bind (hupload.bind (hresolve.bind hloop).bind_error)), ?_, ?_, ?_⟩
  · rw [DiarisationClient.aliasResult, answersOf_append, answersOf_append, answersOf_append, answersOf_append,
      answersOf_nil_calls hfree, hresolved, answersOf_answered, answersOf_answered, answersOf_answered]
    exact List.append_nil resolved
  · rw [answersOf_append, answersOf_append, answersOf_append, answersOf_append, answersOf_nil_calls hfree,
      answersOf_answered, answersOf_answered, answersOf_answered]
    exact hanswers
  · rw [membersOf, callsOf_append, callsOf_append, callsOf_append, callsOf_append, hfree]
    exact hmembers

theorem execute_repeats {resolved : List (Text × Option Nat)} (hrepeats : ¬ (resolved.filterMap Prod.snd).Nodup) :
    ∃ h x w', Exec Env.faulty (execute .plain (aliasWorker resolved) transcriptJob) transcriptWorld h x w' ∧
      (aliasWorker resolved).diarisation.aliasResult h = resolved ∧
      (answersOf (aliasWorker resolved).diarisation.attendeeAdded h).Nodup ∧ ¬ (membersOf h).Nodup := by
  let d := (aliasWorker resolved).diarisation
  obtain ⟨h₁, hset⟩ :=
    result_exec (p := JobStore.setStatus .plain transcriptJob.jobId .processing []) (w := transcriptWorld) (a := ())
      (by decide +kernel)
  obtain ⟨h₂, hrefresh⟩ := result_exec (p := refreshed (aliasWorker resolved) transcriptJob) (w := startedWorld)
    (a := some processingJob) (by
      show ((refreshed (smallWorker []) transcriptJob).run startedWorld).1 = _
      decide +kernel)
  obtain ⟨h₃, w₃, hsubmit, haliases, hanswers, hmembers⟩ := submit_repeats hrepeats
  have hlogin := callBackend_exec (.login 12) (fun n => d.login n 12) (w := calledWorld 0) (a := "token") rfl
  have hlist := callBackend_exec (.listGroups "token") (fun n => d.listGroups n "token") (w := calledWorld 1)
    (a := [⟨7, "Team A"⟩]) rfl
  have hfound : Exec Env.faulty (groupsOf d processingJob) (calledWorld 0) _ (.ok ("token", [⟨7, "Team A"⟩]))
      (calledWorld 2) := hlogin.bind (hlist.bind .ret)
  have hattempt : Exec Env.faulty (attempt .plain (aliasWorker resolved) processingJob) (calledWorld 0) _
      (.error conflict) w₃ := hfound.bind hsubmit.bind_error
  obtain ⟨h₄, hhandler, -⟩ := exec_run (E := Env.faulty) (fun _ _ => trivial)
    (handleExecuteFailure .plain (aliasWorker resolved) processingJob (failureReason conflict)) w₃
  have hfree₁ := callFree_ensures (setStatus_always covers_callFree .plain trivial .processing []) _ _ _ _ hset
  have hfree₂ := callFree_ensures (refreshed_always covers_callFree transcriptJob trivial _) _ _ _ _ hrefresh
  have hfree₄ := callFree_ensures (handleExecuteFailure_always covers_callFree .plain processingJob trivial _ _) _ _ _ _
    hhandler
  refine ⟨_, _, _, hset.bind (hrefresh.bind (hattempt.tryCatch_error hhandler)), ?_, ?_, ?_⟩
  · rw [DiarisationClient.aliasResult, answersOf_append, answersOf_append, answersOf_append, answersOf_append,
      answersOf_append, answersOf_append, answersOf_nil_calls hfree₁, answersOf_nil_calls hfree₂,
      answersOf_nil_calls hfree₄, answersOf_answered, answersOf_answered, List.append_nil]
    exact haliases
  · rw [answersOf_append, answersOf_append, answersOf_append, answersOf_append,
      answersOf_append, answersOf_append, answersOf_nil_calls hfree₁, answersOf_nil_calls hfree₂,
      answersOf_nil_calls hfree₄, answersOf_answered, answersOf_answered, List.append_nil]
    exact hanswers
  · rw [membersOf, callsOf_append, callsOf_append, callsOf_append, callsOf_append, callsOf_append, callsOf_append,
      hfree₁,
      hfree₂, hfree₄, List.append_nil]
    exact hmembers

/-- **Each member is added once, whatever the backend answers, exactly if no two labels are aliases of one member.** The
backend refuses an attendee that it has. -/
theorem addedOnce_iff (resolved : List (Text × Option Nat)) :
    (∀ out worker job w h x w', Exec Env.faulty (execute out worker job) w h x w' →
      worker.diarisation.aliasResult h = resolved → (answersOf worker.diarisation.attendeeAdded h).Nodup →
        (membersOf h).Nodup) ↔
      (resolved.filterMap Prod.snd).Nodup := by
  refine ⟨fun honce => ?_, fun hdistinct out worker job w h x w' hexec haliases _ => ?_⟩
  · by_contra hrepeats
    obtain ⟨h, x, w', hexec, haliases, hanswers, hmembers⟩ := execute_repeats hrepeats
    exact hmembers (honce _ _ _ _ h x w' hexec haliases hanswers)
  · rcases execute_ensures out worker job (P := fun _ => True) (fun _ _ _ _ _ => trivial) trivial
      (fun _ _ => trivial) h x w'
      hexec with ⟨hnone, -⟩ | ⟨current, -, -, ⟨hfinds, -⟩ | ⟨group, htarget, -⟩⟩
    · rw [membersOf, hnone]
      exact List.nodup_nil
    · have hnone : membersOf h = [] := List.filterMap_eq_nil_iff.2 fun call hcall => by
        have hfind := hfinds call hcall
        cases call <;> first | rfl | cases hfind
      rw [hnone]
      exact List.nodup_nil
    · exact htarget.members.sublist.nodup (haliases ▸ hdistinct)

/-- Both labels are of one member. -/
def twoLabels : List (Text × Option Nat) := [("Alice", some 31), ("Ali", some 31)]

/-- She is added, and added again: the backend refuses, and the job that it has all of fails. -/
theorem added_twice : ∃ h w', Exec Env.faulty (execute .plain (aliasWorker twoLabels) transcriptJob) transcriptWorld h
      (.ok ()) w' ∧
    (aliasWorker twoLabels).diarisation.aliasResult h = twoLabels ∧
    answersOf (aliasWorker twoLabels).diarisation.attendeeAdded h = [31] ∧ membersOf h = [31, 31] ∧
    statusOf w' transcriptJob.jobId = some .failed := by
  let script : List (Option Exc) := List.replicate 13 none ++ [some conflict]
  have hexec := exec_play (E := Env.faulty) (fun _ _ => trivial) script
    (execute .plain (aliasWorker twoLabels) transcriptJob) transcriptWorld fun _ _ _ _ => trivial
  have hresult : (play script (execute .plain (aliasWorker twoLabels) transcriptJob) transcriptWorld).2.1 = .ok () := by
    decide +kernel
  rw [hresult] at hexec
  exact ⟨_, _, hexec, by decide +kernel, by decide +kernel, by decide +kernel, by decide +kernel⟩

end SubmitTranscript

end GroupAssessmentAgent
