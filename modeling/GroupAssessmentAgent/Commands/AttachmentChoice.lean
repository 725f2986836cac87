import GroupAssessmentAgent.Jobs.Executions

/-!
# Which attachment a command means

The validator takes an attachment from the metadata of the mail, and `accept` looks it up again, by its name, among the
attachments themselves. `resolvedAt` is the position that the validator takes. Whichever way it is found, it is the first
position with its name (`resolved_first`), so the two meet, and what was checked is what is stored.

That the name occurs only once is not checked where the command names it: `Unguessed` says when the choice is no guess.
-/

namespace GroupAssessmentAgent
open Prog

section
variable [PyChars]

/-- The position of the attachment that `resolveAttachment` takes: of the first with the name that the command gives, or
else of the transcript. -/
def resolvedAt (named : Option Text) (attachments : List AttachmentMeta) : Option Nat :=
  match (truthy named).bind fun name => attachments.findIdx? fun a => a.filename = name with
  | some i => some i
  | none => attachments.findIdx? fun a => isVtt a.filename

/-- The position of the attachment that `accept` takes. -/
def storedAt (chosen : AttachmentMeta) (attachments : List Attachment) : Option Nat :=
  attachments.findIdx? fun a => a.filename = chosen.filename

/-! ### Positions -/

omit [PyChars] in
theorem find?_findIdx? {α : Type} {p : α → Bool} {l : List α} {a : α} (h : l.find? p = some a) :
    ∃ i, l.findIdx? p = some i ∧ l[i]? = some a := by
  obtain ⟨hp, i, hi, heq, hbefore⟩ := List.find?_eq_some_iff_getElem.1 h
  refine ⟨i, List.findIdx?_eq_some_iff_getElem.2 ⟨hi, by rwa [heq], fun j hj => by simpa using hbefore j hj⟩, ?_⟩
  rw [List.getElem?_eq_getElem hi, heq]

omit [PyChars] in
theorem findIdx?_name {p : Text → Bool} {attachments : List AttachmentMeta} {i : Nat} {m : AttachmentMeta}
    (hi : attachments.findIdx? (fun a => p a.filename) = some i) (hm : attachments[i]? = some m) :
    attachments.findIdx? (fun a => a.filename = m.filename) = some i := by
  obtain ⟨hlt, hp, hbefore⟩ := List.findIdx?_eq_some_iff_getElem.1 hi
  obtain rfl : attachments[i] = m := Option.some.inj ((List.getElem?_eq_getElem hlt).symm.trans hm)
  refine List.findIdx?_eq_some_iff_getElem.2 ⟨hlt, by simp, fun j hj hname => hbefore j hj ?_⟩
  rw [of_decide_eq_true hname]
  exact hp

/-- What `resolveAttachment` takes: the first attachment with the name that the command gives, or else the only
transcript. -/
theorem resolveAttachment_ok {named : Option Text} {attachments : List AttachmentMeta} {m : AttachmentMeta} :
    resolveAttachment named attachments = .ok m ↔
      (truthy named = some m.filename ∧ (attachments.find? fun a => a.filename = m.filename) = some m) ∨
        ((truthy named).bind fun name => attachments.find? fun a => a.filename = name) = none ∧
          (attachments.filter fun a => isVtt a.filename) = [m] := by
  unfold resolveAttachment
  cases hnamed : (truthy named).bind fun name => attachments.find? fun a => a.filename = name with
  | some matched =>
    obtain ⟨name, hname, hfind⟩ := Option.bind_eq_some_iff.1 hnamed
    have hmatched : matched.filename = name := by simpa using List.find?_some hfind
    subst hmatched
    simp only [reduceCtorEq, false_and, or_false, Except.ok.injEq]
    constructor
    · rintro rfl
      exact ⟨hname, hfind⟩
    · rintro ⟨hname', hfind'⟩
      rw [hname, Option.some.injEq] at hname'
      rw [← hname', hfind, Option.some.injEq] at hfind'
      exact hfind'
  | none =>
    have hno : ¬ (truthy named = some m.filename ∧
        (attachments.find? fun a => a.filename = m.filename) = some m) := by
      rintro ⟨hname, hfind⟩
      rw [hname, Option.bind_some, hfind] at hnamed
      cases hnamed
    simp only [hno, false_or, true_and]
    cases hvtt : attachments.filter fun a => isVtt a.filename with
    | nil =>
      simp only
      split_ifs <;> simp
    | cons only rest => cases rest <;> simp

/-- **The validator's choice** is the first attachment with its name. -/
theorem resolved_first {named : Option Text} {attachments : List AttachmentMeta} {m : AttachmentMeta}
    (h : resolveAttachment named attachments = .ok m) :
    ∃ i, resolvedAt named attachments = some i ∧ attachments[i]? = some m ∧
      attachments.findIdx? (fun a => a.filename = m.filename) = some i := by
  obtain ⟨hname, hfind⟩ | ⟨hnamed, hvtt⟩ := resolveAttachment_ok.1 h
  · obtain ⟨i, hi, hm⟩ := find?_findIdx? hfind
    exact ⟨i, by simp only [resolvedAt, hname, Option.bind_some, hi], hm, hi⟩
  · have hno : ((truthy named).bind fun name => attachments.findIdx? fun a => a.filename = name) = none := by
      refine Option.bind_eq_none_iff.2 fun name hname => List.findIdx?_eq_none_iff.2 fun a ha => ?_
      have hfind := Option.bind_eq_none_iff.1 hnamed name hname
      simpa using List.find?_eq_none.1 hfind a ha
    have hfind : (attachments.find? fun a => isVtt a.filename) = some m := by
      rw [← List.head?_filter, hvtt]
      rfl
    obtain ⟨i, hi, hm⟩ := find?_findIdx? hfind
    exact ⟨i, by simp only [resolvedAt, hno, hi], hm, findIdx?_name hi hm⟩

/-! ### What the validator accepts -/

theorem validateCommand_ensures {E : Env Stmt World Exc} (cmd : ParsedCommand) (ctx : ValidationContext) (w : World) :
    Ensures E (fun _ x _ => ∀ validated, x = .ok validated → validated.operation = .submitTranscript →
      cmd.requiresClarification = false ∧ cmd.operation = .submitTranscript ∧
        validateSubmitTranscript cmd ctx = .ok validated) (validateCommand cmd ctx) w := by
  unfold validateCommand
  split_ifs with hclarify
  · exact ensures_raise fun _ h => by cases h
  have hjob : cmd.operation ≠ .submitTranscript → Ensures E (fun _ x _ => ∀ validated, x = .ok validated →
      validated.operation = .submitTranscript → cmd.requiresClarification = false ∧ cmd.operation = .submitTranscript ∧
        validateSubmitTranscript cmd ctx = .ok validated) (validateJobReferenceOperation cmd ctx) w := by
    intro hop
    unfold validateJobReferenceOperation
    cases (truthy cmd.jobId).or (truthy ctx.threadJobId) with
    | none => exact ensures_raise fun _ h => by cases h
    | some jobId =>
      refine Ensures.bind (M := fun _ _ _ => True) (ensures_observe trivial fun _ _ => trivial) (fun _ job w' _ => ?_)
        fun _ _ _ _ _ h => by cases h
      cases job with
      | none => exact ensures_raise fun _ h => by cases h
      | some job =>
        refine ensures_ret fun validated h hsubmit => ?_
        obtain rfl := Except.ok.inj h
        exact absurd hsubmit hop
  cases hop : cmd.operation with
  | submitTranscript =>
    refine ensures_ofExcept fun validated h _ => ⟨?_, rfl, h⟩
    simpa using hclarify
  | status => exact (hjob (by simp [hop])).mono fun _ _ _ h => by simpa only [hop] using h
  | results => exact (hjob (by simp [hop])).mono fun _ _ _ h => by simpa only [hop] using h
  | cancel => exact (hjob (by simp [hop])).mono fun _ _ _ h => by simpa only [hop] using h
  | assessQuery =>
    refine ensures_ofExcept fun validated h hsubmit => ?_
    unfold validateAssessQuery at h
    split_ifs at h
    obtain rfl := Except.ok.inj h
    cases hsubmit
  | help =>
    refine ensures_ret fun validated h hsubmit => ?_
    obtain rfl := Except.ok.inj h
    cases hsubmit

theorem validateSubmitTranscript_ok {cmd : ParsedCommand} {ctx : ValidationContext} {validated : ValidatedCommand}
    (h : validateSubmitTranscript cmd ctx = .ok validated) :
    ∃ m, resolveAttachment cmd.attachment ctx.attachments = .ok m ∧ checkResolved ctx.limits m = .ok () ∧
      validated.attachment = some m := by
  unfold validateSubmitTranscript at h
  split_ifs at h
  cases hresolve : resolveAttachment cmd.attachment ctx.attachments with
  | error e =>
    rw [hresolve] at h
    cases h
  | ok m =>
    rw [hresolve] at h
    cases hcheck : checkResolved ctx.limits m with
    | error e =>
      simp only [Bind.bind, Except.bind, hcheck] at h
      cases h
    | ok u =>
      simp only [Bind.bind, Except.bind, hcheck] at h
      obtain rfl := Except.ok.inj h
      exact ⟨m, rfl, hcheck, rfl⟩

theorem checkResolved_ok {limits : LimitsSettings} {m : AttachmentMeta} :
    checkResolved limits m = .ok () ↔
      isAudio m.filename = false ∧ isVtt m.filename = true ∧ (m.sizeBytes : Int) ≤ limits.maxBytes := by
  unfold checkResolved
  split_ifs with haudio hvtt hsize
  · simp [haudio]
  · simp at hvtt
    simp [hvtt]
  · simp [hsize]
  · simp at haudio hvtt hsize
    simp [haudio, hvtt, hsize]

/-! ### What `accept` stores -/

/-- The step writes no file, or one with these bytes. -/
def StoresBytes (content : Bytes) (l : Stmt) (f : World → World) : Prop :=
  l = .writeFile → ∀ w, ∃ path n, f w = { w with files := w.files.upsert ⟨path, content⟩, uuids := n }

section
variable {content : Bytes} (out : Outside)

omit [PyChars] in
theorem storesBytes_of_ne {l : Stmt} (hl : l ≠ .writeFile) (f : World → World) : StoresBytes content l f :=
  fun h => absurd h hl

omit [PyChars] in
theorem utcnow_stores : Always (StoresBytes content) (utcnow out) := always_atomic (storesBytes_of_ne (by simp) _)

omit [PyChars] in
theorem createJob_stores (senderEmail : Text) (userId : Nat) (source operation : Text) (fields : List JobField) :
    Always (StoresBytes content) (JobStore.createJob out senderEmail userId source operation fields) := by
  refine (utcnow_stores out).bind fun now => ?_
  suffices hrounds : ∀ rounds attempt, Always (StoresBytes content) (JobStore.createJobFrom out senderEmail userId source
      operation fields (JobStore.jobIdPrefix now.date) rounds attempt) from hrounds 10 0
  intro rounds
  induction rounds with
  | zero => exact fun _ => trivial
  | succ rounds ih =>
    intro attempt
    refine (utcnow_stores out).bind fun createdAt => onIntegrityError_always (Always.bind ?_ fun _ => ?_) (ih _)
    · exact always_atomic (storesBytes_of_ne (by simp) _)
    · exact always_observe (storesBytes_of_ne (by simp) _) _

omit [PyChars] in
theorem setStatus_stores (jobId : Text) (new : JobState) (extra : List JobField) :
    Always (StoresBytes content) (JobStore.setStatus out jobId new extra) :=
  setStatus_steps out (F := fun _ => True) (fun _ _ => trivial) (storesBytes_of_ne (by simp) _)
    (storesBytes_of_ne (by simp) _) (fun _ _ => trivial) fun _ _ _ => storesBytes_of_ne (by simp) _

omit [PyChars] in
theorem update_stores (jobId : Text) (fields : List JobField) :
    Always (StoresBytes content) (JobStore.update jobId fields) := by
  unfold JobStore.update
  split_ifs
  · trivial
  · exact always_change (storesBytes_of_ne (by simp) _)

omit [PyChars] in
theorem mail_stores (req : Request) (mail : Rendered) (jobId : Option Text) (paths : List Text) :
    Always (StoresBytes content) (req.enqueue out mail jobId paths) :=
  Always.bind ((utcnow_stores out).bind fun _ => always_atomic (storesBytes_of_ne (by simp) _)) fun _ => trivial

omit [PyChars] in
theorem moveFailed_stores (storage : StorageSettings) (jobId path : Text) :
    Always (StoresBytes content) (SubmitTranscript.moveFailed storage jobId path) := by
  refine Always.bind (always_observe (storesBytes_of_ne (by simp) _) _) fun found => ?_
  split_ifs
  · exact Always.bind (always_atomic (storesBytes_of_ne (by simp) _)) fun _ => update_stores _ _
  · trivial

theorem acceptCreated_stores (cmd : ValidatedCommand) (req : Request) (storage : StorageSettings)
    (receivedAt : Datetime) (attachment : Attachment) (filename jobId : Text) :
    Always (StoresBytes attachment.content)
      (SubmitTranscript.acceptCreated out cmd req storage receivedAt attachment filename jobId) := by
  have hsave : ∀ name dir, Always (StoresBytes attachment.content) (saveIncoming out attachment.content name dir) :=
    fun name dir => always_atomic fun _ w => ⟨_, _, rfl⟩
  have hparse : ∀ path, Always (StoresBytes attachment.content) (parseVtt out path) := fun path =>
    Always.bind (always_observeE (storesBytes_of_ne (by simp) _) _) fun _ =>
      (always_ofExcept _).bind fun _ => always_ofExcept _
  refine (setStatus_stores out _ _ _).bind fun _ => (hsave _ _).bind fun path => ?_
  refine (update_stores _ _).bind fun _ => (catching_always _ (hparse path)).bind fun parsed => ?_
  cases parsed with
  | ok vtt =>
    refine Always.bind (always_ofExcept _) fun date => (update_stores _ _).bind fun _ => ?_
    exact (setStatus_stores out _ _ _).bind fun _ => (mail_stores out req _ _ _).bind fun _ => trivial
  | error e =>
    refine (setStatus_stores out _ _ _).bind fun _ => Always.bind ?_ fun _ => trivial
    exact (moveFailed_stores storage _ _).bind fun _ => mail_stores out req _ _ _

end

/-- **What was validated is what is stored.** If `validate_command` returns a transcript, then `accept` takes the
attachment at the very position that the validator took: a `.vtt` file within the limit. Neither assertion fails, and the
only bytes that `accept` writes are those of this attachment. -/
theorem validated_stored {E : Env Stmt World Exc} {cmd : ParsedCommand} {ctx : ValidationContext}
    {attachments : List Attachment} (hctx : ctx.attachments = attachments.map Attachment.meta) {w w' : World}
    {h : WorldHistory} {validated : ValidatedCommand} (hexec : Exec E (validateCommand cmd ctx) w h (.ok validated) w')
    (hop : validated.operation = .submitTranscript) :
    ∃ i a, attachments[i]? = some a ∧ resolvedAt cmd.attachment ctx.attachments = some i ∧
      validated.attachment = some a.meta ∧ storedAt a.meta attachments = some i ∧
      endsWith (lower a.filename) ".vtt" = true ∧ (a.content.length : Int) ≤ ctx.limits.maxBytes ∧
      ∀ out req storage userId source receivedAt,
        SubmitTranscript.accept out validated req storage attachments userId source receivedAt =
            (do
              let job ← JobStore.createJob out req.senderEmail userId source "submit_transcript"
                [.groupHint validated.groupHint, .attachmentFilename (some a.filename)]
              let jobId ← createdJobId job
              SubmitTranscript.acceptCreated out validated req storage receivedAt a a.filename jobId) ∧
          Always (StoresBytes a.content)
            (SubmitTranscript.accept out validated req storage attachments userId source receivedAt) := by
  obtain ⟨-, -, hvalid⟩ := validateCommand_ensures cmd ctx w _ _ _ hexec validated rfl hop
  obtain ⟨m, hresolve, hcheck, hattachment⟩ := validateSubmitTranscript_ok hvalid
  obtain ⟨-, hvtt, hsize⟩ := checkResolved_ok.1 hcheck
  obtain ⟨i, hi, hm, hfirst⟩ := resolved_first hresolve
  rw [hctx, List.getElem?_map] at hm
  obtain ⟨a, ha, rfl⟩ := Option.map_eq_some_iff.1 hm
  have hstored : storedAt a.meta attachments = some i := by
    rw [hctx, List.findIdx?_map] at hfirst
    exact hfirst
  have hfound : (attachments.find? fun b => b.filename = a.meta.filename) = some a := by
    obtain ⟨hlt, hname, hbefore⟩ := List.findIdx?_eq_some_iff_getElem.1 hstored
    have hget : attachments[i] = a := Option.some.inj ((List.getElem?_eq_getElem hlt).symm.trans ha)
    refine List.find?_eq_some_iff_getElem.2 ⟨by simp [Attachment.meta], i, hlt, hget, fun j hj => ?_⟩
    simpa using hbefore j hj
  refine ⟨i, a, ha, hi, hattachment, hstored, hvtt, hsize, fun out req storage userId source receivedAt => ?_⟩
  have haccept : SubmitTranscript.accept out validated req storage attachments userId source receivedAt =
      (do
        let job ← JobStore.createJob out req.senderEmail userId source "submit_transcript"
          [.groupHint validated.groupHint, .attachmentFilename (some a.filename)]
        let jobId ← createdJobId job
        SubmitTranscript.acceptCreated out validated req storage receivedAt a a.filename jobId) := by
    unfold SubmitTranscript.accept
    simp only [hattachment, hfound]
    rfl
  refine ⟨haccept, ?_⟩
  rw [haccept]
  refine (createJob_stores out _ _ _ _ _).bind fun job => Always.bind ?_ fun jobId => ?_
  · cases job <;> trivial
  · exact acceptCreated_stores out validated req storage receivedAt a a.filename jobId

/-! ### Choosing without a guess -/

/-- The mail has one attachment with the name, and the command names it or it is the only transcript. -/
def Determined (named : Option Text) (attachments : List AttachmentMeta) (m : AttachmentMeta) : Prop :=
  (attachments.filter fun a => a.filename = m.filename).length = 1 ∧
    (truthy named = some m.filename ∨ (attachments.filter fun a => isVtt a.filename) = [m])

/-- A transcript that `validate_command` returns is determined, and where it returns none it asks or rejects. -/
def Unguessed (cmd : ParsedCommand) (ctx : ValidationContext) : Prop :=
  ∀ (E : Env Stmt World Exc) (w : World) (h : WorldHistory) (x : Except Exc ValidatedCommand) (w' : World),
    Exec E (validateCommand cmd ctx) w h x w' →
      (∀ validated, x = .ok validated → validated.operation = .submitTranscript →
        ∃ m, validated.attachment = some m ∧ Determined cmd.attachment ctx.attachments m) ∧
      ∀ e, x = .error e → cmd.operation = .submitTranscript → ctx.attachments ≠ [] →
        e.kind = .clarificationRequired ∨ e.kind = .rejected

/-- The command names several attachments, of which the first passes the checks. -/
def NamesSeveral (cmd : ParsedCommand) (ctx : ValidationContext) : Prop :=
  cmd.requiresClarification = false ∧ cmd.operation = .submitTranscript ∧
    ∃ m, truthy cmd.attachment = some m.filename ∧
      (ctx.attachments.find? fun a => a.filename = m.filename) = some m ∧
      2 ≤ (ctx.attachments.filter fun a => a.filename = m.filename).length ∧
      isAudio m.filename = false ∧ isVtt m.filename = true ∧ (m.sizeBytes : Int) ≤ ctx.limits.maxBytes

theorem determined_iff {named : Option Text} {attachments : List AttachmentMeta} {m : AttachmentMeta}
    (h : resolveAttachment named attachments = .ok m) :
    Determined named attachments m ↔
      ¬ (truthy named = some m.filename ∧ 2 ≤ (attachments.filter fun a => a.filename = m.filename).length) := by
  obtain ⟨hname, hfind⟩ | ⟨hnamed, hvtt⟩ := resolveAttachment_ok.1 h
  · have hmem : m ∈ attachments.filter fun a => a.filename = m.filename :=
      List.mem_filter.2 ⟨List.mem_of_find?_eq_some hfind, by simp⟩
    have hpos := List.length_pos_of_mem hmem
    unfold Determined
    constructor
    · rintro ⟨hone, -⟩ ⟨-, htwo⟩
      omega
    · intro hfew
      refine ⟨?_, .inl hname⟩
      by_contra hmany
      exact hfew ⟨hname, by omega⟩
  · have hmem : m ∈ attachments.filter fun a => isVtt a.filename := by simp [hvtt]
    obtain ⟨hm, hismt⟩ := List.mem_filter.1 hmem
    have hsame : (attachments.filter fun a => a.filename = m.filename) = [m] := by
      have hboth : (attachments.filter fun a => a.filename = m.filename) =
          (attachments.filter fun a => isVtt a.filename).filter fun a => a.filename = m.filename := by
        rw [List.filter_filter]
        refine List.filter_congr fun a _ => ?_
        by_cases hname : a.filename = m.filename <;> simp [hname, hismt]
      rw [hboth, hvtt]
      simp
    refine ⟨fun _ => ?_, fun _ => ⟨by rw [hsame]; rfl, .inr hvtt⟩⟩
    rintro ⟨hname, -⟩
    rw [hname, Option.bind_some] at hnamed
    exact absurd (List.find?_eq_none.1 hnamed m hm) (by simp)

theorem validateSubmitTranscript_error {cmd : ParsedCommand} {ctx : ValidationContext} {e : Exc}
    (h : validateSubmitTranscript cmd ctx = .error e) : e.kind = .clarificationRequired ∨ e.kind = .rejected := by
  have hresolve : ∀ {named : Option Text} {attachments : List AttachmentMeta},
      resolveAttachment named attachments = .error e → e.kind = .clarificationRequired ∨ e.kind = .rejected := by
    intro named attachments h
    unfold resolveAttachment at h
    split at h
    · cases h
    · split at h
      · cases h
      · split_ifs at h
        · exact .inr (Except.error.inj h ▸ rfl)
        · exact .inl (Except.error.inj h ▸ rfl)
      · exact .inl (Except.error.inj h ▸ rfl)
  have hcheck : ∀ {m : AttachmentMeta}, checkResolved ctx.limits m = .error e → e.kind = .rejected := by
    intro m h
    unfold checkResolved at h
    split_ifs at h
    all_goals exact Except.error.inj h ▸ rfl
  unfold validateSubmitTranscript at h
  split_ifs at h with hnone
  · exact .inl (Except.error.inj h ▸ rfl)
  · cases hm : resolveAttachment cmd.attachment ctx.attachments with
    | error e' =>
      rw [hm] at h
      obtain rfl := Except.error.inj h
      exact hresolve hm
    | ok m =>
      rw [hm] at h
      cases hc : checkResolved ctx.limits m with
      | error e' =>
        simp only [Bind.bind, Except.bind, hc] at h
        obtain rfl := Except.error.inj h
        exact .inr (hcheck hc)
      | ok u =>
        simp only [Bind.bind, Except.bind, hc] at h
        cases h

theorem validateCommand_takes {cmd : ParsedCommand} {ctx : ValidationContext} {m : AttachmentMeta}
    (hclarify : cmd.requiresClarification = false) (hop : cmd.operation = .submitTranscript)
    (hresolve : resolveAttachment cmd.attachment ctx.attachments = .ok m)
    (hcheck : checkResolved ctx.limits m = .ok ()) :
    validateCommand cmd ctx = ret { operation := .submitTranscript, attachment := some m, groupHint := cmd.groupHint,
                                    mentionedDate := cmd.mentionedDate } := by
  have hnonempty : ctx.attachments ≠ [] := by
    rintro heq
    rw [heq] at hresolve
    obtain ⟨-, hfind⟩ | ⟨-, hvtt⟩ := resolveAttachment_ok.1 hresolve
    · cases hfind
    · cases hvtt
  unfold validateCommand validateSubmitTranscript
  simp only [hclarify, hop, hresolve, if_neg hnonempty, Bind.bind, Except.bind, hcheck]
  rfl

omit [PyChars] in
theorem exec_ret {E : Env Stmt World Exc} {α : Type} {p : M α} {a : α} (hp : p = ret a) (w : World) :
    Exec E p w [] (.ok a) w :=
  hp ▸ exec_ofExcept (.ok a) w

/-- **Ambiguity is asked about**, except where the command gives a name that several attachments have, and the first of
them passes the checks: that one is taken. -/
theorem unguessed_iff (cmd : ParsedCommand) (ctx : ValidationContext) :
    Unguessed cmd ctx ↔ ¬ NamesSeveral cmd ctx := by
  constructor
  · rintro hunguessed ⟨hclarify, hop, m, hname, hfind, htwo, hchecks⟩
    have hresolve : resolveAttachment cmd.attachment ctx.attachments = .ok m :=
      resolveAttachment_ok.2 (.inl ⟨hname, hfind⟩)
    have hret := validateCommand_takes hclarify hop hresolve (checkResolved_ok.2 hchecks)
    have hexec := exec_ret (E := Env.calm) hret {}
    obtain ⟨m', hm', hdetermined⟩ := (hunguessed _ _ _ _ _ hexec).1 _ rfl rfl
    obtain rfl : m = m' := Option.some.inj hm'
    exact (determined_iff hresolve).1 hdetermined ⟨hname, htwo⟩
  · intro hfew E w h x w' hexec
    refine ⟨fun validated hx hsubmit => ?_, fun e hx hsubmit _ => ?_⟩
    · obtain ⟨hclarify, hop, hvalid⟩ := validateCommand_ensures cmd ctx w _ _ _ hexec validated hx hsubmit
      obtain ⟨m, hresolve, hcheck, hattachment⟩ := validateSubmitTranscript_ok hvalid
      refine ⟨m, hattachment, (determined_iff hresolve).2 fun ⟨hname, htwo⟩ => hfew ⟨hclarify, hop, m, hname, ?_, htwo,
        checkResolved_ok.1 hcheck⟩⟩
      obtain ⟨-, hfind⟩ | ⟨hnamed, hvtt⟩ := resolveAttachment_ok.1 hresolve
      · exact hfind
      · have hmem : m ∈ ctx.attachments.filter fun a => isVtt a.filename := by simp [hvtt]
        rw [hname, Option.bind_some] at hnamed
        exact absurd (List.find?_eq_none.1 hnamed m (List.mem_filter.1 hmem).1) (by simp)
    · subst hx
      unfold validateCommand at hexec
      split_ifs at hexec with hclarify
      · cases hexec
        exact .inl rfl
      · simp only [hsubmit] at hexec
        cases hvalid : validateSubmitTranscript cmd ctx with
        | ok validated =>
          rw [hvalid] at hexec
          cases hexec
        | error e' =>
          rw [hvalid] at hexec
          cases hexec
          exact validateSubmitTranscript_error hvalid

end

section
attribute [local instance] asciiChars

/-- Two transcripts of one name. -/
def twoTranscripts : List Attachment :=
  [⟨"sprint.vtt", "text/vtt", [87, 69, 66]⟩, ⟨"sprint.vtt", "text/vtt", [86, 84, 84]⟩]

theorem sprint_bare : ∀ s ∈ (some "sprint.vtt".toList : Option Text), BareFilename s := by
  rintro _ ⟨⟩
  have hplain : pathTraversalChars.all (!"sprint.vtt".toList.contains ·) = true := by decide +kernel
  exact ⟨fun c hc => by simpa using List.all_eq_true.1 hplain c hc, by decide +kernel⟩

theorem sprint_unnumbered : ∀ s ∈ (none : Option Text), isJobId s := by
  rintro _ ⟨⟩

theorem sprint_clear : false = true → ∃ q, (none : Option Text) = some q ∧ q ≠ [] := by
  rintro ⟨⟩

def namesSprint : ParsedCommand where
  operation := .submitTranscript
  attachment := some "sprint.vtt".toList
  groupHint := none
  jobId := none
  mentionedDate := none
  returnStatistics := false
  transcriptFocus := none
  githubFocus := none
  trelloFocus := none
  requiresClarification := false
  clarificationQuestion := none
  bare := sprint_bare
  wellNumbered := sprint_unnumbered
  asksSomething := sprint_clear

def sprintContext : ValidationContext :=
  { attachments := twoTranscripts.map Attachment.meta, threadJobId := none, senderEmail := "alice@uni.ac.uk",
    limits := {} }

theorem sprint_taken : validateCommand namesSprint sprintContext =
    ret { operation := .submitTranscript, attachment := some ⟨"sprint.vtt", 3, "text/vtt"⟩ } := by
  have hresolve : resolveAttachment namesSprint.attachment sprintContext.attachments =
      .ok ⟨"sprint.vtt", 3, "text/vtt"⟩ := resolveAttachment_ok.2 (.inl ⟨by decide, by decide⟩)
  exact validateCommand_takes rfl rfl hresolve (by decide +kernel)

theorem validated_stored_first : ∃ i a, twoTranscripts[i]? = some a ∧
    resolvedAt namesSprint.attachment sprintContext.attachments = some i ∧ storedAt a.meta twoTranscripts = some i := by
  have hmeta : sprintContext.attachments = twoTranscripts.map Attachment.meta := rfl
  have hexec := exec_ret (E := Env.calm) sprint_taken {}
  obtain ⟨i, a, ha, hresolved, -, hstored, -⟩ := validated_stored hmeta hexec rfl
  exact ⟨i, a, ha, hresolved, hstored⟩

/-- The command names a file that is attached twice, and nobody is asked which one is meant. -/
theorem first_taken : ¬ ∀ (cmd : ParsedCommand) (ctx : ValidationContext), Unguessed cmd ctx := by
  intro h
  have hexec := exec_ret (E := Env.calm) sprint_taken {}
  obtain ⟨m, hm, hone, -⟩ := (h namesSprint sprintContext _ _ _ _ _ hexec).1 _ rfl rfl
  obtain rfl := Option.some.inj hm
  revert hone
  decide

end

end GroupAssessmentAgent
