import GroupAssessmentAgent.Pipeline.OwnerMessage
import GroupAssessmentAgent.Pipeline.Ownership

/-!
# Senders who are not owners

The ledger knows a message by its Message-ID, whoever sent it. What a message does to the entry of an id is
`afterMessage`: nothing, if it has another id or is not let in; one more attempt, if it is an owner's (whose handling
raises); and the end, if it is a stranger's. A stranger gets the reply that he is not registered in the last case only,
and where his address is in the domain.
-/

namespace GroupAssessmentAgent
open Prog

section
variable [PyChars] (p : EmailProcessingPipeline)

/-- The sender is an owner. -/
def FromOwner (msg : EmailMessage) : Prop := (p.authOf msg).reason = .authorised

/-- The sender is not an owner, and in the domain. -/
def InDomain (msg : EmailMessage) : Prop := (p.authOf msg).reason = .unrecognisedInDomain

instance : DecidablePred (FromOwner p) := fun _ => inferInstanceAs (Decidable (_ = _))

instance : DecidablePred (InDomain p) := fun _ => inferInstanceAs (Decidable (_ = _))

/-- The reply to a sender who is not registered. -/
def NotRegisteredReply (msg : EmailMessage) (m : OutboxMessage) : Prop :=
  m.toEmail = (p.authOf msg).senderEmail ∧ (m.subject, m.bodyText) = renderUnrecognisedSender p.adminEmail ∧
    m.inReplyToMessageId = some msg.messageId ∧ m.attachments = []

/-- A mail to the admin's address. -/
def AdminMail (m : OutboxMessage) : Prop := some m.toEmail = truthy p.admin.adminEmail ∧ m.inReplyToMessageId = none

/-- The outcome of a stranger's message. -/
def strangerOutcome (msg : EmailMessage) : Text :=
  if InDomain p msg then "unrecognised_sender_replied" else "rejected_silently"

/-- What the poll of a message makes of the entry of its id. -/
def afterMessage (msg : EmailMessage) (e : Entry Text) : Entry Text :=
  if e.Admits maxProcessingAttempts then
    if FromOwner p msg then e.next
    else .closed (strangerOutcome p msg)
  else e

/-- What the poll of a message changes: the entry of its id, and mails, with a reply at most where it is let in. -/
structure Polled (msg : EmailMessage) (w w' : World) : Prop where
  entry : ∀ messageId, entryOf w' messageId =
    if messageId = msg.messageId then afterMessage p msg (entryOf w messageId) else entryOf w messageId
  mails : ∃ replies alerts, w'.outbox.rows = w.outbox.rows ++ replies ++ alerts ∧ (∀ m ∈ alerts, AdminMail p m) ∧
    (∀ m ∈ replies, NotRegisteredReply p msg m) ∧
      replies.length = if Admitted w msg.messageId ∧ InDomain p msg then 1 else 0

/-! ### One message -/

section
omit [PyChars]

theorem conclude_run (out : Outside) (msg : EmailMessage) {outcome : Text} (houtcome : outcome ≠ inProgress)
    (jobId operation : Option Text) (w : World) :
    ∃ w', (EmailProcessingPipeline.conclude out msg outcome jobId operation).run w = (.ok (), w') ∧
      w'.outbox = w.outbox ∧ entryOf w' msg.messageId = (entryOf w msg.messageId).close outcome := by
  refine ⟨_, rfl, rfl, ?_⟩
  have hafter := entryOf_finalize w.tick msg.messageId houtcome jobId operation (some (w.now out)) msg.messageId
  rw [if_pos rfl] at hafter
  exact hafter

end

variable (out : Outside)

omit [PyChars] in
theorem alert_run (category : AdminCategory) (summary : Text) (detail : List (Text × Text)) (w : World) :
    ∃ sent w', (p.admin.alert out category summary detail).run w = (.ok sent, w') ∧
      w'.processedMessages = w.processedMessages ∧ NewMails (AdminMail p) w w' := by
  unfold AdminNotifier.alert
  cases hadmin : truthy p.admin.adminEmail with
  | none => exact ⟨false, w, rfl, rfl, [], by simp, by simp⟩
  | some adminEmail =>
    have hdue : ∃ due n, (p.admin.shouldSend out category).run w = (.ok due, { w with ticks := n }) := by
      unfold AdminNotifier.shouldSend
      rw [bind_eq, run_bind_ok (run_observe _ _ w)]
      cases w.adminAlerts.find? category with
      | none => exact ⟨true, w.ticks, rfl⟩
      | some row => exact ⟨_, _, rfl⟩
    obtain ⟨due, n, hdue⟩ := hdue
    simp only [bind_eq]
    rw [run_bind_ok hdue]
    cases due with
    | false => exact ⟨false, _, rfl, rfl, [], by simp, by simp⟩
    | true =>
      refine ⟨true, _, rfl, rfl, [_], rfl, ?_⟩
      intro m hm
      rw [List.mem_singleton.1 hm]
      exact ⟨hadmin.symm, rfl⟩

theorem handleStranger_run (msg : EmailMessage) (w : World) :
    ∃ w', (p.handleStranger out msg (p.authOf msg)).run w = (.ok (), w') ∧
      entryOf w' msg.messageId = (entryOf w msg.messageId).close (strangerOutcome p msg) ∧
        ∃ replies alerts, w'.outbox.rows = w.outbox.rows ++ replies ++ alerts ∧ (∀ m ∈ alerts, AdminMail p m) ∧
          (∀ m ∈ replies, NotRegisteredReply p msg m) ∧ replies.length = if InDomain p msg then 1 else 0 := by
  -- the alert and the conclusion, after the reply if there is one
  have hrest : ∀ summary outcome (v : World), outcome ≠ inProgress →
      ∃ w', ((p.admin.alert out .unauthorisedSender summary []).bind fun _ =>
          EmailProcessingPipeline.conclude out msg outcome none none).run v = (.ok (), w') ∧
        entryOf w' msg.messageId = (entryOf v msg.messageId).close outcome ∧ NewMails (AdminMail p) v w' := by
    intro summary outcome v houtcome
    obtain ⟨sent, u, halert, hledger, hmails⟩ := alert_run p out .unauthorisedSender summary [] v
    obtain ⟨w', hconclude, houtbox, hentry⟩ := conclude_run out msg houtcome none none u
    refine ⟨w', (run_bind_ok halert).trans hconclude, ?_, ?_⟩
    · rw [hentry, entryOf, hledger, entryOf]
    · rwa [NewMails, houtbox]
  unfold EmailProcessingPipeline.handleStranger
  by_cases hdomain : InDomain p msg
  · have hreason : (p.authOf msg).reason = .unrecognisedInDomain := hdomain
    rw [if_pos hreason, strangerOutcome, if_pos hdomain, if_pos hdomain]
    obtain ⟨w', hrun, hentry, alerts, hrows, halerts⟩ := hrest
      (cat ["Unrecognised in-domain sender attempted to use the system: ", (p.authOf msg).senderEmail])
      "unrecognised_sender_replied"
      ((EmailProcessingPipeline.replyTo out msg (p.authOf msg).senderEmail (renderUnrecognisedSender p.adminEmail)
        none).run w).2 (by decide)
    refine ⟨w', (run_bind_ok rfl).trans hrun, hentry, [_], alerts, hrows, halerts, ?_, rfl⟩
    intro m hm
    rw [List.mem_singleton.1 hm]
    exact ⟨rfl, rfl, rfl, rfl⟩
  · have hreason : (p.authOf msg).reason ≠ .unrecognisedInDomain := hdomain
    rw [if_neg hreason, strangerOutcome, if_neg hdomain, if_neg hdomain]
    obtain ⟨w', hrun, hentry, alerts, hrows, halerts⟩ := hrest
      (cat ["Rejected sender (", (p.authOf msg).reason.value, "): ", msg.fromAddress]) "rejected_silently" w (by decide)
    exact ⟨w', hrun, hentry, [], alerts, by simpa using hrows, halerts, by simp, rfl⟩

theorem processMessage_elsewhere {msg : EmailMessage} {messageId : Text} (hne : messageId ≠ msg.messageId) :
    Keeps (fun w => entryOf w messageId) (p.processMessage out msg) := by
  have hφ := (overlooks_entryOf messageId).covers
  have hmarks := coversMarks_entryOf messageId
  refine (begin_always hφ out hmarks.toCoversLedger hne _ _).bind fun fresh => ?_
  split_ifs
  · exact markProcessed_always hmarks _
  · trivial
  · exact handleStranger_always hφ out hmarks msg hne p _ (fun _ _ _ => trivial) fun _ _ _ => trivial

theorem not_inDomain_of_owner {msg : EmailMessage} (h : FromOwner p msg) : ¬ InDomain p msg := by
  intro hdomain
  cases Eq.trans (Eq.symm h) hdomain

theorem begin_polled (msg : EmailMessage) (w : World) :
    ∃ w₁, (ProcessedMessageStore.begin out msg.messageId (orText (p.authOf msg).senderEmail msg.fromAddress)
        (p.authOf msg).reason.value).run w = (.ok (decide (Admitted w msg.messageId)), w₁) ∧
      (entryOf w₁ msg.messageId =
        if Admitted w msg.messageId then (entryOf w msg.messageId).next else entryOf w msg.messageId) ∧
      w₁.outbox = w.outbox := by
  obtain ⟨w₁, hbegin, hentry⟩ := begin_run out msg.messageId (orText (p.authOf msg).senderEmail msg.fromAddress)
    (p.authOf msg).reason.value w
  have hkeeps : Keeps jobsAndOutbox (ProcessedMessageStore.begin out msg.messageId
      (orText (p.authOf msg).senderEmail msg.fromAddress) (p.authOf msg).reason.value) :=
    begin_always covers_jobsAndOutbox out (coversLedger_of_overlooks fun _ _ => rfl) trivial _ _
  have hsame := hkeeps.run w
  rw [hbegin] at hsame
  exact ⟨w₁, hbegin, hentry, congrArg Prod.snd hsame⟩

/-- What the poll of a message makes of its own entry, and of the outbox. -/
def PolledOwn (msg : EmailMessage) (w w' : World) : Prop :=
  entryOf w' msg.messageId = afterMessage p msg (entryOf w msg.messageId) ∧
    ∃ replies alerts, w'.outbox.rows = w.outbox.rows ++ replies ++ alerts ∧ (∀ m ∈ alerts, AdminMail p m) ∧
      (∀ m ∈ replies, NotRegisteredReply p msg m) ∧
        replies.length = if Admitted w msg.messageId ∧ InDomain p msg then 1 else 0

theorem polledOwn_silent {msg : EmailMessage} {w w' : World}
    (hentry : entryOf w' msg.messageId = afterMessage p msg (entryOf w msg.messageId)) (houtbox : w'.outbox = w.outbox)
    (hdue : ¬ (Admitted w msg.messageId ∧ InDomain p msg)) : PolledOwn p msg w w' := by
  refine ⟨hentry, [], [], ?_, by simp, by simp, ?_⟩
  · simp [houtbox]
  · rw [if_neg hdue]
    rfl

theorem refused_polled {msg : EmailMessage} {w : World} (hrefused : ¬ Admitted w msg.messageId) :
    PolledOwn p msg w ((p.processMessage out msg).run w).2 := by
  obtain ⟨w₁, hbegin, hentry, houtbox⟩ := begin_polled p out msg w
  rw [decide_eq_false hrefused] at hbegin
  rw [if_neg hrefused] at hentry
  rw [EmailProcessingPipeline.processMessage, EmailProcessingPipeline.processMessageWith, bind_eq, run_bind_ok hbegin]
  refine polledOwn_silent p ?_ houtbox fun h => hrefused h.1
  rw [afterMessage, if_neg hrefused]
  exact hentry

/-- The handling of an owner's message raises at once. -/
theorem owner_polled {msg : EmailMessage} {w : World} (hadmitted : Admitted w msg.messageId)
    (howner : FromOwner p msg) : PolledOwn p msg w ((p.processMessage out msg).run w).2 := by
  obtain ⟨w₁, hbegin, hentry, houtbox⟩ := begin_polled p out msg w
  rw [decide_eq_true hadmitted] at hbegin
  rw [if_pos hadmitted] at hentry
  have hreason : (p.authOf msg).reason = .authorised := howner
  rw [EmailProcessingPipeline.processMessage, EmailProcessingPipeline.processMessageWith, bind_eq, run_bind_ok hbegin]
  simp only [Bool.not_true, Bool.false_eq_true, if_false, if_pos hreason]
  rw [EmailProcessingPipeline.handleOwner, bind_eq, run_bind_error (matchReport_run msg _ w₁)]
  refine polledOwn_silent p ?_ houtbox fun h => not_inDomain_of_owner p howner h.2
  rw [afterMessage, if_pos hadmitted, if_pos howner]
  exact hentry

theorem stranger_polled {msg : EmailMessage} {w : World} (hadmitted : Admitted w msg.messageId)
    (hstranger : ¬ FromOwner p msg) : PolledOwn p msg w ((p.processMessage out msg).run w).2 := by
  obtain ⟨w₁, hbegin, hentry, houtbox⟩ := begin_polled p out msg w
  rw [decide_eq_true hadmitted] at hbegin
  rw [if_pos hadmitted] at hentry
  have hreason : (p.authOf msg).reason ≠ .authorised := hstranger
  obtain ⟨w', hrun, hclosed, replies, alerts, hrows, halerts, hreplies, hlength⟩ := handleStranger_run p out msg w₁
  rw [EmailProcessingPipeline.processMessage, EmailProcessingPipeline.processMessageWith, bind_eq, run_bind_ok hbegin]
  simp only [Bool.not_true, Bool.false_eq_true, if_false, if_neg hreason]
  rw [hrun]
  refine ⟨?_, replies, alerts, ?_, halerts, hreplies, ?_⟩
  · show entryOf w' msg.messageId = _
    rw [hclosed, hentry, Entry.close_of_ne (Entry.next_ne_unseen _), afterMessage, if_pos hadmitted, if_neg hstranger]
  · rw [← houtbox]
    exact hrows
  · rw [hlength]
    exact if_congr ⟨fun h => ⟨hadmitted, h⟩, fun h => h.2⟩ rfl rfl

theorem processMessage_polled (msg : EmailMessage) (w : World) :
    Polled p msg w ((p.processMessage out msg).run w).2 := by
  have hown : PolledOwn p msg w ((p.processMessage out msg).run w).2 := by
    by_cases hadmitted : Admitted w msg.messageId
    · by_cases howner : FromOwner p msg
      · exact owner_polled p out hadmitted howner
      · exact stranger_polled p out hadmitted howner
    · exact refused_polled p out hadmitted
  obtain ⟨hself, hmails⟩ := hown
  refine ⟨fun messageId => ?_, hmails⟩
  split_ifs with hid
  · rw [hid]
    exact hself
  · exact (processMessage_elsewhere p out hid).run w

/-! ### Many messages -/

/-- The messages that carry the id. -/
def withId (messageId : Text) (msgs : List EmailMessage) : List EmailMessage :=
  msgs.filter fun msg => msg.messageId = messageId

/-- What the polls of the messages make of an entry. -/
def afterMessages (msgs : List EmailMessage) (e : Entry Text) : Entry Text :=
  msgs.foldl (fun e msg => afterMessage p msg e) e

/-- How many of them are let in, and get the reply. -/
def repliesDue : List EmailMessage → Entry Text → Nat
  | [], _ => 0
  | msg :: msgs, e =>
    (if e.Admits maxProcessingAttempts ∧ InDomain p msg then 1 else 0) + repliesDue msgs (afterMessage p msg e)

/-- The replies of a Message-ID in the outbox. -/
def repliesTo (w : World) (messageId : Text) : Nat :=
  w.outbox.rows.countP fun m => m.inReplyToMessageId = some messageId ∧
    (m.subject, m.bodyText) = renderUnrecognisedSender p.adminEmail

omit [PyChars] in
theorem withId_cons (messageId : Text) (msg : EmailMessage) (msgs : List EmailMessage) :
    withId messageId (msg :: msgs) =
      if messageId = msg.messageId then msg :: withId messageId msgs else withId messageId msgs := by
  rw [withId, List.filter_cons]
  split_ifs with h h' h'
  · rfl
  · exact absurd (of_decide_eq_true h).symm h'
  · exact absurd (decide_eq_true h'.symm) h
  · rfl

theorem processAll_cons (msg : EmailMessage) (msgs : List EmailMessage) (w : World) :
    ((p.processAllWith out EmailProcessingPipeline.matchReport (msg :: msgs)).run w).2 =
      ((p.processAllWith out EmailProcessingPipeline.matchReport msgs).run ((p.processMessage out msg).run w).2).2 := by
  rw [EmailProcessingPipeline.processAllWith, bind_eq, run_bind, tryCatch_eq, run_tryCatch,
    EmailProcessingPipeline.processMessage]
  generalize (p.processMessageWith out EmailProcessingPipeline.matchReport msg).run w = c
  obtain ⟨x, w'⟩ := c
  cases x with
  | ok _ => rfl
  | error _ => rfl

theorem processAll_entry (msgs : List EmailMessage) (messageId : Text) (w : World) :
    entryOf ((p.processAllWith out EmailProcessingPipeline.matchReport msgs).run w).2 messageId =
      afterMessages p (withId messageId msgs) (entryOf w messageId) := by
  induction msgs generalizing w with
  | nil => rfl
  | cons msg msgs ih =>
    rw [processAll_cons, ih, (processMessage_polled p out msg w).entry, withId_cons]
    split_ifs
    · rfl
    · rfl

theorem processMessage_replies (msg : EmailMessage) (messageId : Text) (w : World) :
    repliesTo p ((p.processMessage out msg).run w).2 messageId = repliesTo p w messageId +
      if messageId = msg.messageId ∧ Admitted w messageId ∧ InDomain p msg then 1 else 0 := by
  obtain ⟨replies, alerts, hrows, halerts, hreplies, hlength⟩ := (processMessage_polled p out msg w).mails
  have hnone : alerts.countP (fun m => decide (m.inReplyToMessageId = some messageId ∧
      (m.subject, m.bodyText) = renderUnrecognisedSender p.adminEmail)) = 0 := by
    rw [List.countP_eq_zero]
    intro m hm
    simp [(halerts m hm).2]
  rw [repliesTo, hrows, List.countP_append, List.countP_append, hnone, Nat.add_zero, repliesTo,
    Nat.add_left_cancel_iff]
  by_cases hid : messageId = msg.messageId
  · subst hid
    rw [List.countP_eq_length.2 fun m hm => by simp [(hreplies m hm).2.1, (hreplies m hm).2.2.1], hlength]
    exact if_congr (by simp) rfl rfl
  · rw [if_neg fun h => hid h.1, List.countP_eq_zero]
    intro m hm
    simp [(hreplies m hm).2.2.1, Ne.symm hid]

theorem processAll_replies (msgs : List EmailMessage) (messageId : Text) (w : World) :
    repliesTo p ((p.processAllWith out EmailProcessingPipeline.matchReport msgs).run w).2 messageId =
      repliesTo p w messageId + repliesDue p (withId messageId msgs) (entryOf w messageId) := by
  induction msgs generalizing w with
  | nil => rfl
  | cons msg msgs ih =>
    rw [processAll_cons, ih, processMessage_replies, (processMessage_polled p out msg w).entry, withId_cons]
    by_cases hid : messageId = msg.messageId
    · simp only [hid, true_and, if_true, repliesDue, Nat.add_assoc]
    · simp only [hid, false_and, if_false, Nat.add_zero]

theorem afterMessages_refused (msgs : List EmailMessage) {e : Entry Text} (he : ¬ e.Admits maxProcessingAttempts) :
    afterMessages p msgs e = e := by
  induction msgs with
  | nil => rfl
  | cons msg msgs ih =>
    show afterMessages p msgs (afterMessage p msg e) = e
    rw [afterMessage, if_neg he]
    exact ih

theorem repliesDue_refused (msgs : List EmailMessage) {e : Entry Text} (he : ¬ e.Admits maxProcessingAttempts) :
    repliesDue p msgs e = 0 := by
  induction msgs with
  | nil => rfl
  | cons msg msgs ih =>
    rw [repliesDue, if_neg fun h => he h.1, afterMessage, if_neg he, ih]

theorem repliesDue_none {msgs : List EmailMessage} (h : ∀ msg ∈ msgs, ¬ InDomain p msg) (e : Entry Text) :
    repliesDue p msgs e = 0 := by
  induction msgs generalizing e with
  | nil => rfl
  | cons msg msgs ih =>
    rw [repliesDue, if_neg fun hdue => h msg List.mem_cons_self hdue.2, Nat.zero_add]
    exact ih (fun m hm => h m (List.mem_cons_of_mem _ hm)) _

/-- The first of the messages that is not an owner's comes from the domain, and the owners' messages before it, with `n`
more, have left an attempt. -/
def InDomainFirst (n : Nat) (msgs : List EmailMessage) : Prop :=
  ∃ owners msg rest, msgs = owners ++ msg :: rest ∧ (∀ m ∈ owners, FromOwner p m) ∧ InDomain p msg ∧
    n + owners.length < maxProcessingAttempts

theorem inDomainFirst_owner {n : Nat} {msg : EmailMessage} (msgs : List EmailMessage) (howner : FromOwner p msg) :
    InDomainFirst p n (msg :: msgs) ↔ InDomainFirst p (n + 1) msgs := by
  constructor
  · rintro ⟨owners, first, rest, heq, howners, hdomain, hlt⟩
    cases owners with
    | nil =>
      obtain ⟨rfl, rfl⟩ := List.cons.inj heq
      exact absurd hdomain (not_inDomain_of_owner p howner)
    | cons o owners =>
      obtain ⟨rfl, rfl⟩ := List.cons.inj heq
      refine ⟨owners, first, rest, rfl, fun m hm => howners m (List.mem_cons_of_mem _ hm), hdomain, ?_⟩
      simp only [List.length_cons] at hlt
      omega
  · rintro ⟨owners, first, rest, rfl, howners, hdomain, hlt⟩
    refine ⟨msg :: owners, first, rest, rfl, ?_, hdomain, ?_⟩
    · intro m hm
      rcases List.mem_cons.1 hm with rfl | hm
      · exact howner
      · exact howners m hm
    · simp only [List.length_cons]
      omega

theorem inDomainFirst_stranger {n : Nat} {msg : EmailMessage} (msgs : List EmailMessage) (howner : ¬ FromOwner p msg) :
    InDomainFirst p n (msg :: msgs) ↔ InDomain p msg ∧ n < maxProcessingAttempts := by
  constructor
  · rintro ⟨owners, first, rest, heq, howners, hdomain, hlt⟩
    cases owners with
    | nil =>
      obtain ⟨rfl, rfl⟩ := List.cons.inj heq
      exact ⟨hdomain, hlt⟩
    | cons o owners =>
      obtain ⟨rfl, rfl⟩ := List.cons.inj heq
      exact absurd (howners _ List.mem_cons_self) howner
  · rintro ⟨hdomain, hlt⟩
    exact ⟨[], msg, msgs, rfl, by simp, hdomain, hlt⟩

theorem repliesDue_iff (msgs : List EmailMessage) {e : Entry Text} {n : Nat} (he : e.Tried n) :
    repliesDue p msgs e = 1 ↔ InDomainFirst p n msgs := by
  induction msgs generalizing e n with
  | nil =>
    constructor
    · intro h
      cases h
    · rintro ⟨owners, first, rest, heq, _⟩
      simp at heq
  | cons msg msgs ih =>
    have hadmits : e.Admits maxProcessingAttempts ↔ n < maxProcessingAttempts := he.admits_iff (by decide)
    by_cases hlt : n < maxProcessingAttempts
    · have hin : e.Admits maxProcessingAttempts := hadmits.2 hlt
      by_cases howner : FromOwner p msg
      · have hdomain := not_inDomain_of_owner p howner
        rw [repliesDue, if_neg fun h => hdomain h.2, Nat.zero_add, afterMessage, if_pos hin, if_pos howner, ih he.next,
          inDomainFirst_owner p msgs howner]
      · have hclosed : ¬ (Entry.closed (strangerOutcome p msg)).Admits maxProcessingAttempts := id
        rw [repliesDue, afterMessage, if_pos hin, if_neg howner, repliesDue_refused p msgs hclosed,
          inDomainFirst_stranger p msgs howner]
        by_cases hdomain : InDomain p msg
        · simp [hin, hdomain, hlt]
        · simp [hdomain]
    · have hout : ¬ e.Admits maxProcessingAttempts := fun h => hlt (hadmits.1 h)
      rw [repliesDue_refused p (msg :: msgs) hout]
      constructor
      · intro h
        cases h
      · rintro ⟨owners, first, rest, _, _, _, hless⟩
        omega

/-! ### The first message of an owner -/

/-- A message of an owner that is new, with none of an owner's under its id among those before it. -/
structure FirstOfOwner (before : List EmailMessage) (msg : EmailMessage) (w : World) : Prop where
  owner : FromOwner p msg
  strangers : ∀ m ∈ before, m.messageId = msg.messageId → ¬ FromOwner p m
  unseen : entryOf w msg.messageId = .unseen

/-- After the polls of the messages before it, `begin` returns True for the message. -/
def LetIn (before : List EmailMessage) (msg : EmailMessage) (w : World) : Prop :=
  ((ProcessedMessageStore.begin out msg.messageId (orText (p.authOf msg).senderEmail msg.fromAddress)
    (p.authOf msg).reason.value).run
      ((p.processAllWith out EmailProcessingPipeline.matchReport before).run w).2).1 = .ok true

theorem letIn_eq (before : List EmailMessage) (msg : EmailMessage) (w : World) :
    LetIn p out before msg w ↔
      (afterMessages p (withId msg.messageId before) (entryOf w msg.messageId)).Admits maxProcessingAttempts := by
  obtain ⟨w', hbegin, _⟩ := begin_run out msg.messageId (orText (p.authOf msg).senderEmail msg.fromAddress)
    (p.authOf msg).reason.value ((p.processAllWith out EmailProcessingPipeline.matchReport before).run w).2
  rw [LetIn, hbegin, ← processAll_entry p out]
  simp

/-- **An owner's first message is let in exactly where no message before it carries its Message-ID.** -/
theorem letIn_iff (before : List EmailMessage) (msg : EmailMessage) (w : World) (h : FirstOfOwner p before msg w) :
    LetIn p out before msg w ↔ ∀ m ∈ before, m.messageId ≠ msg.messageId := by
  rw [letIn_eq, h.unseen]
  constructor
  · intro hadmits m hm hid
    have hmem : m ∈ withId msg.messageId before := List.mem_filter.2 ⟨hm, decide_eq_true hid⟩
    have hstrangers : ∀ m ∈ withId msg.messageId before, ¬ FromOwner p m := by
      intro m' hm'
      obtain ⟨hmem', hid'⟩ := List.mem_filter.1 hm'
      exact h.strangers m' hmem' (of_decide_eq_true hid')
    -- the first of them has closed the entry
    cases hfirst : withId msg.messageId before with
    | nil => simp [hfirst] at hmem
    | cons first rest =>
      rw [hfirst] at hadmits hstrangers
      have hnew : (Entry.unseen : Entry Text).Admits maxProcessingAttempts := trivial
      have hclose : afterMessage p first .unseen = .closed (strangerOutcome p first) := by
        rw [afterMessage, if_pos hnew, if_neg (hstrangers first List.mem_cons_self)]
      have hclosed : ¬ (Entry.closed (strangerOutcome p first)).Admits maxProcessingAttempts := id
      have hend : afterMessages p (first :: rest) .unseen = .closed (strangerOutcome p first) := by
        show afterMessages p rest (afterMessage p first .unseen) = _
        rw [hclose, afterMessages_refused p rest hclosed]
      rw [hend] at hadmits
      exact hadmits
  · intro hother
    have hnone : withId msg.messageId before = [] := by
      refine List.filter_eq_nil_iff.2 fun m hm => ?_
      simpa using hother m hm
    rw [hnone]
    trivial

/-! ### The replies to strangers -/

/-- The tables that strangers have nothing to do with. -/
def strangerTables (w : World) :
    Table Job.jobId × Table PendingClarification.jobId × Table WeeklyReport.reportId × MessageLinks :=
  (w.jobs, w.pendingClarifications, w.weeklyReports, w.messageLinks)

/-- What handling a stranger's message leaves alone. -/
structure LeavesAlone (msg : EmailMessage) (w : World) : Prop where
  model : ∀ l ∈ (p.processMessage out msg).trace w, l ≠ .ollama ∧ l ≠ .generate
  tables : strangerTables ((p.processMessage out msg).run w).2 = strangerTables w
  mails : NewMails (fun m => InDomain p msg ∧ NotRegisteredReply p msg m ∨ AdminMail p m) w
    ((p.processMessage out msg).run w).2

/-- One reply for each Message-ID that a message from the domain carries. -/
def OneReplyEach (msgs : List EmailMessage) (w w' : World) : Prop :=
  ∀ messageId, repliesTo p w' messageId = repliesTo p w messageId +
    if ∃ msg ∈ msgs, msg.messageId = messageId ∧ InDomain p msg then 1 else 0

/-- What strangers may expect of a run of polls. -/
structure StrangersServed (msgs : List EmailMessage) (w : World) : Prop where
  quiet : ∀ msg ∈ msgs, ¬ FromOwner p msg → ∀ v, LeavesAlone p out msg v
  replies : OneReplyEach p msgs w ((p.processAllWith out EmailProcessingPipeline.matchReport msgs).run w).2

/-- For each Message-ID that a message from the domain carries, the first of the strangers' messages comes from
there. -/
def Answerable (msgs : List EmailMessage) : Prop :=
  ∀ msg ∈ msgs, InDomain p msg → InDomainFirst p 0 (withId msg.messageId msgs)

/-- A statement that neither asks the model nor writes those tables. -/
def Aloof (l : Stmt) (f : World → World) : Prop :=
  (l ≠ .ollama ∧ l ≠ .generate) ∧ ∀ w, strangerTables (f w) = strangerTables w

omit [PyChars] in
theorem covers_aloof : Covers Aloof (fun _ => False) fun _ => True where
  look _ hl := ⟨⟨fun h => by simp [h, Stmt.looks] at hl, fun h => by simp [h, Stmt.looks] at hl⟩, fun _ => rfl⟩
  ask _ := ⟨by decide, fun _ => rfl⟩
  tick := ⟨by decide, fun _ => rfl⟩
  job _ _ h := h.elim
  status _ _ _ _ h := h.elim
  outbox _ _ _ := ⟨by decide, fun _ => rfl⟩
  put _ h := h.elim
  delete _ h := h.elim
  alert _ := ⟨by decide, fun _ => rfl⟩
  files l f hl hf := by
    refine ⟨by rcases hl with rfl | rfl <;> decide, fun w => ?_⟩
    obtain ⟨t, n, h⟩ := hf w
    rw [h]
    rfl

omit [PyChars] in
theorem coversMarks_aloof : CoversMarks Aloof fun _ => True := by
  refine ⟨⟨fun _ f _ hf => ⟨by simp, fun w => ?_⟩, fun _ f _ hf => ⟨by simp, fun w => ?_⟩⟩,
    fun _ => ⟨by simp, fun _ => rfl⟩⟩
  · obtain ⟨t, h, _⟩ := hf w
    rw [h]
    rfl
  · obtain ⟨t, h, _⟩ := hf w
    rw [h]
    rfl

theorem processMessage_aloof {msg : EmailMessage} (howner : ¬ FromOwner p msg) :
    Always Aloof (p.processMessage out msg) := by
  refine (begin_always covers_aloof out coversMarks_aloof.toCoversLedger trivial _ _).bind fun fresh => ?_
  split_ifs with _ hreason
  · exact markProcessed_always coversMarks_aloof _
  · exact absurd hreason howner
  · exact handleStranger_always covers_aloof out coversMarks_aloof msg trivial p _ (fun _ _ _ => trivial)
      fun _ _ _ => trivial

theorem processMessage_leavesAlone {msg : EmailMessage} (howner : ¬ FromOwner p msg) (w : World) :
    LeavesAlone p out msg w := by
  have haloof := processMessage_aloof p out howner
  refine ⟨haloof.trace (fun _ _ h => h.1) w, ?_, ?_⟩
  · have hkeeps : Keeps strangerTables (p.processMessage out msg) := haloof.mono fun _ _ h => h.2
    exact hkeeps.run w
  · obtain ⟨replies, alerts, hrows, halerts, hreplies, hlength⟩ := (processMessage_polled p out msg w).mails
    refine ⟨replies ++ alerts, by rw [hrows, List.append_assoc], fun m hm => ?_⟩
    rcases List.mem_append.1 hm with hm | hm
    · refine .inl ⟨?_, hreplies m hm⟩
      by_contra hdomain
      rw [if_neg fun h => hdomain h.2, List.length_eq_zero_iff] at hlength
      simp [hlength] at hm
    · exact .inr (halerts m hm)

/-- **Strangers are served as they may expect** exactly where the first of them under each Message-ID can be
answered. -/
theorem strangersServed_iff (msgs : List EmailMessage) (w : World)
    (hstart : ∀ msg ∈ msgs, entryOf w msg.messageId = .unseen) :
    StrangersServed p out msgs w ↔ Answerable p msgs := by
  have hdue : ∀ msg ∈ msgs, repliesDue p (withId msg.messageId msgs) (entryOf w msg.messageId) = 1 ↔
      InDomainFirst p 0 (withId msg.messageId msgs) := by
    intro msg hmsg
    rw [hstart msg hmsg]
    exact repliesDue_iff p _ rfl
  constructor
  · intro h msg hmsg hdomain
    have hreplies := h.replies msg.messageId
    rw [processAll_replies, Nat.add_left_cancel_iff, if_pos ⟨msg, hmsg, rfl, hdomain⟩] at hreplies
    exact (hdue msg hmsg).1 hreplies
  · intro h
    refine ⟨fun msg _ howner v => processMessage_leavesAlone p out howner v, fun messageId => ?_⟩
    rw [processAll_replies, Nat.add_left_cancel_iff]
    split_ifs with hsome
    · obtain ⟨msg, hmsg, rfl, hdomain⟩ := hsome
      exact (hdue msg hmsg).2 (h msg hmsg hdomain)
    · refine repliesDue_none p (fun msg hmem hdomain => hsome ?_) _
      obtain ⟨hmsg, hid⟩ := List.mem_filter.1 hmem
      exact ⟨msg, hmsg, of_decide_eq_true hid, hdomain⟩

end

section
attribute [local instance] asciiChars

/-- A message from outside, under an id of the sender's choice. -/
def eveMessage (messageId : Text) : EmailMessage :=
  { messageId, providerRef := "7", fromAddress := "eve@evil.org", subject := "Hello", bodyText := "Hello",
    receivedAt := "2026-08-11T00:00:00+00:00" }

/-- A message of somebody in the domain who is not registered. -/
def bobMessage : EmailMessage :=
  { messageId := "<8@uni.ac.uk>", providerRef := "8", fromAddress := "bob@uni.ac.uk", subject := "Hello",
    bodyText := "Hello", receivedAt := "2026-08-11T00:00:00+00:00", authSignals := { dmarc := some "pass" } }

theorem letIn_otherId : LetIn smallPipeline .plain [eveMessage "<7@evil.org>"] aliceMessage {} :=
  (letIn_iff smallPipeline .plain [eveMessage "<7@evil.org>"] aliceMessage {}
    ⟨by decide +kernel, by decide +kernel, rfl⟩).2 (by decide +kernel)

/-- A rejected message takes the id of an owner's message that is still on its way. -/
theorem suppressed : ¬ ∀ (p : EmailProcessingPipeline) (out : Outside) (before : List EmailMessage) (msg : EmailMessage)
    (w : World), FirstOfOwner p before msg w → LetIn p out before msg w := by
  intro h
  have hlet := h smallPipeline .plain [eveMessage "<1@uni.ac.uk>"] aliceMessage {}
    ⟨by decide +kernel, by decide +kernel, rfl⟩
  rw [letIn_eq] at hlet
  exact absurd hlet (by decide +kernel)

theorem served_bob : StrangersServed smallPipeline .plain [bobMessage] {} :=
  (strangersServed_iff smallPipeline .plain [bobMessage] {} (by simp [entryOf, Table.find?, Table.empty])).2 (by
    intro msg hmsg hdomain
    obtain rfl := List.mem_singleton.1 hmsg
    exact ⟨[], bobMessage, [], by decide +kernel, by simp, hdomain, by decide⟩)

/-- After a rejected message with his id, bob gets no reply. -/
theorem unserved : ¬ ∀ (p : EmailProcessingPipeline) (out : Outside) (msgs : List EmailMessage) (w : World),
    (∀ msg ∈ msgs, entryOf w msg.messageId = .unseen) → StrangersServed p out msgs w := by
  intro h
  have hreplies := (h smallPipeline .plain [eveMessage "<8@uni.ac.uk>", bobMessage] {}
    (by simp [entryOf, Table.find?, Table.empty])).replies "<8@uni.ac.uk>"
  rw [processAll_replies] at hreplies
  exact absurd hreplies (by decide +kernel)

end

end GroupAssessmentAgent
