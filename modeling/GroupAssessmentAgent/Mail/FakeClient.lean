import GroupAssessmentAgent.Mail.ImapClient

/-!
# The two mail clients

`MailClient.fetch_new_messages` promises unread messages, oldest first. `FakeMailClient` keeps the promise: it takes
the first `limit` of the unseen messages. `ImapMailClient` takes the last `limit` of the unseen ids and goes through
them from the newest, so the two agree exactly if there is at most one unread message (`fetch_agrees_iff`).
-/

namespace GroupAssessmentAgent

/-- `FakeMailClient`, as far as fetching goes: its messages in the order of arrival, and the references of those that
have been handled. -/
structure FakeMailClient where
  inbox : List EmailMessage := []
  processedRefs : List Text := []

namespace FakeMailClient

def unseen (client : FakeMailClient) : List EmailMessage :=
  client.inbox.filter fun m => !client.processedRefs.contains m.providerRef

def fetchNewMessages (client : FakeMailClient) (limit : Nat) : List EmailMessage := client.unseen.take limit

end FakeMailClient

/-! ### The newest against the oldest -/

theorem window_of_pos {α : Type} {limit : Nat} (hlimit : 1 ≤ limit) (ids : List α) :
    window limit ids = (ids.drop (ids.length - limit)).reverse := by
  rw [window, if_neg (Nat.ne_of_gt hlimit)]

theorem head?_window {α : Type} {limit : Nat} (hlimit : 1 ≤ limit) (ids : List α) :
    (window limit ids).head? = ids.getLast? := by
  rw [window_of_pos hlimit, List.head?_reverse, List.getLast?_drop]
  split_ifs with hlen
  · have hnil : ids = [] := List.length_eq_zero_iff.1 (by omega)
    rw [hnil, List.getLast?_nil]
  · rfl

theorem getLast?_ne_head? {α : Type} {ids : List α} (hdistinct : ids.Nodup) (hlen : 2 ≤ ids.length) :
    ids.getLast? ≠ ids.head? := by
  match ids with
  | x :: y :: rest =>
    intro he
    rw [List.getLast?_cons_cons, List.head?_cons] at he
    exact (List.nodup_cons.1 hdistinct).1 (List.mem_of_getLast? he)

theorem window_eq_take_iff {α : Type} {limit : Nat} (hlimit : 1 ≤ limit) {ids : List α} (hdistinct : ids.Nodup) :
    window limit ids = ids.take limit ↔ ids.length ≤ 1 := by
  constructor
  · intro h
    by_contra hlen
    refine getLast?_ne_head? hdistinct (by omega) ?_
    rw [← head?_window hlimit, h, List.head?_take, if_neg (Nat.ne_of_gt hlimit)]
  · intro hlen
    match ids with
    | [] => simp [window]
    | [x] =>
      have hkept : [x].take limit = [x] := List.take_of_length_le hlimit
      rw [window_of_pos hlimit, hkept, List.length_singleton, Nat.sub_eq_zero_of_le hlimit]
      rfl

/-! ### Fetching -/

section
variable [PyChars] {out : Outside} {now : Datetime}

/-- The server answers the fetch of the id, with a message that is converted into `msg`. -/
def Fetches (out : Outside) (now : Datetime) (u : Unseen) (msg : EmailMessage) : Prop :=
  ∃ raw, u.data = some raw ∧ toEmailMessage out now raw u.ref = .ok msg

theorem Fetches.providerRef {u : Unseen} {msg : EmailMessage} (h : Fetches out now u msg) :
    msg.providerRef = u.ref := by
  obtain ⟨raw, -, hmsg⟩ := h
  rw [toEmailMessage] at hmsg
  cases hbody : extractBodyText out raw with
  | error e =>
    rw [hbody] at hmsg
    cases hmsg
  | ok body =>
    rw [hbody] at hmsg
    cases hmsg
    rfl

theorem convertAll_fetches {us : List Unseen} {msgs : List EmailMessage}
    (h : List.Forall₂ (Fetches out now) us msgs) : convertAll out now us = .ok msgs := by
  induction h with
  | nil => rfl
  | cons hfetch _ ih =>
    obtain ⟨raw, hdata, hmsg⟩ := hfetch
    rw [convertAll, hdata]
    simp only [hmsg, ih]
    rfl

theorem refs_of_fetches {us : List Unseen} {msgs : List EmailMessage}
    (h : List.Forall₂ (Fetches out now) us msgs) : msgs.map EmailMessage.providerRef = us.map Unseen.ref := by
  induction h with
  | nil => rfl
  | cons hfetch _ ih => rw [List.map_cons, List.map_cons, hfetch.providerRef, ih]

theorem fetchNewMessages_window (limit : Nat) {unseen : List Unseen} {msgs : List EmailMessage}
    (h : List.Forall₂ (Fetches out now) unseen msgs) :
    fetchNewMessages out now limit unseen = .ok (window limit msgs) := by
  rw [fetchNewMessages]
  refine convertAll_fetches ?_
  rw [window, window]
  refine List.rel_reverse ?_
  split_ifs
  · exact h
  · rw [h.length_eq]
    exact List.forall₂_drop _ h

/-- **The two clients agree**, and the IMAP client returns the oldest messages first, exactly if there is at most one
unread message. -/
theorem fetch_agrees_iff {limit : Nat} (hlimit : 1 ≤ limit) {unseen : List Unseen} {msgs : List EmailMessage}
    (hfetches : List.Forall₂ (Fetches out now) unseen msgs) (hids : (unseen.map Unseen.ref).Nodup)
    (fake : FakeMailClient) (hfake : fake.unseen = msgs) :
    fake.fetchNewMessages limit = msgs.take limit ∧
      (fetchNewMessages out now limit unseen = .ok (fake.fetchNewMessages limit) ↔ unseen.length ≤ 1) := by
  have hfakeFetch : fake.fetchNewMessages limit = msgs.take limit := by rw [FakeMailClient.fetchNewMessages, hfake]
  have hdistinct : msgs.Nodup := List.Nodup.of_map EmailMessage.providerRef (refs_of_fetches hfetches ▸ hids)
  refine ⟨hfakeFetch, ?_⟩
  rw [fetchNewMessages_window limit hfetches, hfakeFetch, Except.ok.injEq, window_eq_take_iff hlimit hdistinct,
    hfetches.length_eq]

end

section
attribute [local instance] asciiChars

/-- A command of the owner, as the server and as the fake hold it. -/
def rawCommand (subject : Text) : RawMessage where
  headers := [("From", "alice@uni.ac.uk"), ("Subject", subject)]
  root := {}

def fetchedCommand (ref subject : Text) : EmailMessage where
  messageId := ref
  providerRef := ref
  fromAddress := "alice@uni.ac.uk"
  subject := subject
  bodyText := []
  receivedAt := "2026-08-11T09:00:00+00:00"
  references := none

theorem fetches_command (ref subject : Text) :
    Fetches .plain "2026-08-11T09:00:00+00:00" ⟨ref, some (rawCommand subject)⟩ (fetchedCommand ref subject) := by
  refine ⟨_, rfl, ?_⟩
  rfl

/-- One unread message: both clients return it. -/
theorem fetch_agrees_iff_one :
    fetchNewMessages .plain "2026-08-11T09:00:00+00:00" defaultLimit [⟨"1", some (rawCommand "Submit")⟩] =
      .ok [fetchedCommand "1" "Submit"] :=
  (fetch_agrees_iff (by decide) (.cons (fetches_command "1" "Submit") .nil) (List.nodup_singleton _)
    { inbox := [fetchedCommand "1" "Submit"] } rfl).2.2 (by decide)

/-- Two unread messages: the later comes first. -/
theorem fetch_newest_first :
    ∃ unseen msgs, ∃ fake : FakeMailClient,
      List.Forall₂ (Fetches .plain "2026-08-11T09:00:00+00:00") unseen msgs ∧ (unseen.map Unseen.ref).Nodup ∧
        fake.unseen = msgs ∧
          fetchNewMessages .plain "2026-08-11T09:00:00+00:00" defaultLimit unseen ≠
            .ok (fake.fetchNewMessages defaultLimit) := by
  have hfetches : List.Forall₂ (Fetches .plain "2026-08-11T09:00:00+00:00")
      [⟨"1", some (rawCommand "Submit")⟩, ⟨"2", some (rawCommand "Cancel")⟩]
      [fetchedCommand "1" "Submit", fetchedCommand "2" "Cancel"] :=
    .cons (fetches_command "1" "Submit") (.cons (fetches_command "2" "Cancel") .nil)
  refine ⟨_, _, { inbox := [fetchedCommand "1" "Submit", fetchedCommand "2" "Cancel"] }, hfetches, by decide, rfl, ?_⟩
  rw [fetchNewMessages_window defaultLimit hfetches]
  intro he
  have hrefs := congrArg (List.map EmailMessage.providerRef) (Except.ok.inj he)
  exact absurd hrefs (by decide)

end

end GroupAssessmentAgent
