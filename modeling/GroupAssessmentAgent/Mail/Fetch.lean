import GroupAssessmentAgent.Mail.ImapClient
import GroupAssessmentAgent.Pipeline

/-!
# One message and the batch it arrives in

`poll_once` keeps an exception in the handling of one message from the others. The conversion of the messages comes
before, in one loop of `fetch_new_messages`, and it raises where the text of a part has a charset that the decoder does
not know. `othersReach_iff`: a message never keeps another one of its batch from being returned and handled exactly if
there is no other, or if all their texts can be decoded.
-/

namespace GroupAssessmentAgent
open Prog

section
variable {α β ε : Type} (f : α → Except ε β)

theorem mapM_cons_ok (x : α) (xs : List α) (ys : List β) :
    (x :: xs).mapM f = .ok ys ↔ ∃ y ys', f x = .ok y ∧ xs.mapM f = .ok ys' ∧ ys = y :: ys' := by
  rw [List.mapM_cons]
  cases f x with
  | error e => simp [Bind.bind, Except.bind]
  | ok y =>
    cases xs.mapM f with
    | error e => simp [Bind.bind, Except.bind]
    | ok ys' => simp [Bind.bind, Except.bind, Pure.pure, Except.pure, eq_comm]

theorem mapM_isOk (xs : List α) : (∃ ys, xs.mapM f = .ok ys) ↔ ∀ x ∈ xs, ∃ y, f x = .ok y := by
  induction xs with
  | nil => simp [Pure.pure, Except.pure]
  | cons x xs ih =>
    simp only [mapM_cons_ok, List.forall_mem_cons, ← ih]
    constructor
    · rintro ⟨_, y, ys, hy, hys, _⟩
      exact ⟨⟨y, hy⟩, ys, hys⟩
    · rintro ⟨⟨y, hy⟩, ys, hys⟩
      exact ⟨_, y, ys, hy, hys, rfl⟩

theorem mem_of_mapM {xs : List α} {ys : List β} (h : xs.mapM f = .ok ys) {x : α} (hx : x ∈ xs) :
    ∃ y ∈ ys, f x = .ok y := by
  induction xs generalizing ys with
  | nil => cases hx
  | cons x' xs ih =>
    obtain ⟨y, ys', hy, hys', rfl⟩ := (mapM_cons_ok f x' xs ys).1 h
    rcases List.mem_cons.1 hx with rfl | hx
    · exact ⟨y, List.mem_cons_self, hy⟩
    · obtain ⟨z, hz, hfz⟩ := ih hys' hx
      exact ⟨z, List.mem_cons_of_mem _ hz, hfz⟩

end

/-! ### Which messages can be converted -/

/-- A part of a multipart message whose text goes into the body. -/
def MimePart.isBodyText (part : MimePart) : Bool :=
  !part.isMultipart && !part.isAttachment && (part.contentType = "text/plain" || part.contentType = "text/html")

/-- The parts whose text goes into the body. -/
def bodyParts (raw : RawMessage) : List MimePart :=
  if raw.root.isMultipart then raw.walk.filter MimePart.isBodyText else [raw.root]

/-- The decoder knows the charset of the part. -/
def Decodes (out : Outside) (part : MimePart) : Prop :=
  ∀ payload, part.payload = some payload → ∃ t, decodePayload out part payload = .ok t

theorem map_isOk {α β : Type} (f : α → β) (x : Except Exc α) : (∃ y, f <$> x = .ok y) ↔ ∃ y, x = .ok y := by
  cases x <;> simp [Functor.map, Except.map]

theorem partText_isOk (out : Outside) (part : MimePart) :
    (∃ t, partText out part = .ok t) ↔ (part.isBodyText = true → Decodes out part) := by
  rw [partText, MimePart.isBodyText, Decodes]
  generalize ("text/plain" : Text) = plain, ("text/html" : Text) = html
  by_cases hskip : (part.isMultipart || part.isAttachment) = true
  · rw [if_pos hskip]
    simp only [Except.ok.injEq, exists_eq', true_iff, Bool.and_eq_true, Bool.not_eq_true']
    rintro ⟨⟨hmulti, hatt⟩, _⟩
    simp [hmulti, hatt] at hskip
  · rw [if_neg hskip]
    have hparts : part.isMultipart = false ∧ part.isAttachment = false := by simpa using hskip
    cases part.payload with
    | none => simp
    | some payload =>
      simp only [hparts, Option.some.injEq, forall_eq', Bool.not_false, Bool.true_and, Bool.or_eq_true,
        decide_eq_true_eq]
      split_ifs with hplain hhtml
      · exact (map_isOk _ _).trans ⟨fun h _ => h, fun h => h (.inl hplain)⟩
      · exact (map_isOk _ _).trans ⟨fun h _ => h, fun h => h (.inr hhtml)⟩
      · exact ⟨fun _ h => absurd h (not_or.2 ⟨hplain, hhtml⟩), fun _ => ⟨none, rfl⟩⟩

theorem extractBodyText_isOk (out : Outside) (raw : RawMessage) :
    (∃ t, extractBodyText out raw = .ok t) ↔ ∀ part ∈ bodyParts raw, Decodes out part := by
  rw [extractBodyText, bodyParts]
  by_cases hmulti : raw.root.isMultipart = true
  · rw [if_pos hmulti, if_pos hmulti]
    have hmap : (∃ t, (do
        let texts ← raw.walk.mapM (partText out)
        return strip (join "\n\n" texts.reduceOption) : Except Exc Text) = .ok t) ↔
        ∃ texts, raw.walk.mapM (partText out) = .ok texts := by
      cases raw.walk.mapM (partText out) <;> simp [Bind.bind, Except.bind, Pure.pure, Except.pure]
    rw [hmap, mapM_isOk]
    simp only [partText_isOk, List.mem_filter, and_imp]
  · rw [if_neg hmulti, if_neg hmulti, List.forall_mem_singleton, Decodes]
    cases raw.root.payload with
    | none => simp
    | some payload =>
      simp only [Option.some.injEq, forall_eq']
      split_ifs
      · exact map_isOk _ _
      · rfl

theorem toEmailMessage_isOk [PyChars] (out : Outside) (now : Datetime) (raw : RawMessage) (ref : Text) :
    (∃ msg, toEmailMessage out now raw ref = .ok msg) ↔ ∀ part ∈ bodyParts raw, Decodes out part := by
  rw [← extractBodyText_isOk, toEmailMessage]
  cases extractBodyText out raw <;> simp [Bind.bind, Except.bind, Pure.pure, Except.pure]

/-! ### A poll -/

section
variable [PyChars] (out : Outside) (p : EmailProcessingPipeline)
  (match? : EmailMessage → Text → M (Option WeeklyReport))

/-- Whatever becomes of the messages before it, the handling of every message begins. -/
theorem processAllWith_begins {msgs : List EmailMessage} {msg : EmailMessage} (hmsg : msg ∈ msgs) (w : World) :
    Stmt.insertProcessed msg.messageId ∈ (p.processAllWith out match? msgs).trace w := by
  induction msgs generalizing w with
  | nil => cases hmsg
  | cons first msgs ih =>
    rw [EmailProcessingPipeline.processAllWith, bind_eq, trace_bind, List.mem_append]
    rcases List.mem_cons.1 hmsg with rfl | hmsg
    · refine .inl ?_
      rw [tryCatch_eq, trace_tryCatch, List.mem_append, EmailProcessingPipeline.processMessageWith, bind_eq, trace_bind,
        List.mem_append]
      exact .inl (.inl (List.mem_cons_of_mem _ List.mem_cons_self))
    · refine .inr ?_
      have hcaught :
          ∃ w', (tryCatch (p.processMessageWith out match? first) fun _ => pure ()).run w = (.ok (), w') := by
        rw [tryCatch_eq, run_tryCatch]
        rcases (p.processMessageWith out match? first).run w with ⟨_ | _, w'⟩ <;> exact ⟨w', rfl⟩
      obtain ⟨w', hrun⟩ := hcaught
      rw [hrun]
      exact ih hmsg w'

end

section
variable [PyChars] (out : Outside) (p : EmailProcessingPipeline) (now : Datetime) (limit : Nat) (unseen : List Unseen)
  (w : World)

/-- The messages that a fetch gets from the server, with their references. -/
def batch : List (Text × RawMessage) := (window limit unseen).filterMap fun u => u.data.map fun raw => (u.ref, raw)

theorem fetchNewMessages_eq :
    fetchNewMessages out now limit unseen = (batch limit unseen).mapM fun m => toEmailMessage out now m.2 m.1 := by
  rw [fetchNewMessages, batch]
  induction window limit unseen with
  | nil => rfl
  | cons u us ih =>
    rw [convertAll, List.filterMap_cons]
    cases u.data with
    | none => exact ih
    | some raw =>
      simp only [Option.map_some, List.mapM_cons, ih]

/-- A message of the batch is returned by the fetch, and its handling begins in the poll. -/
def Reaches (m : Text × RawMessage) : Prop :=
  ∃ msgs msg, fetchNewMessages out now limit unseen = .ok msgs ∧ toEmailMessage out now m.2 m.1 = .ok msg ∧
    msg ∈ msgs ∧ Stmt.insertProcessed msg.messageId ∈ (p.pollOnce out (fetchNewMessages out now limit unseen)).trace w

/-- No message of the batch keeps another one from being returned and handled. -/
def OthersReach : Prop :=
  ∀ before m after, batch limit unseen = before ++ m :: after →
    ∀ other ∈ before ++ after, Reaches out p now limit unseen w other

variable {out p now limit unseen w}

theorem reaches_of_decodes (h : ∀ m ∈ batch limit unseen, ∀ part ∈ bodyParts m.2, Decodes out part)
    {m : Text × RawMessage} (hm : m ∈ batch limit unseen) : Reaches out p now limit unseen w m := by
  have hall : ∀ m ∈ batch limit unseen, ∃ msg, toEmailMessage out now m.2 m.1 = .ok msg := fun m hm =>
    (toEmailMessage_isOk out now m.2 m.1).2 (h m hm)
  obtain ⟨msgs, hmsgs⟩ := (mapM_isOk _ _).2 hall
  obtain ⟨msg, hmem, hmsg⟩ := mem_of_mapM _ hmsgs hm
  refine ⟨msgs, msg, (fetchNewMessages_eq out now limit unseen).trans hmsgs, hmsg, hmem, ?_⟩
  rw [fetchNewMessages_eq, hmsgs]
  refine List.mem_cons_of_mem _ ?_
  show _ ∈ ((p.processAllWith out EmailProcessingPipeline.matchReport msgs).bind fun _ => ret msgs.length).trace w
  rw [trace_bind]
  exact List.mem_append_left _ (processAllWith_begins out p _ hmem w)

theorem Reaches.decodes {m : Text × RawMessage} (h : Reaches out p now limit unseen w m) :
    ∀ part ∈ bodyParts m.2, Decodes out part := by
  obtain ⟨_, msg, _, hmsg, _⟩ := h
  exact (toEmailMessage_isOk out now m.2 m.1).1 ⟨msg, hmsg⟩

variable (out p now limit unseen w)

/-- **A message keeps no other one back** exactly if there is no other one in the batch, or the decoder knows the
charset of every text in the batch. -/
theorem othersReach_iff : OthersReach out p now limit unseen w ↔
    (batch limit unseen).length ≤ 1 ∨ ∀ m ∈ batch limit unseen, ∀ part ∈ bodyParts m.2, Decodes out part := by
  constructor
  · intro h
    refine or_iff_not_imp_left.2 fun hlen m hm => ?_
    match hb : batch limit unseen with
    | [] => simp [hb] at hm
    | [_] => simp [hb] at hlen
    | x :: y :: rest =>
      rw [hb, List.mem_cons] at hm
      have hreaches : Reaches out p now limit unseen w m := by
        rcases hm with rfl | hm
        · exact h [m] y rest hb m (by simp)
        · exact h [] x (y :: rest) hb m hm
      exact hreaches.decodes
  · rintro (hlen | hall) before m after hb other hother
    · rw [hb] at hlen
      simp only [List.length_append, List.length_cons] at hlen
      have hlength : (before ++ after).length = 0 := by
        rw [List.length_append]
        omega
      rw [List.length_eq_zero_iff.1 hlength] at hother
      cases hother
    · refine reaches_of_decodes hall ?_
      rw [hb]
      simp only [List.mem_append, List.mem_cons] at hother ⊢
      tauto

end

section
attribute [local instance] asciiChars

/-- A text message of an owner, and one in a charset that does not exist. -/
def mixedMailbox : List Unseen :=
  [⟨"1", some { headers := [("From", "alice@uni.ac.uk")], root := { payload := some [72, 105] } }⟩,
    ⟨"2", some { headers := [], root := { charset := some "x-unknown", payload := some [72, 105] } }⟩]

/-- The message of reference 2 keeps the other one back. -/
theorem unknown_charset_keeps_back :
    ¬ OthersReach .plain smallPipeline "2026-08-11T00:00:00" defaultLimit mixedMailbox {} := by
  intro h
  obtain ⟨msgs, _, hfetch, _⟩ := h [] _ [_] rfl _ (List.mem_singleton_self _)
  have hraises : fetchNewMessages .plain "2026-08-11T00:00:00" defaultLimit mixedMailbox =
      .error ⟨.lookupError, "unknown encoding: x-unknown"⟩ := rfl
  cases hraises.symm.trans hfetch

end

end GroupAssessmentAgent
