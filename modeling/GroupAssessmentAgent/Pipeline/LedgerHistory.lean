import GroupAssessmentAgent.Pipeline.Ledger

/-!
# Histories of the ledger

Calls of `begin` and `finalize`, one after another, from an empty ledger. The entry of a message id is what the requests
about this id leave on record (`entryOf_after`), so the answers of the store are counts over the history: `begin` returns
True while no outcome has followed the first `begin` and the attempts are not used up, and `get_outcome` returns the last
of those outcomes.
-/

namespace GroupAssessmentAgent
open Prog

inductive LedgerCall where
  | begin (messageId senderEmail authResult : Text)
  | finalize (messageId outcome : Text) (jobId operation : Option Text)
  deriving DecidableEq

namespace LedgerCall

def messageId : LedgerCall → Text
  | .begin messageId _ _ => messageId
  | .finalize messageId _ _ _ => messageId

/-- What a call asks of the entry. -/
def request : LedgerCall → Entry.Request Text
  | .begin _ _ _ => .attempt
  | .finalize _ outcome _ _ => .conclude outcome

/-- Its outcome is not the one of a message in progress. -/
def Concludes : LedgerCall → Prop
  | .begin _ _ _ => True
  | .finalize _ outcome _ _ => outcome ≠ inProgress

instance : DecidablePred Concludes := fun call =>
  match call with
  | .begin _ _ _ => inferInstanceAs (Decidable True)
  | .finalize _ outcome _ _ => inferInstanceAs (Decidable (outcome ≠ inProgress))

/-- The call, alone and without faults. -/
def leave (out : Outside) (w : World) : LedgerCall → World
  | .begin messageId senderEmail authResult =>
    ((ProcessedMessageStore.begin out messageId senderEmail authResult).run w).2
  | .finalize messageId outcome jobId operation =>
    ((ProcessedMessageStore.finalize out messageId outcome jobId operation).run w).2

end LedgerCall

/-- The state after a history of calls. -/
def afterCalls (out : Outside) (w : World) (calls : List LedgerCall) : World := calls.foldl (LedgerCall.leave out) w

/-- What the calls on a message id ask of its entry. -/
def asked (messageId : Text) (calls : List LedgerCall) : List (Entry.Request Text) :=
  (calls.filter fun call => call.messageId = messageId).map LedgerCall.request

/-! ### One call -/

theorem finalize_run (out : Outside) (messageId : Text) {outcome : Text} (houtcome : outcome ≠ inProgress)
    (jobId operation : Option Text) (w : World) :
    entryOf ((ProcessedMessageStore.finalize out messageId outcome jobId operation).run w).2 messageId =
      (entryOf w messageId).close outcome := by
  have halone : RG Env.calm Eq LedgerMove
      (fun x w' => Finalized Env.calm outcome (entryOf w messageId) x (entryOf w' messageId))
      (ProcessedMessageStore.finalize out messageId outcome jobId operation) w :=
    finalize_rg (fun _ => rfl) (fun _ _ h => h ▸ rfl) out houtcome jobId operation rfl
  exact halone.run (fun _ => rfl) fun _ _ => trivial

theorem leave_others (out : Outside) (call : LedgerCall) (w : World) {messageId : Text}
    (hne : messageId ≠ call.messageId) : entryOf (call.leave out w) messageId = entryOf w messageId := by
  have hφ := (overlooks_entryOf messageId).covers
  have hledger := (coversMarks_entryOf messageId).toCoversLedger
  cases call with
  | begin m senderEmail authResult =>
    have hkeeps : Keeps (fun w => entryOf w messageId) (ProcessedMessageStore.begin out m senderEmail authResult) :=
      begin_always hφ out hledger hne senderEmail authResult
    exact hkeeps.run w
  | finalize m outcome jobId operation =>
    have hkeeps : Keeps (fun w => entryOf w messageId) (ProcessedMessageStore.finalize out m outcome jobId operation) :=
      finalize_always hφ out hledger hne outcome jobId operation
    exact hkeeps.run w

/-- **One call** answers the request that it makes of its entry. -/
theorem leave_entry (out : Outside) {call : LedgerCall} (hcall : call.Concludes) (w : World) (messageId : Text) :
    entryOf (call.leave out w) messageId =
      if call.messageId = messageId then (entryOf w messageId).take maxProcessingAttempts call.request
      else entryOf w messageId := by
  split_ifs with hid
  · subst hid
    cases call with
    | begin m senderEmail authResult =>
      obtain ⟨w', hrun, hentry⟩ := begin_run out m senderEmail authResult w
      rw [LedgerCall.leave, hrun]
      exact hentry
    | finalize m outcome jobId operation => exact finalize_run out m hcall jobId operation w
  · exact leave_others out call w (Ne.symm hid)

/-! ### Histories of calls -/

theorem entryOf_afterCalls (out : Outside) {w : World} (hw : w.processedMessages.rows = []) {calls : List LedgerCall}
    (hcalls : ∀ call ∈ calls, call.Concludes) (messageId : Text) :
    entryOf (afterCalls out w calls) messageId = Entry.after maxProcessingAttempts (asked messageId calls) := by
  induction calls using List.reverseRecOn with
  | nil =>
    have hnone : w.processedMessages.find? messageId = none := Table.find?_eq_none.2 (by simp [hw])
    rw [afterCalls, List.foldl_nil, entryOf, hnone]
    rfl
  | append_singleton calls call ih =>
    replace ih := ih fun c hc => hcalls c (List.mem_append_left _ hc)
    have hcall : call.Concludes := hcalls call (by simp)
    have hafter : afterCalls out w (calls ++ [call]) = call.leave out (afterCalls out w calls) := List.foldl_append
    rw [hafter, leave_entry out hcall, ih]
    split_ifs with hid
    · have hasked : asked messageId (calls ++ [call]) = asked messageId calls ++ [call.request] := by simp [asked, hid]
      rw [hasked, Entry.after_append]
    · have hasked : asked messageId (calls ++ [call]) = asked messageId calls := by simp [asked, hid]
      rw [hasked]

/-- What `get_outcome` returns of an entry. -/
def outcomeOf : Entry Text → Option Text
  | .unseen => none
  | .started _ => some inProgress
  | .closed outcome => some outcome

theorem getOutcome_run (w : World) (messageId : Text) :
    ((ProcessedMessageStore.getOutcome messageId).run w).1 = .ok (outcomeOf (entryOf w messageId)) := by
  show Except.ok ((w.processedMessages.find? messageId).map ProcessedMessage.outcome) = _
  unfold entryOf
  cases w.processedMessages.find? messageId with
  | none => rfl
  | some row =>
    simp only [Option.map_some, Option.elim, ProcessedMessage.entry]
    split_ifs with hprogress
    · rw [hprogress]
      rfl
    · rfl

/-- **The answers of the ledger**, after any history of calls: `begin` returns True exactly if no `finalize` of the
message has followed its first `begin` and fewer than the allowed attempts were made, `get_outcome` returns the last of
those outcomes, and the calls on other messages change no answer. -/
theorem ledger_answers (out : Outside) {w : World} (hw : w.processedMessages.rows = []) {calls : List LedgerCall}
    (hcalls : ∀ call ∈ calls, call.Concludes) (messageId : Text) :
    (∀ senderEmail authResult,
      ((ProcessedMessageStore.begin out messageId senderEmail authResult).run (afterCalls out w calls)).1 =
        .ok (decide (Entry.outcomes (asked messageId calls) = [] ∧
          Entry.attempts (asked messageId calls) < maxProcessingAttempts))) ∧
    ((ProcessedMessageStore.getOutcome messageId).run (afterCalls out w calls)).1 =
      .ok (if Entry.attempts (asked messageId calls) = 0 then none
        else some ((Entry.outcomes (asked messageId calls)).getLast?.getD inProgress)) ∧
    ∀ calls' : List LedgerCall, (∀ call ∈ calls', call.Concludes) →
      (calls'.filter fun call => call.messageId = messageId) = (calls.filter fun call => call.messageId = messageId) →
      (∀ senderEmail authResult,
        ((ProcessedMessageStore.begin out messageId senderEmail authResult).run (afterCalls out w calls')).1 =
          ((ProcessedMessageStore.begin out messageId senderEmail authResult).run (afterCalls out w calls)).1) ∧
      ((ProcessedMessageStore.getOutcome messageId).run (afterCalls out w calls')).1 =
        ((ProcessedMessageStore.getOutcome messageId).run (afterCalls out w calls)).1 := by
  have hlimit : 0 < maxProcessingAttempts := by decide
  have hentry : ∀ {calls : List LedgerCall}, (∀ call ∈ calls, call.Concludes) →
      entryOf (afterCalls out w calls) messageId = Entry.after maxProcessingAttempts (asked messageId calls) :=
    fun hcalls => entryOf_afterCalls out hw hcalls messageId
  have hbegin : ∀ {calls : List LedgerCall}, (∀ call ∈ calls, call.Concludes) → ∀ senderEmail authResult,
      ((ProcessedMessageStore.begin out messageId senderEmail authResult).run (afterCalls out w calls)).1 =
        .ok (decide (Entry.outcomes (asked messageId calls) = [] ∧
          Entry.attempts (asked messageId calls) < maxProcessingAttempts)) := by
    intro calls hcalls senderEmail authResult
    obtain ⟨w', hrun, -⟩ := begin_run out messageId senderEmail authResult (afterCalls out w calls)
    rw [hrun]
    simp only [Admitted, hentry hcalls, Entry.admits_after hlimit]
  have houtcome : ∀ {calls : List LedgerCall}, (∀ call ∈ calls, call.Concludes) →
      ((ProcessedMessageStore.getOutcome messageId).run (afterCalls out w calls)).1 =
        .ok (if Entry.attempts (asked messageId calls) = 0 then none
          else some ((Entry.outcomes (asked messageId calls)).getLast?.getD inProgress)) := by
    intro calls hcalls
    rw [getOutcome_run, hentry hcalls, Entry.after_eq hlimit]
    split_ifs
    · rfl
    · cases (Entry.outcomes (asked messageId calls)).getLast? <;> rfl
  refine ⟨hbegin hcalls, houtcome hcalls, fun calls' hcalls' hsame => ?_⟩
  have hasked : asked messageId calls' = asked messageId calls := by
    rw [asked, hsame, asked]
  refine ⟨fun senderEmail authResult => ?_, ?_⟩
  · rw [hbegin hcalls', hbegin hcalls, hasked]
  · rw [houtcome hcalls', houtcome hcalls, hasked]

/-- Two messages, one of them concluded before its first attempt as well. -/
def twoMessages : List LedgerCall :=
  [.finalize "<a>" "early" none none, .begin "<a>" "alice@uni.ac.uk" "pass", .begin "<b>" "bob@uni.ac.uk" "pass",
    .finalize "<a>" "job_created" none none, .begin "<a>" "alice@uni.ac.uk" "pass"]

theorem ledger_answers_two :
    ((ProcessedMessageStore.begin Outside.plain "<a>" [] []).run (afterCalls Outside.plain {} twoMessages)).1 =
        .ok false ∧
      ((ProcessedMessageStore.getOutcome "<a>").run (afterCalls Outside.plain {} twoMessages)).1 =
        .ok (some "job_created".toList) := by
  have hcalls : ∀ call ∈ twoMessages, call.Concludes := by decide
  have hasked : asked "<a>" twoMessages = [.conclude "early", .attempt, .conclude "job_created", .attempt] := by decide
  obtain ⟨hbegin, houtcome, -⟩ := ledger_answers Outside.plain (w := {}) rfl hcalls "<a>"
  rw [hbegin, houtcome, hasked]
  exact ⟨rfl, rfl⟩

end GroupAssessmentAgent
