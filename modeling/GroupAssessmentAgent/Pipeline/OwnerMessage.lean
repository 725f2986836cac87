import GroupAssessmentAgent.Pipeline.Ledger

/-!
# A new message of an owner

`Handled` is what `_process_message` owes an owner's new message: it ends without an exception, the ledger has a final
outcome, the message is marked, and the sender gets one mail. The match against the weekly reports, the first thing
after `begin`, raises for every message (`matchReport_run`), so no message of an owner is ever handled
(`never_handled`).
-/

namespace GroupAssessmentAgent
open Prog

/-- The mails to an address in the outbox. -/
def mailsTo (w : World) (address : Text) : List OutboxMessage := w.outbox.rows.filter fun m => m.toEmail = address

section
variable [PyChars]

/-- A message that was not seen before, of an owner who is not the admin, while Ollama is up. -/
structure NewOwnerMessage (p : EmailProcessingPipeline) (msg : EmailMessage) (w : World) : Prop where
  authorised : (p.authOf msg).reason = .authorised
  notAdmin : p.admin.adminEmail.map lower ≠ some (p.authOf msg).senderEmail
  unseen : w.processedMessages.find? msg.messageId = none
  available : w.ollamaUp = true

/-- The result `x` and the state `w'` that the handling of a message in state `w` should end with. -/
structure Handled (msg : EmailMessage) (senderEmail : Text) (w : World) (x : Except Exc Unit) (w' : World) : Prop where
  ended : x = .ok ()
  finalised : ∃ row, w'.processedMessages.find? msg.messageId = some row ∧ row.outcome ≠ inProgress
  marked : msg.providerRef ∈ w'.seen
  replied : ∃ mail, mailsTo w' senderEmail = mailsTo w senderEmail ++ [mail]

/-- The match takes the pair of the two headers for a text. -/
theorem matchReport_run (msg : EmailMessage) (senderEmail : Text) (w : World) :
    (EmailProcessingPipeline.matchReport msg senderEmail).run w =
      (.error ⟨.attributeError, "'tuple' object has no attribute 'split'"⟩, w) := rfl

/-- What becomes of every message of an owner that `begin` lets in. -/
theorem processMessage_raises (out : Outside) (p : EmailProcessingPipeline) (msg : EmailMessage) {w : World}
    (hauth : (p.authOf msg).reason = .authorised) (hadmitted : Admitted w msg.messageId) :
    ((p.processMessage out msg).run w).1 = .error ⟨.attributeError, "'tuple' object has no attribute 'split'"⟩ := by
  obtain ⟨w', hbegin, _⟩ := begin_run out msg.messageId (orText (p.authOf msg).senderEmail msg.fromAddress)
    (p.authOf msg).reason.value w
  rw [EmailProcessingPipeline.processMessage, EmailProcessingPipeline.processMessageWith, bind_eq, run_bind_ok hbegin]
  simp only [hadmitted, hauth, decide_true, Bool.not_true, Bool.false_eq_true, if_true, if_false]
  rw [EmailProcessingPipeline.handleOwner, bind_eq, run_bind_error (matchReport_run msg _ w')]

/-- **No message of an owner is handled.** -/
theorem never_handled (out : Outside) (p : EmailProcessingPipeline) (msg : EmailMessage) (w : World)
    (h : NewOwnerMessage p msg w) :
    ¬ Handled msg (p.authOf msg).senderEmail w ((p.processMessage out msg).run w).1
      ((p.processMessage out msg).run w).2 := by
  intro hhandled
  have hadmitted : Admitted w msg.messageId := by
    rw [Admitted, entryOf, h.unseen]
    trivial
  cases (processMessage_raises out p msg h.authorised hadmitted).symm.trans hhandled.ended

end

section
attribute [local instance] asciiChars

theorem aliceMessage_new : NewOwnerMessage smallPipeline aliceMessage {} :=
  ⟨by decide +kernel, by decide +kernel, rfl, rfl⟩

theorem never_handled_alice : ¬ Handled aliceMessage (smallPipeline.authOf aliceMessage).senderEmail {}
    ((smallPipeline.processMessage .plain aliceMessage).run {}).1
    ((smallPipeline.processMessage .plain aliceMessage).run {}).2 :=
  never_handled .plain smallPipeline aliceMessage {} aliceMessage_new

theorem owner_unanswered : ¬ ∀ (out : Outside) (p : EmailProcessingPipeline) (msg : EmailMessage) (w : World),
    NewOwnerMessage p msg w →
      Handled msg (p.authOf msg).senderEmail w ((p.processMessage out msg).run w).1
        ((p.processMessage out msg).run w).2 := by
  intro h
  have hended := (h .plain smallPipeline aliceMessage {} aliceMessage_new).ended
  have hraised := processMessage_raises .plain smallPipeline aliceMessage (w := {}) aliceMessage_new.authorised trivial
  cases hraised.symm.trans hended

end

end GroupAssessmentAgent
