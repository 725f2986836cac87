import GroupAssessmentAgent.Auth.Authorisation
import GroupAssessmentAgent.World

/-!
# Inbound mail

A message as the mail clients hand it to the pipeline.
-/

namespace GroupAssessmentAgent

structure Attachment where
  filename : Text
  contentType : Text
  content : Bytes
  deriving DecidableEq

def Attachment.sizeBytes (a : Attachment) : Nat := a.content.length

structure EmailMessage where
  messageId : Text
  providerRef : Text
  fromAddress : Text
  subject : Text
  bodyText : Text
  receivedAt : Datetime
  attachments : List Attachment := []
  authSignals : AuthSignals := {}
  inReplyTo : Option Text := none
  references : Option Text := none
  deriving DecidableEq

/-- The distinct elements, in the order of their first occurrence (`dict.fromkeys`). -/
def fromKeys {α : Type} [DecidableEq α] (xs : List α) : List α :=
  xs.foldl (fun acc x => if x ∈ acc then acc else acc ++ [x]) []

theorem mem_fromKeys {α : Type} [DecidableEq α] {x : α} {xs : List α} : x ∈ fromKeys xs ↔ x ∈ xs := by
  have hfold : ∀ acc : List α,
      x ∈ xs.foldl (fun acc x => if x ∈ acc then acc else acc ++ [x]) acc ↔ x ∈ acc ∨ x ∈ xs := by
    induction xs with
    | nil => simp
    | cons y ys ih =>
      intro acc
      rw [List.foldl_cons, ih, List.mem_cons]
      split_ifs with hy
      · constructor
        · rintro (h | h)
          · exact .inl h
          · exact .inr (.inr h)
        · rintro (h | rfl | h)
          · exact .inl h
          · exact .inl hy
          · exact .inr h
      · rw [List.mem_append, List.mem_singleton, or_assoc]
  rw [fromKeys, hfold]
  simp

/-- `_reply_references`. -/
def replyReferences (msg : EmailMessage) : Text :=
  join " " (fromKeys ([truthy msg.references, truthy msg.inReplyTo, truthy (some msg.messageId)].reduceOption))

end GroupAssessmentAgent
