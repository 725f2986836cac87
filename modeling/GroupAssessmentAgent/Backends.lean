import GroupAssessmentAgent.World

/-!
# The backends

The diarisation backend and GitHub-RAGinator, by what they answer to the n-th call of a run: a value, or the exception
that the client raises once its retries are used up. And the group of the sender's that a request is about.
-/

namespace GroupAssessmentAgent
open Prog

structure GroupSummary where
  id : Nat
  name : Text
  deriving DecidableEq

structure TranscriptChunk where
  chunkId : Text
  meetingId : Text
  meetingTitle : Text
  meetingDate : Text
  speaker : Text
  text : Text
  startTs : Text
  endTs : Text
  deriving DecidableEq

def TranscriptChunk.citation (c : TranscriptChunk) : Text :=
  cat ["[", c.meetingTitle, ", ", c.meetingDate, ", ", c.startTs, "-", c.endTs, ", ", c.speaker, "]"]

/-- Meetings, files and attendees are known by their ids; an alias is a member id, or nothing. -/
structure DiarisationClient where
  login : Nat → Nat → Except Exc Text
  listGroups : Nat → Text → Except Exc (List GroupSummary)
  createMeeting : Nat → Text → Nat → Datetime → Except Exc Nat
  uploadFile : Nat → Text → Nat → Nat → Option Text → Bytes → Except Exc Nat
  addAttendee : Nat → Text → Nat → Nat → Nat → Except Exc Unit
  resolveAliases : Nat → Text → Nat → List Text → Except Exc (List (Text × Option Nat))
  searchTranscripts : Nat → Text → Nat → Text → Except Exc (List TranscriptChunk)

structure RepoSummary where
  id : Nat
  githubUrl : Text
  groupName : Option Text
  deriving DecidableEq

structure GithubRaginatorClient where
  findRepoByGroupName : Nat → Text → Except Exc (Option RepoSummary)
  query : Nat → Nat → Text → Except Exc Text

/-- A call of one of the backends. -/
def callBackend {α : Type} (call : BackendCall) (answer : Nat → Except Exc α) : M α :=
  atomic (.backend call) fun w => (answer w.backendCalls, { w with backendCalls := w.backendCalls + 1 })

/-! ### The group of a request -/

inductive MatchResult where
  | matched (group : GroupSummary)
  | ambiguous (candidates : List GroupSummary)
  | noMatch
  deriving DecidableEq

def matchGroup [PyChars] (hint : Option Text) (groups : List GroupSummary) : MatchResult :=
  if groups = [] then .noMatch
  else
    match truthy hint with
    | some hint =>
      let needle := lower (strip hint)
      match groups.filter fun g => lower (strip g.name) = needle with
      | [group] => .matched group
      | [] => .noMatch
      | candidates => .ambiguous candidates
    | none =>
      match groups with
      | [group] => .matched group
      | _ => .ambiguous groups

/-- `group_clarification_question`, which does not look at the result of the match. -/
def groupClarificationQuestion (groups : List GroupSummary) (subject : Text) : Text :=
  if groups = [] then
    cat ["You don't currently belong to any group in the system, so I can't tell which group ", subject,
      " is for. Please contact the admin."]
  else cat ["Which group is ", subject, " for? You belong to: ", join ", " (groups.map GroupSummary.name), "."]

end GroupAssessmentAgent
