import GroupAssessmentAgent.Backends

/-!
# The sources of a weekly report

`WeeklySourceCollector`: evidence from the meetings and from the two project tools. A source that its backend's error
class says is out of reach is noted, and any other exception ends the collection.
-/

namespace GroupAssessmentAgent
open Prog

/-! ### `json.dumps` -/

/-- A UTF-16 unit as `\uXXXX`. -/
def jsonUnit (n : Nat) : Text :=
  let digits := Nat.toDigits 16 n
  "\\u" ++ List.replicate (4 - digits.length) '0' ++ digits

def jsonChar (c : Char) : Text :=
  if c = '"' then "\\\""
  else if c = '\\' then "\\\\"
  else if c = '\n' then "\\n"
  else if c = '\r' then "\\r"
  else if c = '\t' then "\\t"
  else if c.toNat = 8 then "\\b"
  else if c.toNat = 12 then "\\f"
  else if 32 ≤ c.toNat ∧ c.toNat ≤ 126 then [c]
  else if c.toNat < 65536 then jsonUnit c.toNat
  else jsonUnit (55296 + (c.toNat - 65536) / 1024) ++ jsonUnit (56320 + (c.toNat - 65536) % 1024)

def jsonText (s : Text) : Text := cat ["\"", s.flatMap jsonChar, "\""]

/-- An object, from its keys and its values as they are written. -/
def jsonObject (fields : List (Text × Text)) : Text :=
  cat ["\x7b", join ", " (fields.map fun kv => cat [jsonText kv.1, ": ", kv.2]), "\x7d"]

example : jsonObject [("answer", jsonText "a \"b\"\n"), ("repo_id", natText 7)] =
    "\x7b\"answer\": \"a \\\"b\\\"\\n\", \"repo_id\": 7\x7d".toList := by decide

/-! ### Dates -/

namespace Instant.Date

/-- `date.isoformat()`. -/
def isoformat (d : Date) : Text := cat [padded 4 d.year, "-", padded 2 d.month, "-", padded 2 d.day]

/-- The order of dates. -/
def Le (a b : Date) : Prop :=
  a.year < b.year ∨ a.year = b.year ∧ (a.month < b.month ∨ a.month = b.month ∧ a.day ≤ b.day)

instance (a b : Date) : Decidable (a.Le b) := inferInstanceAs (Decidable (_ ∨ _ ∧ (_ ∨ _ ∧ _)))

end Instant.Date

/-- The days of a report: the first, and the one after the last. -/
structure Period where
  start : Instant.Date
  stop : Instant.Date

def Period.Contains (p : Period) (d : Instant.Date) : Prop := p.start.Le d ∧ ¬ p.stop.Le d

instance (p : Period) (d : Instant.Date) : Decidable (p.Contains d) := inferInstanceAs (Decidable (_ ∧ _))

def Period.window (p : Period) : Text := cat ["between ", p.start.isoformat, " and ", p.stop.isoformat]

/-! ### Evidence -/

/-- A piece of evidence, before it is stored. -/
structure EvidenceItem where
  source : Text
  evidenceId : Text
  title : Text
  eventDate : Option Text
  content : Text
  citation : Text
  rawJson : Text
  deriving DecidableEq

structure SourceCollection where
  evidence : List EvidenceItem := []
  unavailable : List Text := []

namespace WeeklySourceCollector
variable (out : Outside)

def chunkJson (c : TranscriptChunk) : Text :=
  jsonObject [("chunk_id", jsonText c.chunkId), ("end_ts", jsonText c.endTs), ("meeting_date", jsonText c.meetingDate),
    ("meeting_id", jsonText c.meetingId), ("meeting_title", jsonText c.meetingTitle), ("speaker", jsonText c.speaker),
    ("start_ts", jsonText c.startTs), ("text", jsonText c.text)]

def chunkEvidence (c : TranscriptChunk) : EvidenceItem :=
  { source := "meetings", evidenceId := c.chunkId, title := c.meetingTitle, eventDate := some c.meetingDate,
    content := c.text, citation := c.citation, rawJson := chunkJson c }

/-- The evidence in the chunks of the period; a chunk without a readable date is passed over. -/
def chunksEvidence (period : Period) : List TranscriptChunk → Except Exc (List EvidenceItem)
  | [] => .ok []
  | c :: cs => do
    match out.dateFromIso (c.meetingDate.take 10) with
    | .error e => if e.kind = .valueError then chunksEvidence period cs else .error e
    | .ok date =>
      let rest ← chunksEvidence period cs
      return if period.Contains date then chunkEvidence c :: rest else rest

/-- `_collect_meetings`. -/
def collectMeetings (diarisation : DiarisationClient) (token : Text) (group : GroupSummary) (period : Period) :
    M SourceCollection := do
  let query := cat ["meetings and decisions ", period.window]
  let chunks ← catching [.diarisationApiError]
    (callBackend (.searchTranscripts token group.id query) fun n =>
      diarisation.searchTranscripts n token group.id query)
  match chunks with
  | .error e => return { unavailable := [cat ["meetings (", e.message, ")"]] }
  | .ok chunks =>
    let evidence ← Prog.ofExcept (chunksEvidence out period chunks)
    return { evidence }

def queryEvidence (source : Text) (repoId : Nat) (question citation answer : Text) : EvidenceItem :=
  { source, evidenceId := cat ["repo-", natText repoId, "-", source], title := cat [title source, " activity query"],
    eventDate := none, content := answer, citation := cat [citation, " (", source, " activity query)"],
    rawJson := jsonObject [("answer", jsonText answer), ("question", jsonText question), ("repo_id", natText repoId)] }

/-- `_collect_query`. -/
def collectQuery (github : GithubRaginatorClient) (source : Text) (repoId : Nat) (question citation : Text) :
    M SourceCollection := do
  let answer ← catching [.githubRaginatorApiError] (callBackend (.query repoId question) fun n =>
    github.query n repoId question)
  match answer with
  | .error e => return { unavailable := [cat [source, " (", e.message, ")"]] }
  | .ok answer =>
    return if strip answer = [] then {}
      else { evidence := [queryEvidence source repoId question citation (strip answer)] }

/-- `_collect_github_and_trello`. -/
def collectGithubAndTrello (github : GithubRaginatorClient) (group : GroupSummary) (period : Period) :
    M SourceCollection := do
  let repo ← catching [.githubRaginatorApiError] (callBackend (.findRepoByGroupName group.name) fun n =>
    github.findRepoByGroupName n group.name)
  match repo with
  | .error e => return { unavailable := [cat ["GitHub/Trello (", e.message, ")"]] }
  | .ok none => return { unavailable := ["GitHub/Trello (no linked repository)"] }
  | .ok (some repo) =>
    let commits ← collectQuery github "github" repo.id
      (cat ["Summarise GitHub commits, pull requests, issues, and releases ", period.window, ". ",
        "Return only activity in that period with identifiers and dates."]) repo.githubUrl
    let cards ← collectQuery github "trello" repo.id
      (cat ["Summarise Trello card movement, completed work, blockers, and due dates ", period.window, ". ",
        "Return only activity in that period with card names and dates."]) repo.githubUrl
    return ⟨commits.evidence ++ cards.evidence, commits.unavailable ++ cards.unavailable⟩

/-- What the future of a task holds. -/
def future {α : Type} (p : M α) : M (Except Exc α) := tryCatch (Except.ok <$> p) fun e => pure (.error e)

/-- `collect`: both tasks run to their end, and then their results are taken. -/
def collect (diarisation : DiarisationClient) (github : GithubRaginatorClient) (token : Text) (group : GroupSummary)
    (period : Period) : M SourceCollection := do
  let meetings ← future (collectMeetings out diarisation token group period)
  let projectTools ← future (collectGithubAndTrello github group period)
  let result ← Prog.ofExcept meetings
  let other ← Prog.ofExcept projectTools
  return ⟨result.evidence ++ other.evidence, result.unavailable ++ other.unavailable⟩

end WeeklySourceCollector

end GroupAssessmentAgent
