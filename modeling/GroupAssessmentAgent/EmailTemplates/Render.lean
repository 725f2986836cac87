import GroupAssessmentAgent.Python.Text

/-!
# Outbound texts

Subject and body of every mail to a user, as the templates render them.
-/

namespace GroupAssessmentAgent

/-- Subject and body. -/
abbrev Rendered := Text × Text

/-- The rendered template, stripped and ended by a line break. -/
def render (lines : List Text) : Text := strip (cat lines) ++ ['\n']

theorem strip_infix_rendered {t : Text} {lines : List Text} (h : t <:+: cat lines) : strip t <:+: render lines :=
  (strip_infix_of h).trans (List.prefix_append _ _).isInfix

/-- `{% if value %}...{% endif %}` around lines that use the value. -/
def ifSet (value : Option Text) (lines : Text → List Text) : Text :=
  match truthy value with
  | some v => cat (lines v)
  | none => []

/-- The lines of a `{% for %}` over names, under a heading, where there are names. -/
def ifNames (heading : Text) (names : List Text) : Text :=
  if names = [] then [] else cat ["\n", heading, "\n", cat (names.map fun name => cat ["- ", name, "\n"])]

/-- A subject that ends in the job id, where there is one. -/
def subjectFor (subject : Text) (jobId : Option Text) : Text :=
  match truthy jobId with
  | some id => cat [subject, " — ", id]
  | none => subject

def renderAck (jobId filename meetingDate : Text) (groupName : Option Text) : Rendered :=
  (cat ["Transcript received — ", jobId],
    render ["Your transcript has been received successfully.\n\n",
      "Job ID: ", jobId, "\nFile: ", filename, "\n",
      ifSet groupName fun g => ["Group: ", g, "\n"],
      "Meeting date: ", meetingDate, "\n\n",
      "It has been added to the processing queue. You will receive another email once it has been\n",
      "added to your group's records."])

def renderClarification (question : Text) (jobId : Option Text) : Rendered :=
  (subjectFor "Clarification needed" jobId,
    render ["I received your email, but I need some additional information before I can proceed.\n\n",
      question, "\n\n",
      "Please reply to this email with the extra detail, or resend your request with it included."])

def renderClarificationReceived (jobId value : Text) : Rendered :=
  (cat ["Clarification received — ", jobId],
    cat ["Thanks. I recorded '", value, "' for ", jobId, " and queued it to continue processing.\n"])

def renderFailure (reason : Text) (jobId : Option Text) : Rendered :=
  (subjectFor "Could not process your request" jobId,
    render ["Unfortunately your request could not be processed.\n",
      ifSet jobId fun id => ["\nJob ID: ", id, "\n"],
      "\nReason:\n", reason, "\n\n",
      "No action is required unless you would like to try again."])

def renderCompletion (jobId groupName meetingDate : Text) (resolvedAttendees unresolvedSpeakers : List Text) :
    Rendered :=
  (cat ["Transcript processed — ", jobId],
    render ["Your transcript has been processed successfully.\n\n",
      "Job ID: ", jobId, "\nGroup: ", groupName, "\nMeeting date: ", meetingDate, "\n",
      ifNames "Attendees recognised from the transcript:" resolvedAttendees,
      ifNames (cat
        ["The following speaker labels in the transcript could not be matched to a known group member,\n",
          "so they were not added as attendees. If these are group members, an alias can be registered\n",
          "for them in the app so future transcripts recognise them automatically:"]) unresolvedSpeakers])

def renderStatus (jobId statusText : Text) : Rendered :=
  (cat ["Status of ", jobId], render ["Job ID: ", jobId, "\nStatus: ", statusText])

def renderResults (jobId statusText : Text) (groupName meetingDate : Option Text)
    (resolvedAttendees unresolvedSpeakers : List Text) : Rendered :=
  (cat ["Results for ", jobId],
    render ["Job ID: ", jobId, "\nStatus: ", statusText, "\n",
      ifSet groupName fun g => ["Group: ", g, "\n"],
      ifSet meetingDate fun d => ["Meeting date: ", d, "\n"],
      ifNames "Attendees recognised from the transcript:" resolvedAttendees,
      ifNames "Speaker labels not matched to a known group member:" unresolvedSpeakers])

def renderCancelled (jobId : Text) : Rendered :=
  (cat ["Cancelled — ", jobId],
    render ["Job ID: ", jobId, "\n\nYour request has been cancelled and will not be processed further."])

def renderCannotCancel (jobId statusText : Text) : Rendered :=
  (cat ["Could not cancel — ", jobId],
    render ["Job ID: ", jobId, "\nCurrent status: ", statusText, "\n\n",
      "This request has already been processed (or finished processing) and can no longer be\n",
      "cancelled. No action is required unless you would like to submit a new request."])

def renderAssessAck (jobId : Text) : Rendered :=
  (cat ["Looking into your question — ", jobId],
    render ["I've received your question and I'm looking into it now.\n\nJob ID: ", jobId, "\n\n",
      "You'll receive another email with what I found once I'm done."])

def renderAssessResult (jobId groupName : Text) (transcriptAnswer githubTrelloAnswer : Option Text)
    (trelloChecked : Bool)
    (unavailableNotes : List Text) : Rendered :=
  (cat ["Here's what I found — ", jobId],
    render ["Job ID: ", jobId, "\n",
      ifSet (some groupName) fun g => ["Group: ", g, "\n"],
      ifSet transcriptAnswer fun answer => ["\nFrom past meeting transcripts:\n", answer, "\n"],
      ifSet githubTrelloAnswer fun answer =>
        ["\nFrom your group's GitHub", if trelloChecked then " and Trello" else "", ":\n", answer, "\n"],
      if unavailableNotes = [] then [] else "\n" ++ cat (unavailableNotes.map fun note => cat ["- ", note, "\n"])])

/-- The result holds the answers and the notes, apart from white space around them. -/
theorem renderAssessResult_holds {jobId groupName : Text} {t r : Option Text} {trelloChecked : Bool} {notes : List Text}
    {text : Text} (h : t = some text ∨ r = some text ∨ text ∈ notes) :
    strip text <:+: (renderAssessResult jobId groupName t r trelloChecked notes).2 := by
  cases text with
  | nil => exact List.nil_infix
  | cons c text =>
    refine strip_infix_rendered ?_
    rcases h with rfl | rfl | hnote
    · have hpart : c :: text <:+: cat ["\nFrom past meeting transcripts:\n", c :: text, "\n"] :=
        List.infix_of_mem_flatten (.tail _ (.head _))
      exact hpart.trans (List.infix_of_mem_flatten (.tail _ (.tail _ (.tail _ (.tail _ (.head _))))))
    · have hpart : c :: text <:+: cat ["\nFrom your group's GitHub", if trelloChecked then " and Trello" else "", ":\n",
          c :: text, "\n"] :=
        List.infix_of_mem_flatten (.tail _ (.tail _ (.tail _ (.head _))))
      exact hpart.trans (List.infix_of_mem_flatten (.tail _ (.tail _ (.tail _ (.tail _ (.tail _ (.head _)))))))
    · have hpart : c :: text <:+: cat (notes.map fun note => cat ["- ", note, "\n"]) :=
        (List.infix_of_mem_flatten (.tail _ (.head _))).trans (List.infix_of_mem_flatten (List.mem_map_of_mem hnote))
      refine (hpart.trans (List.suffix_append "\n".toList _).isInfix).trans ?_
      rw [if_neg (List.ne_nil_of_mem hnote)]
      exact List.infix_of_mem_flatten (.tail _ (.tail _ (.tail _ (.tail _ (.tail _ (.tail _ (.head _)))))))

def renderHelp : Rendered :=
  ("What can I ask this system to do?",
    render ["Here's what you can ask this system to do by email:\n\n",
      "- Email a .vtt transcript file to have it added to your group's records. Mention which group\n",
      "  it's for if you belong to more than one.\n",
      "- The system can access Trello cards (if added), GitHub repos (if added) and any meetings\n",
      "  that the group have had. You can email and ask for specific information about any of these\n",
      "  sources of information. It's helpful to specify a timeframe for your query to make the\n",
      "  response more targeted. If further clarification is need, the system will reply and ask \n",
      "  for it\n\n",
      "Audio recordings aren't accepted by email - please contact the admin to have those added\n",
      "directly."])

def renderUnrecognisedSender (adminEmail : Option Text) : Rendered :=
  ("You're not currently registered to use this system",
    render ["Thanks for your email, but this address isn't currently registered to use this system.\n\n",
      "If you believe you should have access, please contact ",
      (truthy adminEmail).getD "your system administrator", " to be added."])

end GroupAssessmentAgent
