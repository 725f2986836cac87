import GroupAssessmentAgent.Mail.ImapClient

/-!
# The Graph client

How the Graph client reads the verdicts of a message: from the header that Exchange Online Protection adds, as it comes
with the message's `internetMessageHeaders`.
-/

namespace GroupAssessmentAgent

/-- One of a message's `internetMessageHeaders`. -/
structure InternetMessageHeader where
  name : Option Text := none
  value : Option Text := none
  deriving DecidableEq

namespace GraphMailClient
variable [PyChars]

/-- `_header_value`. -/
def headerValue (headers : List InternetMessageHeader) (name : Text) : Option Text :=
  (headers.find? fun header => lower (header.name.getD []) = name).bind InternetMessageHeader.value

/-- `_parse_auth_signals`. -/
def parseAuthSignals (headers : List InternetMessageHeader) : AuthSignals :=
  match headerValue headers "authentication-results" with
  | none => {}
  | some raw => verdictSignals raw

end GraphMailClient

end GroupAssessmentAgent
