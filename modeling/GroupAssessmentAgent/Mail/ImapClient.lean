import GroupAssessmentAgent.Mail.Base

/-!
# The IMAP client

How a raw message becomes an `EmailMessage`. A raw message is what the mail parser made of it: its headers, its
top part, and the parts below it in the order of `walk`.
-/

namespace GroupAssessmentAgent
open Regex

/-- A MIME part. `payload` is `get_payload(decode=True)`. -/
structure MimePart where
  isMultipart : Bool := false
  contentType : Text := "text/plain"
  charset : Option Text := none
  disposition : Option Text := none
  filename : Option Text := none
  payload : Option Bytes := none
  deriving DecidableEq

def MimePart.isAttachment (part : MimePart) : Bool := part.disposition = some ("attachment" : Text)

structure RawMessage where
  headers : List (Text × Text)
  root : MimePart
  below : List MimePart := []
  deriving DecidableEq

namespace RawMessage

def walk (msg : RawMessage) : List MimePart := msg.root :: msg.below

/-- `msg.get(name)`: the first header of that name, in any case. -/
def get (msg : RawMessage) (name : Text) : Option Text :=
  (msg.headers.find? fun h => h.1.map Char.toLower = name.map Char.toLower).map Prod.snd

end RawMessage

/-! ### Text of the body -/

def notGt (c : Char) : Bool := c != '>'

/-- `<(script|style)[^>]*>.*?</\1>`, where `.` is any character. -/
def scriptRe : Re :=
  .seq (.lit "<") (.seq (.group 1 (.alt (litIgnoreCase "script") (litIgnoreCase "style")))
    (.seq (.star notGt) (.seq (.lit ">") (.seq (.lazy fun _ => true) (.seq (.lit "</")
      (.seq (.backref 1 fun a b => simpleLower a = simpleLower b) (.lit ">")))))))

/-- `<br\s*/?>`. -/
def brRe : Re :=
  .seq (.lit "<") (.seq (litIgnoreCase "br") (.seq (.star isSpace) (.seq (.opt (.lit "/")) (.lit ">"))))

/-- `</p>`. -/
def pRe : Re := .seq (.lit "</") (.seq (litIgnoreCase "p") (.lit ">"))

/-- `<[^>]+>`. -/
def tagRe : Re := .seq (.lit "<") (.seq (.plus notGt) (.lit ">"))

def stripHtml (html : Text) : Text :=
  strip (sub tagRe "" (sub pRe "\n\n" (sub brRe "\n" (sub scriptRe "" html))))

/-- `payload.decode(charset or "utf-8", errors="replace")`. -/
def decodePayload (out : Outside) (part : MimePart) (payload : Bytes) : Except Exc Text :=
  out.decode ((truthy part.charset).getD "utf-8") payload

/-- What one part of a multipart message adds to the text. -/
def partText (out : Outside) (part : MimePart) : Except Exc (Option Text) :=
  if part.isMultipart || part.isAttachment then .ok none
  else
    match part.payload with
    | none => .ok none
    | some payload =>
      if part.contentType = "text/plain" then some <$> decodePayload out part payload
      else if part.contentType = "text/html" then (fun t => some (stripHtml t)) <$> decodePayload out part payload
      else .ok none

def extractBodyText (out : Outside) (msg : RawMessage) : Except Exc Text :=
  if msg.root.isMultipart then do
    let texts ← msg.walk.mapM (partText out)
    return strip (join "\n\n" texts.reduceOption)
  else
    match msg.root.payload with
    | none => .ok []
    | some payload =>
      if msg.root.contentType = "text/html" then stripHtml <$> decodePayload out msg.root payload
      else decodePayload out msg.root payload

/-! ### Attachments and headers -/

def extractAttachments (msg : RawMessage) : List Attachment :=
  if msg.root.isMultipart then
    (msg.walk.filter MimePart.isAttachment).map fun part =>
      { filename := (truthy part.filename).getD "attachment"
        contentType := orText part.contentType "application/octet-stream"
        content := part.payload.getD [] }
  else []

/-- `_decode_header`. -/
def decodeHeaderValue (out : Outside) (value : Option Text) : Option Text :=
  value.map fun v => (out.decodeHeader v).getD v

/-- `<([^>]+)>`. -/
def angleRe : Re := .seq (.lit "<") (.seq (.group 1 (.plus notGt)) (.lit ">"))

section
variable [PyChars]

/-- `_extract_address`. -/
def extractAddress (value : Option Text) : Option Text :=
  (truthy value).map fun v =>
    match (search angleRe v).bind (·.group 1) with
    | some inner => lower (strip inner)
    | none => lower (strip v)

/-- `spf|dkim|dmarc`. -/
def methodRe : Re := .alt (.lit "spf") (.alt (.lit "dkim") (.lit "dmarc"))

/-- `\b(spf|dkim|dmarc)\s*=\s*([a-zA-Z]+)`. -/
def verdictRe : Re :=
  .seq (.wordB isWord) (.seq (.group 1 methodRe)
    (.seq (.star isSpace) (.seq (.lit "=") (.seq (.star isSpace) (.group 2 (.plus isLetter))))))

/-- The value that the last of the matches gives to `key`. -/
def verdictOf (found : List Match) (key : Text) : Option Text :=
  (found.reverse.find? fun m => (m.group 1).map lower = some key).bind fun m => (m.group 2).map lower

/-- The verdicts in the text of a header. -/
def verdictSignals (raw : Text) : AuthSignals :=
  let found := findAll verdictRe raw
  { spf := verdictOf found "spf", dkim := verdictOf found "dkim", dmarc := verdictOf found "dmarc"
    rawHeader := some raw }

/-- `_parse_auth_signals`. -/
def parseAuthSignals (msg : RawMessage) : AuthSignals :=
  let raw := (truthy (msg.get "Authentication-Results")).getD ((truthy (msg.get "Received-SPF")).getD [])
  if raw = [] then {} else verdictSignals raw

/-- `_to_email_message`, where the clock reads `now` if the date header is of no use. -/
def toEmailMessage (out : Outside) (now : Datetime) (msg : RawMessage) (providerRef : Text) :
    Except Exc EmailMessage := do
  let bodyText ← extractBodyText out msg
  return {
    messageId := (truthy (msg.get "Message-ID")).getD providerRef
    providerRef
    fromAddress := (extractAddress (msg.get "From")).getD []
    subject := (decodeHeaderValue out (msg.get "Subject")).getD []
    bodyText
    receivedAt := ((truthy (msg.get "Date")).bind out.parseDatetime).getD now
    attachments := extractAttachments msg
    authSignals := parseAuthSignals msg
    inReplyTo := msg.get "In-Reply-To"
    references := msg.get "References" }

/-! ### A poll -/

/-- `reversed(ids[-limit:])`. -/
def window {α : Type} (limit : Nat) (ids : List α) : List α :=
  (if limit = 0 then ids else ids.drop (ids.length - limit)).reverse

/-- What the server gives for an unseen id: a message, or nothing when the fetch is not answered `OK`. -/
structure Unseen where
  ref : Text
  data : Option RawMessage

/-- The loop of `fetch_new_messages`. -/
def convertAll (out : Outside) (now : Datetime) : List Unseen → Except Exc (List EmailMessage)
  | [] => .ok []
  | u :: us =>
    match u.data with
    | none => convertAll out now us
    | some raw => do
      let msg ← toEmailMessage out now raw u.ref
      let msgs ← convertAll out now us
      return msg :: msgs

def defaultLimit : Nat := 25

/-- `fetch_new_messages`, for the unseen ids of the mailbox in ascending order. -/
def fetchNewMessages (out : Outside) (now : Datetime) (limit : Nat) (unseen : List Unseen) :
    Except Exc (List EmailMessage) :=
  convertAll out now (window limit unseen)

end

end GroupAssessmentAgent
