import MailStack.Webmail.AccountDirectory

/-! The message that the webmail makes of what a user has composed. -/

namespace MailStack.Webmail

open Lib

inductive Purpose
  | send
  | draft
deriving DecidableEq

def maxComposeBodyChars : Nat := 2000000

def maxHeaderLineBytes : Nat := 998

def maxRecipients : Nat := 100

def composeBodyLimitBytes : Nat := 32 * 1024 * 1024

def maxAttachmentTotalBytes : Nat := 25 * 1024 * 1024

def maxAttachments : Nat := 50

def maxAddressLen : Nat := 320

def maxSubjectChars : Nat := 400

structure AttachmentInput where
  filename : String
  contentType : Option String
  dataBase64 : String

structure ComposeRequest where
  «to» : List String
  cc : List String
  bcc : List String
  subject : String
  text : Option String
  html : Option String
  inReplyTo : Option String
  references : List String
  attachments : List AttachmentInput

structure DecodedAttachment where
  filename : String
  contentType : String
  data : List UInt8
deriving DecidableEq

structure ValidatedCompose where
  «to» : List String
  cc : List String
  bcc : List String
  subject : String
  text : Option String
  html : Option String
  inReplyTo : Option String
  references : List String
  attachments : List DecodedAttachment
  recipients : List String
deriving DecidableEq

structure BuiltMessage where
  data : String
  envelopeFrom : String
  recipients : List String
  subject : String

structure WebmailError where
  status : Nat
  code : String
  message : String
deriving DecidableEq

namespace WebmailError

def badRequest (code message : String) : WebmailError := { status := 400, code, message }

def payloadTooLarge (message : String) : WebmailError :=
  { status := 413, code := "PAYLOAD_TOO_LARGE", message }

/-- What has gone wrong is only logged. -/
def internal : WebmailError :=
  { status := 500, code := "INTERNAL_ERROR", message := "internal server error" }

end WebmailError

/-- The standard alphabet of base64, with padding. -/
structure Base64 where
  encode : List UInt8 → String
  decode : String → Option (List UInt8)

def isLocalByte (c : Char) : Bool :=
  c.isAlphanum ||
    ['.', '!', '#', '$', '%', '&', '\'', '*', '+', '-', '/', '=', '?', '^', '_', '\x60', '\x7b', '|',
      '\x7d', '~'].contains c

def startsWith (s : String) (c : Char) : Bool := s.toList.head? = some c

def endsWith (s : String) (c : Char) : Bool := s.toList.getLast? = some c

def refuseAddress (field problem : String) : WebmailError :=
  .badRequest "INVALID_ADDRESS" (field ++ " contains an " ++ problem)

def validLocal (localPart : String) : Bool :=
  !startsWith localPart '.' && !endsWith localPart '.' && !containsText localPart ".." &&
    localPart.toList.all isLocalByte

def validDomainLabels (domain : String) : Bool :=
  !startsWith domain '.' && !endsWith domain '.' && !containsText domain ".." &&
    (domain.toList.splitOn '.').all fun label =>
      !label.isEmpty && label.head? ≠ some '-' && label.getLast? ≠ some '-' &&
        label.all fun c => c.isAlphanum || c = '-'

def validateAddress (raw field : String) : Except WebmailError String :=
  let address := trim raw
  if address.isEmpty then .error (refuseAddress field "empty address")
  else if maxAddressLen < (bytes address).length then
    .error (refuseAddress field
      ("address longer than " ++ toString maxAddressLen ++ " characters"))
  else if address.toList.any isControl then
    .error (.badRequest "HEADER_INJECTION" (field ++ " contains control characters"))
  else
    match rsplitOnce '@' address with
    | none => .error (refuseAddress field "address without '@'")
    | some (localPart, domain) =>
      if localPart.isEmpty || domain.isEmpty then
        .error (refuseAddress field "address with an empty local part or domain")
      else if contains localPart '@' then
        .error (refuseAddress field "address with multiple '@'")
      else if !validLocal localPart then
        .error (refuseAddress field "address with unsupported local-part characters")
      else if !validDomainLabels domain then
        .error (refuseAddress field "address with an invalid domain")
      else .ok address

def validateAddressList (addresses : List String) (field : String) :
    Except WebmailError (List String) :=
  addresses.mapM fun raw => validateAddress raw field

def validateSubject (raw : String) : Except WebmailError String :=
  let subject := trim raw
  if maxSubjectChars < subject.length then
    .error (.badRequest "INVALID_SUBJECT"
      ("subject must be at most " ++ toString maxSubjectChars ++ " characters"))
  else if subject.toList.any isControl then
    .error (.badRequest "HEADER_INJECTION"
      "subject contains control characters (CR/LF/NUL are never folded)")
  else .ok subject

def validateBody (raw : Option String) (field : String) : Except WebmailError (Option String) :=
  match raw with
  | none => .ok none
  | some body =>
    if maxComposeBodyChars < body.length then
      .error (.payloadTooLarge
        (field ++ " body exceeds " ++ toString maxComposeBodyChars ++ " characters"))
    else .ok (some body)

def validateMessageId (raw : Option String)
    (field : String) : Except WebmailError (Option String) :=
  match raw with
  | none => .ok none
  | some raw =>
    let value := trim raw
    if value.isEmpty then .ok none
    else if value.toList.any isControl then
      .error (.badRequest "HEADER_INJECTION" (field ++ " contains control characters"))
    else if maxHeaderLineBytes < (bytes value).length then
      .error (.badRequest "INVALID_REFERENCES" (field ++ " value is too long"))
    else if !startsWith value '<' || !endsWith value '>' || (bytes value).length < 3 then
      .error (.badRequest "INVALID_REFERENCES" (field ++ " must be a <message-id> value"))
    else .ok (some value)

def isTokenByte (c : Char) : Bool :=
  c.isAlphanum ||
    ['!', '#', '$', '%', '&', '\'', '*', '+', '-', '.', '^', '_', '\x60', '|', '~'].contains c

def isToken (value : String) : Bool := !value.isEmpty && value.toList.all isTokenByte

def validateContentType (raw : String) : Except WebmailError String :=
  match splitOnce '/' (trim raw) with
  | none =>
    .error (.badRequest "INVALID_ATTACHMENT" "attachment contentType must be in type/subtype form")
  | some (mimeType, subtype) =>
    if !isToken mimeType || !isToken subtype then
      .error (.badRequest "INVALID_ATTACHMENT" "attachment contentType contains invalid characters")
    else .ok (toAsciiLowercase mimeType ++ "/" ++ toAsciiLowercase subtype)

def sanitizeFilename (raw : String) : String :=
  let cleaned := String.ofList <| raw.toList.filter fun c =>
    !(['/', '\\', '"', ';', ':'].contains c) && !isControl c
  let trimmed := trim cleaned
  let trimmed := if trimmed.isEmpty then "attachment" else trimmed
  String.ofList (trimmed.toList.take 200)

section Codec

variable (codec : Base64)

/-- The loop over the attachments, with the bytes of those before. -/
def decodeEach : Nat → List AttachmentInput → Except WebmailError (List DecodedAttachment)
  | _, [] => .ok []
  | total, input :: rest =>
    let cleaned := String.ofList (input.dataBase64.toList.filter fun c => !isWhitespace c)
    match codec.decode cleaned with
    | none =>
      .error (.badRequest "INVALID_ATTACHMENT" "attachment data is not valid base64")
    | some data =>
      let total := satAdd u64Max total data.length
      if maxAttachmentTotalBytes < total then
        .error (.payloadTooLarge ("attachments exceed the " ++
          toString (maxAttachmentTotalBytes / (1024 * 1024)) ++ " MiB total limit"))
      else
        match (input.contentType.map validateContentType).getD (.ok "application/octet-stream") with
        | .error error => .error error
        | .ok contentType =>
          (decodeEach total rest).map
            ({ filename := sanitizeFilename input.filename, contentType, data } :: ·)

def decodeAttachments (inputs : List AttachmentInput) :
    Except WebmailError (List DecodedAttachment) :=
  if maxAttachments < inputs.length then
    .error (.badRequest "TOO_MANY_ATTACHMENTS"
      ("at most " ++ toString maxAttachments ++ " attachments are allowed"))
  else decodeEach codec 0 inputs

/-- The addresses, each once, whatever the case it is written in. -/
def distinctRecipients : List String → List String → List String
  | _, [] => []
  | seen, address :: rest =>
    let key := toAsciiLowercase address
    if seen.contains key then distinctRecipients seen rest
    else address :: distinctRecipients (key :: seen) rest

def validateCompose (request : ComposeRequest) (purpose : Purpose) :
    Except WebmailError ValidatedCompose := do
  let receivers ← validateAddressList request.to "to"
  let cc ← validateAddressList request.cc "cc"
  let bcc ← validateAddressList request.bcc "bcc"
  let recipients := distinctRecipients [] (receivers ++ cc ++ bcc)
  if purpose = .send && recipients.isEmpty then
    throw (.badRequest "NO_RECIPIENTS" "at least one recipient (to, cc or bcc) is required")
  if maxRecipients < recipients.length then
    throw (.badRequest "TOO_MANY_RECIPIENTS"
      ("at most " ++ toString maxRecipients ++ " recipients are allowed"))
  let subject ← validateSubject request.subject
  let text ← validateBody request.text "text"
  let html ← validateBody request.html "html"
  let inReplyTo ← validateMessageId request.inReplyTo "inReplyTo"
  let references ← request.references.mapM fun reference =>
    validateMessageId (some reference) "references"
  let attachments ← decodeAttachments codec request.attachments
  pure
    { «to» := receivers, cc, bcc, subject, text, html, inReplyTo
      references := references.filterMap id, attachments, recipients }

/-- The list in parts of the size, of which the last one may be shorter. -/
def chunksFor {α : Type} (size : Nat) : Nat → List α → List (List α)
  | 0, _ => []
  | _, [] => []
  | fuel + 1, rest => rest.take size :: chunksFor size fuel (rest.drop size)

def chunks {α : Type} (size : Nat) (xs : List α) : List (List α) := chunksFor size xs.length xs

def encodeRfc2047 (value : String) : String :=
  "\r\n ".intercalate
    ((chunks 45 (bytes value)).map fun chunk => "=?UTF-8?B?" ++ codec.encode chunk ++ "?=")

def isAscii (s : String) : Bool := s.toList.all fun c => c.val < 128

def escapeChar (special : List Char) (c : Char) : List Char :=
  if special.contains c then ['\\', c] else [c]

def escaped (special : List Char) (s : String) : String :=
  String.ofList (s.toList.flatMap (escapeChar special))

def encodeFrom (account : Account) : String :=
  let name := trim account.displayName
  if name.isEmpty then account.email
  else if isAscii name then
    let needsQuotes := startsWith name ' ' || endsWith name ' ' ||
      name.toList.any fun c =>
        ['(', ')', '<', '>', '[', ']', ':', ';', '@', '\\', ',', '.', '"'].contains c
    if needsQuotes then "\"" ++ escaped ['\\', '"'] name ++ "\" <" ++ account.email ++ ">"
    else name ++ " <" ++ account.email ++ ">"
  else encodeRfc2047 codec name ++ " <" ++ account.email ++ ">"

def encodeHeaderValue (value : String) : String :=
  if isAscii value then value else encodeRfc2047 codec value

def base64Lines (data : List UInt8) : String :=
  "\r\n".intercalate ((chunks 76 (codec.encode data).toList).map String.ofList)

def asciiFilenameFallback (filename : String) : String :=
  let fallback := String.ofList <| filename.toList.map fun c =>
    if c.val < 128 && !(['"', '\\'].contains c) then c else '_'
  if (trim fallback).isEmpty then "attachment" else fallback

def isAttributeByte (b : UInt8) : Bool :=
  let c := Char.ofNat b.toNat
  c.isAlphanum || ['!', '#', '$', '&', '+', '-', '.', '^', '_', '\x60', '|', '~'].contains c

def rfc2231Encode (filename : String) : String :=
  String.ofList <| (bytes filename).flatMap fun b =>
    if isAttributeByte b then [Char.ofNat b.toNat] else '%' :: (hexChars b).map Char.toUpper

def escapeHeaderQuoted (value : String) : String :=
  escaped ['\\', '"']
    (String.ofList (value.toList.filter fun c => !(['\r', '\n', '\x00'].contains c)))

def textPart (contentType content : String) : String :=
  "Content-Type: " ++ contentType ++
    "; charset=utf-8\r\nContent-Transfer-Encoding: base64\r\n\r\n" ++
    base64Lines codec (bytes content)

def textPartBody (content : String) : String := base64Lines codec (bytes content)

def attachmentPart (attachment : DecodedAttachment) : String :=
  let filename := attachment.filename
  let disposition := "attachment; filename=\"" ++
    escapeHeaderQuoted (asciiFilenameFallback filename) ++ "\"" ++
    (if isAscii filename then "" else "; filename*=UTF-8''" ++ rfc2231Encode filename)
  "Content-Type: " ++ attachment.contentType ++
    "\r\nContent-Transfer-Encoding: base64\r\nContent-Disposition: " ++ disposition ++ "\r\n\r\n" ++
    base64Lines codec attachment.data

/-- The type of the body, its transfer encoding and its text. -/
def buildBody (validated : ValidatedCompose) (altBoundary mixBoundary : String) :
    String × Option String × String :=
  let hasHtml := validated.html.isSome
  let both := validated.text.isSome && hasHtml
  let text := validated.text.getD ""
  let html := validated.html.getD ""
  let (bodyContentType, bodyBody) :=
    if both then
      ("multipart/alternative; boundary=\"" ++ altBoundary ++ "\"",
        "--" ++ altBoundary ++ "\r\n" ++ textPart codec "text/plain" text ++ "\r\n" ++
          ("--" ++ altBoundary ++ "\r\n" ++ textPart codec "text/html" html ++ "\r\n") ++
          ("--" ++ altBoundary ++ "--\r\n"))
    else if hasHtml then ("text/html; charset=utf-8", textPartBody codec html)
    else ("text/plain; charset=utf-8", textPartBody codec text)
  if validated.attachments.isEmpty then
    (bodyContentType, if both then none else some "base64", bodyBody ++ "\r\n")
  else
    let first :=
      if both then "Content-Type: " ++ bodyContentType ++ "\r\n\r\n" ++ bodyBody ++ "\r\n"
      else
        "Content-Type: " ++
          (if hasHtml then "text/html; charset=utf-8" else "text/plain; charset=utf-8") ++
          "\r\nContent-Transfer-Encoding: base64\r\n\r\n" ++ bodyBody ++ "\r\n"
    let parts := validated.attachments.map fun attachment =>
      "--" ++ mixBoundary ++ "\r\n" ++ attachmentPart codec attachment ++ "\r\n"
    ("multipart/mixed; boundary=\"" ++ mixBoundary ++ "\"", none,
      "--" ++ mixBoundary ++ "\r\n" ++ first ++ String.join parts ++ "--" ++ mixBoundary ++ "--\r\n")

structure DateTime where
  weekday : Fin 7
  day : Nat
  month : Fin 12
  year : Nat
  hour : Nat
  minute : Nat
  second : Nat

def weekdayNames : List String := ["Mon", "Tue", "Wed", "Thu", "Fri", "Sat", "Sun"]

def monthNames : List String :=
  ["Jan", "Feb", "Mar", "Apr", "May", "Jun", "Jul", "Aug", "Sep", "Oct", "Nov", "Dec"]

def padded (width n : Nat) : String :=
  String.ofList (List.replicate (width - (toString n).length) '0') ++ toString n

def formatRfc2822 (datetime : DateTime) : String :=
  weekdayNames[datetime.weekday] ++ ", " ++ padded 2 datetime.day ++ " " ++
    monthNames[datetime.month] ++ " " ++ padded 4 datetime.year ++ " " ++ padded 2 datetime.hour ++
    ":" ++ padded 2 datetime.minute ++ ":" ++ padded 2 datetime.second ++ " +0000"

structure Drawn where
  altBoundary : List UInt8
  mixBoundary : List UInt8
  messageId : List UInt8
  now : DateTime

def uniqueBoundary (kind : String) (drawn : List UInt8) : String :=
  kind ++ "-" ++ hexEncode drawn ++ "-mailstack"

def generateMessageId (email : String) (drawn : List UInt8) : String :=
  let domain := (((rsplitOnce '@' email).map (·.2)).filter fun domain => !domain.isEmpty).getD
    "localhost"
  "<" ++ hexEncode drawn ++ "@" ++ domain ++ ">"

/-- The fields of the header section, and the body. -/
def composeFields (account : Account) (validated : ValidatedCompose) (purpose : Purpose)
    (drawn : Drawn) : List (String × String) × String :=
  let (contentType, transferEncoding, body) := buildBody codec validated
    (uniqueBoundary "alt" drawn.altBoundary) (uniqueBoundary "mix" drawn.mixBoundary)
  ([("From", encodeFrom codec account)] ++
    (if validated.to.isEmpty then [] else [("To", ", ".intercalate validated.to)]) ++
    (if validated.cc.isEmpty then [] else [("Cc", ", ".intercalate validated.cc)]) ++
    (if purpose = .draft && !validated.bcc.isEmpty then [("Bcc", ", ".intercalate validated.bcc)]
      else []) ++
    [("Subject", encodeHeaderValue codec validated.subject), ("Date", formatRfc2822 drawn.now),
      ("Message-ID", generateMessageId account.email drawn.messageId)] ++
    (validated.inReplyTo.toList.map fun inReplyTo => ("In-Reply-To", inReplyTo)) ++
    (if validated.references.isEmpty then []
      else [("References", " ".intercalate validated.references)]) ++
    [("MIME-Version", "1.0"), ("Content-Type", contentType)] ++
    (transferEncoding.toList.map fun encoding => ("Content-Transfer-Encoding", encoding)), body)

def renderField (field : String × String) : String := field.1 ++ ": " ++ field.2

/-- The fields, an empty line and the body, with a line end after it. -/
def messageText (fields : List (String × String)) (body : String) : String :=
  let message :=
    String.join (fields.map fun field => renderField field ++ "\r\n") ++ "\r\n" ++ body
  if ['\r', '\n'].isSuffixOf message.toList then message else message ++ "\r\n"

def buildMessage (account : Account) (request : ComposeRequest) (purpose : Purpose)
    (drawn : Drawn) : Except WebmailError BuiltMessage :=
  match validateCompose codec request purpose with
  | .error error => .error error
  | .ok validated =>
    let (fields, body) := composeFields codec account validated purpose drawn
    let message := messageText fields body
    if composeBodyLimitBytes < (bytes message).length then
      .error (.payloadTooLarge "composed message exceeds the 32 MiB limit")
    else if !isAscii message then .error .internal
    else
      .ok
        { data := message, envelopeFrom := account.email, recipients := validated.recipients
          subject := validated.subject }

end Codec

end MailStack.Webmail
