import MailStack.Mime.Body

/-! How strings, addresses and the envelope of a message are written in answers of IMAP. -/

namespace MailStack.Mime

open Lib

def quotedChar : Char → List Char
  | '"' => ['\\', '"']
  | '\\' => ['\\', '\\']
  | '\r' => [' ']
  | '\n' => [' ']
  | c => [c]

def quotedString (value : String) : String :=
  "\"" ++ String.ofList (value.toList.flatMap quotedChar) ++ "\""

/-- `render::string`: a literal where a quoted string cannot carry the characters. -/
def renderString (value : String) : String :=
  if value.toList.any fun c => 0x7f < c.val || (isControl c && c ≠ '\t') then
    "\x7b" ++ toString (bytes value).length ++ "\x7d\r\n" ++ value
  else quotedString value

def renderNstring : Option String → String
  | some value => renderString value
  | none => "NIL"

structure Address where
  name : String
  mailbox : String
  host : String

def withoutGroup (token : String) : String :=
  match splitOnce ':' token with
  | none => token
  | some (group, rest) =>
    if contains group '@' || contains group '<' then token else trim rest

/-- The name and the address of a token with angle brackets, or the address alone. -/
def nameAndAddress (token : String) : String × String :=
  match rsplitOnce '<' token, rsplitOnce '>' token with
  | some (name, _), some (untilClose, _) =>
    if name.length < untilClose.length then
      (unquote (trim name), trim (String.ofList (untilClose.toList.drop (name.length + 1))))
    else ("", token)
  | _, _ => ("", token)

def pushAddress (raw : String) : Option Address :=
  let token := trim raw
  if token.isEmpty then none
  else
    let token := withoutGroup token
    if token.isEmpty then none
    else
      let (name, addr) := nameAndAddress token
      if addr.isEmpty then none
      else
        let (mailbox, host) :=
          match rsplitOnce '@' addr with
          | some (mailbox, host) => (trim mailbox, trim host)
          | none => (addr, "")
        some { name, mailbox := trimMatches '"' mailbox, host := trimMatches '"' host }

/-- The loop over the characters: where a comma or a semicolon stands neither between quotes nor
between angle brackets, an address ends. -/
@[grind =] def addressesLoop (out : List Address) (current : List Char) (inQuote escaped : Bool)
    (angleDepth : Nat) : List Char → List Address
  | [] => out ++ (pushAddress (String.ofList current)).toList
  | c :: rest =>
    if escaped then addressesLoop out (current ++ [c]) inQuote false angleDepth rest
    else if c = '\\' && inQuote then
      addressesLoop out (current ++ [c]) inQuote true angleDepth rest
    else if c = '"' then addressesLoop out (current ++ [c]) (!inQuote) false angleDepth rest
    else if c = '<' && !inQuote then
      addressesLoop out (current ++ [c]) inQuote false (angleDepth + 1) rest
    else if c = '>' && !inQuote then
      addressesLoop out (current ++ [c]) inQuote false (angleDepth - 1) rest
    else if (c = ',' || c = ';') && !inQuote && angleDepth = 0 then
      addressesLoop (out ++ (pushAddress (String.ofList current)).toList) [] inQuote false angleDepth
        rest
    else addressesLoop out (current ++ [c]) inQuote false angleDepth rest

def parseAddresses (value : String) : List Address :=
  addressesLoop [] [] false false 0 value.toList

def nonempty (value : String) : Option String := if value.isEmpty then none else some value

def renderAddress (address : Address) : String :=
  "(" ++ renderNstring (nonempty address.name) ++ " NIL " ++ renderNstring (some address.mailbox) ++
    " " ++ renderNstring (nonempty address.host) ++ ")"

def addressList : Option String → String
  | none => "NIL"
  | some value =>
    let addresses := parseAddresses value
    if addresses.isEmpty then "NIL" else "(" ++ String.join (addresses.map renderAddress) ++ ")"

def envelope (headers : Headers) : String :=
  let sender := headers.get "from"
  "(" ++ " ".intercalate
    [renderNstring (headers.get "date"),
      renderNstring (headers.get "subject"),
      addressList sender,
      addressList (headers.get "sender" <|> sender),
      addressList (headers.get "reply-to" <|> sender),
      addressList (headers.get "to"),
      addressList (headers.get "cc"),
      addressList (headers.get "bcc"),
      renderNstring (headers.get "in-reply-to"),
      renderNstring (headers.get "message-id")] ++ ")"

end MailStack.Mime

/-! The structure of a message: its parts, the parts of the messages embedded in it, and how this is
written as a BODYSTRUCTURE. -/

namespace MailStack.Mime

open Lib

def maxDepth : Nat := 16

namespace ContentType

def isMessage (content : ContentType) : Bool :=
  eqIgnoreAsciiCase content.mimeType "message" && eqIgnoreAsciiCase content.subtype "rfc822"

def octetStream : ContentType :=
  { mimeType := "application", subtype := "octet-stream", params := [] }

end ContentType

def lineCount (body : List UInt8) : Nat :=
  if body.isEmpty then 0
  else if body.getLast? = some lf then body.count lf
  else body.count lf + 1

structure PartFields where
  content : ContentType
  id : Option String
  description : Option String
  encoding : String
  size : Nat

/-- A text has a number of lines; an embedded message has its headers, its structure and its
lines. -/
inductive Structure
  | leaf (fields : PartFields) (lines : Option Nat)
  | message (fields : PartFields) (headers : Headers) (embedded : Structure) (lines : Nat)
  | multipart (parts : List Structure) (subtype : String)

def transferEncoding (headers : Headers) : String :=
  let encoding := (headers.get "content-transfer-encoding").map fun value =>
    toAsciiUppercase (trim ((splitOnce ';' value).elim value Prod.fst))
  (encoding.filter (!·.isEmpty)).getD "7BIT"

/-- The parts of a multipart message whose boundary gives any. -/
def usableParts (message : List UInt8) : Option (List (List UInt8)) :=
  let content := contentType (parseHeaders message)
  if content.isMultipart then
    match content.param "boundary" with
    | none => none
    | some boundary =>
      let parts := multipartParts (splitHeadersBody message).2 boundary
      if parts.isEmpty then none else some parts
  else none

/-- What a message that has no parts is taken for: a multipart without a boundary is none. -/
def leafContent (message : List UInt8) : ContentType :=
  let content := contentType (parseHeaders message)
  if content.isMultipart then .octetStream else content

def partFields (message : List UInt8) (content : ContentType) : PartFields :=
  let headers := parseHeaders message
  { content
    id := headers.get "content-id"
    description := headers.get "content-description"
    encoding := transferEncoding headers
    size := (splitHeadersBody message).2.length }

/-- `part_structure`, with the number of levels that may still be looked into. -/
@[grind =] def structureAt : Nat → List UInt8 → Structure
  | 0, message => .leaf (partFields message .octetStream) none
  | levels + 1, message =>
    match usableParts message with
    | some parts =>
      .multipart ((parts.take maxParts).map (structureAt levels))
        (contentType (parseHeaders message)).subtype
    | none =>
      let content := leafContent message
      let fields := partFields message content
      let body := (splitHeadersBody message).2
      if content.isText then .leaf fields (some (lineCount body))
      else if content.isMessage then
        .message fields (parseHeaders body) (structureAt levels body) (lineCount body)
      else .leaf fields none

def renderParams (params : List (String × String)) : String :=
  if params.isEmpty then "NIL"
  else
    "(" ++ " ".intercalate (params.map fun p =>
      renderString (toAsciiUppercase p.1) ++ " " ++ renderString p.2) ++ ")"

def PartFields.render (fields : PartFields) : String :=
  "(" ++ " ".intercalate
    [renderString (toAsciiUppercase fields.content.mimeType),
      renderString (toAsciiUppercase fields.content.subtype),
      renderParams fields.content.params,
      renderNstring fields.id,
      renderNstring fields.description,
      renderString fields.encoding,
      toString fields.size]

mutual

def Structure.render : Structure → String
  | .leaf fields none => fields.render ++ ")"
  | .leaf fields (some lines) => fields.render ++ " " ++ toString lines ++ ")"
  | .message fields headers embedded lines =>
    fields.render ++ " " ++ envelope headers ++ " " ++ embedded.render ++ " " ++ toString lines ++ ")"
  | .multipart parts subtype =>
    "(" ++ renderAll parts ++ " " ++ renderString (toAsciiUppercase subtype) ++ ")"

def renderAll : List Structure → String
  | [] => ""
  | part :: rest => part.render ++ renderAll rest

end

def bodyStructure (message : List UInt8) : String := (structureAt maxDepth message).render

end MailStack.Mime
