import MailStack.Mime.Headers

/-! The type of a body, the parts of a multipart body and the decoding of a transfer encoding. -/

namespace MailStack.Mime

open Lib

def maxParts : Nat := 1000

structure ContentType where
  mimeType : String
  subtype : String
  params : List (String × String)

namespace ContentType

def isMultipart (content : ContentType) : Bool := eqIgnoreAsciiCase content.mimeType "multipart"

def isText (content : ContentType) : Bool := eqIgnoreAsciiCase content.mimeType "text"

def param (content : ContentType) (name : String) : Option String :=
  (content.params.find? fun p => eqIgnoreAsciiCase p.1 name).map (·.2)

end ContentType

/-- The loop over the characters of the value. A semicolon between quotes does not end a segment. -/
def segmentsLoop (segments : List String) (current : List Char) (inQuote escaped : Bool) :
    List Char → List String
  | [] => segments ++ [String.ofList current]
  | c :: rest =>
    if c = '\\' && inQuote && !escaped then
      segmentsLoop segments (current ++ [c]) inQuote true rest
    else if c = '"' && !escaped then
      segmentsLoop segments (current ++ [c]) (!inQuote) escaped rest
    else if c = ';' && !inQuote then
      segmentsLoop (segments ++ [String.ofList current]) [] inQuote escaped rest
    else segmentsLoop segments (current ++ [c]) inQuote false rest

def unescape : List Char → List Char
  | [] => []
  | ['\\'] => []
  | '\\' :: c :: rest => c :: unescape rest
  | c :: rest => c :: unescape rest

def unquote (value : String) : String :=
  let value := trim value
  if value.toList.length ≥ 2 && value.toList.head? = some '"' && value.toList.getLast? = some '"' then
    String.ofList (unescape (value.toList.drop 1).dropLast)
  else value

def parseParam (segment : String) : Option (String × String) :=
  match splitOnce '=' segment with
  | none => none
  | some (key, raw) =>
    let key := toAsciiUppercase (trimMatches '"' (trim key))
    if key.isEmpty then none else some (key, unquote (trim raw))

/-- The type and the subtype that the first segment names. -/
def parseTypes (head : String) : String × String :=
  let types :=
    match splitOnce '/' head with
    | some (mimeType, subtype) =>
      (toAsciiLowercase (trim mimeType),
        toAsciiLowercase ((splitWhitespace subtype).head?.getD ""))
    | none =>
      if head.isEmpty then ("application", "octet-stream") else (toAsciiLowercase head, "")
  if types.1.isEmpty || types.2.isEmpty then ("application", "octet-stream") else types

def parseContentTypeValue : Option String → ContentType
  | none => { mimeType := "text", subtype := "plain", params := [] }
  | some value =>
    let segments := segmentsLoop [] [] false false value.toList
    let types := parseTypes (trim (segments.head?.getD ""))
    { mimeType := types.1
      subtype := types.2
      params := (segments.drop 1).filterMap parseParam }

def contentType (headers : Headers) : ContentType :=
  parseContentTypeValue (headers.get "content-type")

def trimAscii (line : List UInt8) : List UInt8 :=
  (line.reverse.dropWhile fun b => b = cr || b = lf || b = 32 || b = 9).reverse

def trimOneCrlf (value : List UInt8) : List UInt8 :=
  if [cr, lf] <:+ value then value.dropLast.dropLast
  else if [lf] <:+ value then value.dropLast
  else value

/-- The loop over the lines of a body. `part` is what has been read of the part that is open. -/
def partsLoop (marker closing : List UInt8) (parts : List (List UInt8)) :
    Option (List UInt8) → List (List UInt8) → List (List UInt8)
  | part, [] => parts ++ (part.map trimOneCrlf).toList
  | part, line :: rest =>
    let ended := parts ++ (part.map trimOneCrlf).toList
    if trimAscii line = marker then
      if ended.length ≥ maxParts then ended ++ [trimOneCrlf rest.flatten]
      else partsLoop marker closing ended (some []) rest
    else if trimAscii line = closing then ended
    else partsLoop marker closing parts (part.map (· ++ line)) rest

def multipartParts (body : List UInt8) (boundary : String) : List (List UInt8) :=
  partsLoop (bytes ("--" ++ boundary)) (bytes ("--" ++ boundary ++ "--")) [] none
    (splitInclusive body)

def hexDigit (byte : UInt8) : Option Nat :=
  if 48 ≤ byte && byte ≤ 57 then some (byte.toNat - 48)
  else if 97 ≤ byte && byte ≤ 102 then some (byte.toNat - 97 + 10)
  else if 65 ≤ byte && byte ≤ 70 then some (byte.toNat - 65 + 10)
  else none

/-- The loop over the bytes, of which the first `skip` have been read. An equals sign that begins
neither a soft line break nor two digits is kept. -/
def quotedPrintableLoop : Nat → List UInt8 → List UInt8
  | _, [] => []
  | skip + 1, _ :: rest => quotedPrintableLoop skip rest
  | 0, byte :: rest =>
    if byte ≠ 61 then byte :: quotedPrintableLoop 0 rest
    else if rest.take 2 = [cr, lf] then quotedPrintableLoop 2 rest
    else if rest.head? = some lf then quotedPrintableLoop 1 rest
    else
      match rest[0]?.bind hexDigit, rest[1]?.bind hexDigit with
      | some high, some low => UInt8.ofNat (high * 16 + low) :: quotedPrintableLoop 2 rest
      | _, _ => byte :: quotedPrintableLoop 0 rest

def decodeQuotedPrintable (input : List UInt8) : List UInt8 := quotedPrintableLoop 0 input

/-- The bytes that `u8::is_ascii_whitespace` accepts. -/
def isAsciiWhitespace (b : UInt8) : Bool := b = 9 || b = lf || b = 12 || b = cr || b = 32

/-- `decodeBase64` is the decoder of the standard alphabet with padding. -/
def decodeTransferEncoding (decodeBase64 : List UInt8 → Option (List UInt8)) (body : List UInt8)
    (encoding : String) : List UInt8 :=
  match toAsciiLowercase (trim encoding) with
  | "base64" => (decodeBase64 (body.filter fun b => !isAsciiWhitespace b)).getD body
  | "quoted-printable" => decodeQuotedPrintable body
  | _ => body

example : decodeQuotedPrintable (bytes "a=3Db=\r\nc=\nd=x") = bytes "a=bcd=x" := by decide

end MailStack.Mime
