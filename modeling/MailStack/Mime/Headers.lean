import MailStack.Lib.Text

/-! The headers of a message and where they end. -/

namespace MailStack.Mime

open Lib

def maxHeaderBytes : Nat := 1024 * 1024

def maxHeaderLines : Nat := 2000

def cr : UInt8 := 13

def lf : UInt8 := 10

structure HeaderLine where
  name : String
  raw : List UInt8
  value : String

structure Headers where
  lines : List HeaderLine

namespace Headers

def get (headers : Headers) (name : String) : Option String :=
  (headers.lines.find? fun line => eqIgnoreAsciiCase line.name name).map (·.value)

def getAll (headers : Headers) (name : String) : List String :=
  (headers.lines.filter fun line => eqIgnoreAsciiCase line.name name).map (·.value)

end Headers

/-- Where `needle`, which is not empty, begins for the first time. -/
def find (needle : List UInt8) : List UInt8 → Option Nat
  | [] => none
  | byte :: rest =>
    if needle.isPrefixOf (byte :: rest) then some 0 else (find needle rest).map (· + 1)

def splitHeadersBody (message : List UInt8) : List UInt8 × List UInt8 :=
  match find [cr, lf, cr, lf] message with
  | some position => (message.take (position + 2), message.drop (position + 4))
  | none =>
    match find [lf, lf] message with
    | some position => (message.take (position + 1), message.drop (position + 2))
    | none => (message, [])

/-- The lines with the LF that ends them. -/
def splitInclusive : List UInt8 → List (List UInt8)
  | [] => []
  | byte :: rest =>
    if byte = lf then [byte] :: splitInclusive rest
    else
      match splitInclusive rest with
      | [] => [[byte]]
      | line :: lines => (byte :: line) :: lines

def stripSuffix (byte : UInt8) (line : List UInt8) : List UInt8 :=
  if line.getLast? = some byte then line.dropLast else line

/-- The line goes on with the last header. -/
def unfold (raw trimmed : List UInt8) (line : HeaderLine) : HeaderLine :=
  let value := trim (fromUtf8Lossy trimmed)
  { line with
    raw := line.raw ++ raw
    value :=
      if value.isEmpty then line.value
      else if line.value.isEmpty then value
      else line.value ++ " " ++ value }

/-- The header that a line begins, if it has the form of one. -/
def parseHeader (raw trimmed : List UInt8) : Option HeaderLine :=
  match trimmed.findIdx? (· = 58) with
  | none => none
  | some colon =>
    let name := toAsciiLowercase (trim (fromUtf8Lossy (trimmed.take colon)))
    if name.isEmpty || !name.toList.all fun c => 0x21 ≤ c.val && c.val ≤ 0x7e then none
    else some { name, raw, value := trim (fromUtf8Lossy (trimmed.drop (colon + 1))) }

/-- The loop over the lines. A folded line before the first header belongs to nothing. -/
def parseLines : List HeaderLine → List (List UInt8) → List HeaderLine
  | headers, [] => headers
  | headers, raw :: rest =>
    if headers.length ≥ maxHeaderLines then headers
    else
      let trimmed := stripSuffix cr (stripSuffix lf raw)
      if trimmed.isEmpty then headers
      else if trimmed.head? = some 32 || trimmed.head? = some 9 then
        parseLines (headers.modifyLast (unfold raw trimmed)) rest
      else
        match parseHeader raw trimmed with
        | none => parseLines headers rest
        | some header => parseLines (headers ++ [header]) rest

def parseHeaders (message : List UInt8) : Headers :=
  { lines := parseLines [] (splitInclusive ((splitHeadersBody message).1.take maxHeaderBytes)) }

example : (parseHeaders (bytes "Subject: a\r\n b\r\nFrom: x@example.com\r\n\r\nbody")).get "subject" =
    some "a b" := by decide +kernel

end MailStack.Mime
