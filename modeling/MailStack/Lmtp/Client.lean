import MailStack.Queue.Entry
import MailStack.Smtp.DotStuffing

/-! The LMTP client: the lines that it sends and how it reads the answers to them. -/

namespace MailStack.Lmtp

open Lib Smtp

inductive StoreError
  | lmtp (message : String)
deriving DecidableEq

structure RecipientResult where
  recipient : String
  code : Nat
  message : String

/-- What is to be delivered, and the name that the client gives itself. -/
structure Delivering where
  heloName : String
  mailFrom : String
  recipients : List String
  data : String

def maxResponseLineBytes : Nat := 4096

def isPositive (code : Nat) : Bool := 200 ≤ code && code < 300

def isAsciiDigit (b : UInt8) : Bool := 48 ≤ b && b ≤ 57

def statusCode (line : String) : Nat :=
  ((bytes line).take 3).foldl (fun n b => 10 * n + (b.toNat - 48)) 0

def parseStatusLine (line : String) : Except StoreError (Nat × Bool) :=
  if (bytes line).length < 3 then .error (.lmtp ("malformed response: " ++ Queue.debugText line))
  else if !((bytes line).take 3).all isAsciiDigit then
    .error (.lmtp ("malformed status code: " ++ Queue.debugText line))
  else .ok (statusCode line, (bytes line)[3]? = some 45)

def collect (slots : List (Option RecipientResult)) : Except StoreError (List RecipientResult) :=
  if slots.any Option.isNone then
    .error (.lmtp "LMTP server did not answer for every recipient")
  else .ok (slots.filterMap id)

/-- The loop of `dot_stuff`. A CR before a line feed or at the end belongs to the line ending. -/
def dotStuffFrom : Bool → List Char → List Char
  | _, [] => []
  | atLineStart, c :: rest =>
    if c = '\n' then '\r' :: '\n' :: dotStuffFrom true rest
    else
      (if atLineStart && c = '.' then ['.'] else []) ++
        (if c = '\r' && (rest.isEmpty || rest.head? = some '\n') then [] else [c]) ++
          dotStuffFrom false rest

def dotStuff (data : String) : String := String.ofList (dotStuffFrom true data.toList)

def payload (data : String) : String :=
  let body := dotStuff data
  let separator := if crlf <:+ body.toList then "" else "\r\n"
  body ++ separator ++ ".\r\n"

def wireLines (text : String) : List String :=
  (text.toList.splitOn '\n').dropLast.map fun line => String.ofList (stripLineCr line)

/-- What the client waits for an answer to. `quit` and `finished` have the result of the call. -/
inductive Stage
  | greeting
  | lhlo
  | mail
  | rcpt (index : Nat)
  | data
  | replies
  | quit (result : Except StoreError (List RecipientResult))
  | finished (result : Except StoreError (List RecipientResult))

/-- `code` and `lines` are those of a response that has not ended. `awaited` is the number of
replies that the client waits for after the message; the client itself does not keep it. -/
structure LmtpClient where
  stage : Stage
  code : Option Nat
  lines : List String
  slots : List (Option RecipientResult)
  pending : List Nat
  awaited : Option Nat

def isForbidden (c : Char) : Bool := c = '\r' || c = '\n' || c = '\x00'

namespace LmtpClient

/-- The checks of `deliver` before it connects. -/
def start (job : Delivering) : Except StoreError LmtpClient :=
  let helo := trim job.heloName
  if job.recipients.isEmpty then .error (.lmtp "no recipients to deliver")
  else if job.mailFrom.toList.any isForbidden ||
      job.recipients.any fun recipient => recipient.toList.any isForbidden then
    .error (.lmtp "envelope address must not contain CR, LF or NUL (SMTP command injection)")
  else if helo.isEmpty || helo.toList.any isForbidden ||
      helo.toList.any fun c => isControl c || isWhitespace c then
    .error (.lmtp ("LHLO name must be a non-empty host name without spaces, CR, LF or NUL " ++
      "(SMTP command injection)"))
  else
    .ok { stage := .greeting, code := none, lines := [], slots := job.recipients.map fun _ => none,
          pending := [], awaited := none }

/-- `QUIT` is sent, and its answer does not change the result. -/
def leave (c : LmtpClient) (result : Except StoreError (List RecipientResult)) :
    LmtpClient × List String :=
  ({ c with stage := .quit result }, ["QUIT"])

def ask (job : Delivering) (c : LmtpClient) (index : Nat) : LmtpClient × List String :=
  match job.recipients[index]? with
  | some recipient => ({ c with stage := .rcpt index }, ["RCPT TO:<" ++ recipient ++ ">"])
  | none =>
    if c.pending.isEmpty then c.leave (collect c.slots) else ({ c with stage := .data }, ["DATA"])

def fail (c : LmtpClient) (message : String) : LmtpClient :=
  { c with stage := .finished (.error (.lmtp message)) }

def note (job : Delivering) (c : LmtpClient) (index code : Nat) (message : String) : LmtpClient :=
  { c with
    slots := c.slots.set index
      (some { recipient := job.recipients[index]?.getD "", code, message }) }

/-- What follows on a response. -/
def respond (job : Delivering) (c : LmtpClient) (code : Nat) (text : String) :
    LmtpClient × List String :=
  match c.stage with
  | .greeting =>
    if isPositive code then ({ c with stage := .lhlo }, ["LHLO " ++ trim job.heloName])
    else (c.fail ("LMTP server refused the connection: " ++ toString code ++ " " ++ text), [])
  | .lhlo =>
    if isPositive code then ({ c with stage := .mail }, ["MAIL FROM:<" ++ job.mailFrom ++ ">"])
    else (c.fail ("LHLO rejected: " ++ toString code ++ " " ++ text), [])
  | .mail =>
    if isPositive code then c.ask job 0
    else (c.fail ("MAIL FROM rejected: " ++ toString code ++ " " ++ text), [])
  | .rcpt index =>
    if isPositive code then { c with pending := c.pending ++ [index] }.ask job (index + 1)
    else (c.note job index code text).ask job (index + 1)
  | .data =>
    if code = 354 then
      ({ c with stage := .replies, awaited := some c.pending.length }, wireLines (payload job.data))
    else c.leave (.error (.lmtp ("DATA rejected: " ++ toString code ++ " " ++ text)))
  | .replies =>
    match c.pending with
    | [] => (c, [])
    | index :: rest =>
      let noted := { c.note job index code text with pending := rest }
      if rest.isEmpty then noted.leave (collect noted.slots) else (noted, [])
  | .quit result => ({ c with stage := .finished result }, [])
  | .finished _ => (c, [])

/-- No response can be read. After QUIT this is of no account. -/
def broken (c : LmtpClient) (error : StoreError) : LmtpClient :=
  match c.stage with
  | .quit result | .finished result => { c with stage := .finished result }
  | _ => { c with stage := .finished (.error error) }

def trimLineEnd (line : String) : String :=
  String.ofList (line.toList.reverse.dropWhile fun c => c = '\r' || c = '\n').reverse

/-- The next line of the server that is read; with its ending it has two bytes more. -/
def read (job : Delivering) (c : LmtpClient) (line : String) : LmtpClient × List String :=
  if (bytes line).length + 2 > maxResponseLineBytes then
    (c.broken (.lmtp ("LMTP response line exceeds " ++ toString maxResponseLineBytes ++ " bytes")), [])
  else
    let trimmed := trimLineEnd line
    match parseStatusLine trimmed with
    | .error error => (c.broken error, [])
    | .ok (code, continued) =>
      let first := c.code.getD code
      let lines := c.lines ++ [trimmed]
      if continued then ({ c with code := some first, lines }, [])
      else { c with code := none, lines := [] }.respond job first (" ".intercalate lines)

def receive (job : Delivering) (c : LmtpClient) (line : String) : LmtpClient × List String :=
  match c.stage with
  | .finished _ => (c, [])
  | _ => c.read job line

end LmtpClient

end MailStack.Lmtp
