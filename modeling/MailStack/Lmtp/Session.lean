import MailStack.Sieve.Delivery

/-! The session of the LMTP server: it takes the lines of a client one after the other and answers
each with lines of its own. -/

namespace MailStack.Lmtp

open Lib Maildir Sieve

structure LmtpConfig where
  hostname : String
  maxMessageSize : Nat
  maxRecipients : Nat
  maxLine : Nat

def LmtpConfig.default : LmtpConfig :=
  { hostname := "mailstack", maxMessageSize := 32 * 1024 * 1024, maxRecipients := 100,
    maxLine := 64 * 1024 }

/-- `route` finds the mailbox of an address, and `deliver` is the delivery of a text to a mailbox
through its script, for the addresses of the sender and of the recipient. -/
structure LmtpContext (σ : Type) where
  config : LmtpConfig
  route : String → Option σ
  deliver : σ → String → String → String → Except MailError Delivery

structure Recipient (σ : Type) where
  address : String
  store : σ

/-- What the next line is read as. In the data of a message, `out` is what was kept of it. -/
inductive Reading
  | command
  | data (out : String) (total : Nat) (tooLarge : Bool)
  | closed
deriving DecidableEq

/-- `answered` counts the lines that answered the data of messages; the server itself does not keep
it. -/
structure LmtpSession (σ : Type) where
  helo : Bool
  mailFrom : Option String
  recipients : List (Recipient σ)
  seen : List String
  reading : Reading
  answered : Nat

@[grind =] def findSize : Option Nat → List String → Except String (Option Nat)
  | size, [] => .ok size
  | size, token :: rest =>
    match splitOnce '=' token with
    | none => findSize size rest
    | some (key, value) =>
      if eqIgnoreAsciiCase key "SIZE" then
        match parseUnsigned (2 ^ 64 - 1) value with
        | some n => findSize (some n) rest
        | none => .error "invalid SIZE parameter"
      else findSize size rest

/-- The address and the text after it. -/
def splitPath (rest : String) : Except String (String × String) :=
  match stripPrefix "<" rest with
  | some stripped =>
    match splitOnce '>' stripped with
    | none => .error "unterminated path"
    | some (address, parameters) => .ok (trim address, trim parameters)
  | none =>
    let address := rest.toList.takeWhile fun c => !isWhitespace c
    .ok (String.ofList address, trim (String.ofList (rest.toList.drop (address.length + 1))))

def parsePath (argument keyword : String) : Except String (String × Option Nat) :=
  match splitOnce ':' argument with
  | none => .error "missing ':' in path"
  | some (tag, rest) =>
    if !eqIgnoreAsciiCase (trim tag) keyword then .error "unexpected path keyword"
    else do
      let (address, parameters) ← splitPath (trim rest)
      let size ← findSize none (splitWhitespace parameters)
      return (address, size)

def sanitizeReason (reason : String) : String :=
  trim (String.ofList (reason.toList.map fun c => if isControl c then ' ' else c))

def lmtpFailure : MailError → String
  | .notFound _ => "550 5.1.1 Recipient mailbox unavailable"
  | .quotaExceeded _ => "552 5.2.2 Mailbox full"
  | .invalid _ => "550 5.1.0 Message rejected"
  | _ => "451 4.2.0 Mailbox unavailable"

def deliveryLine : Except MailError Delivery → String
  | .ok (.delivered _) => "250 2.0.0 Ok: delivered"
  | .ok (.rejected reason) => "550 5.7.1 " ++ sanitizeReason reason
  | .error error => lmtpFailure error

def oversizedLine : String := "552 5.3.4 Message size exceeds fixed limit"

/-- The answer for one of the recipients; `none` is a message that is too large. -/
def answerLine {σ : Type} (ctx : LmtpContext σ) (sender : String) (data : Option String)
    (recipient : Recipient σ) : String :=
  match data with
  | none => oversizedLine
  | some data => deliveryLine (ctx.deliver recipient.store data sender recipient.address)

namespace LmtpSession

variable {σ : Type}

def start : LmtpSession σ :=
  { helo := false, mailFrom := none, recipients := [], seen := [], reading := .command,
    answered := 0 }

def greeting (config : LmtpConfig) : String := "220 " ++ config.hostname ++ " LMTP ready"

def resetTransaction (s : LmtpSession σ) : LmtpSession σ :=
  { s with mailFrom := none, recipients := [], seen := [] }

def handleLhlo (config : LmtpConfig) (s : LmtpSession σ) (argument : Option String) :
    LmtpSession σ × List String :=
  if argument.elim true String.isEmpty then (s, ["501 5.5.4 LHLO requires a domain"])
  else
    (resetTransaction { s with helo := true },
      ["250-" ++ config.hostname, "250-PIPELINING", "250-8BITMIME", "250-ENHANCEDSTATUSCODES",
        "250 SIZE " ++ toString config.maxMessageSize])

def handleMail (config : LmtpConfig) (s : LmtpSession σ) (argument : Option String) :
    LmtpSession σ × List String :=
  if !s.helo then (s, ["503 5.5.1 Send LHLO first"])
  else
    match argument with
    | none => (s, ["501 5.5.4 MAIL requires FROM"])
    | some argument =>
      let s := s.resetTransaction
      match parsePath argument "FROM" with
      | .error message => (s, ["501 5.5.4 " ++ message])
      | .ok (sender, size) =>
        if size.any fun n => n > config.maxMessageSize then
          (s, ["552 5.3.4 Message size exceeds fixed limit"])
        else ({ s with mailFrom := some sender, recipients := [] }, ["250 2.1.0 Ok"])

/-- What two addresses have in common that are taken for one recipient. -/
def seenKey (address : String) : String := toAsciiLowercase (trim address)

def handleRcpt (ctx : LmtpContext σ) (s : LmtpSession σ) (argument : Option String) :
    LmtpSession σ × List String :=
  if s.mailFrom.isNone then (s, ["503 5.5.1 Send MAIL first"])
  else
    match argument with
    | none => (s, ["501 5.5.4 RCPT requires TO"])
    | some argument =>
      match parsePath argument "TO" with
      | .error message => (s, ["501 5.5.4 " ++ message])
      | .ok (address, _) =>
        if address.isEmpty then (s, ["501 5.1.3 Bad recipient address syntax"])
        else if s.recipients.length ≥ ctx.config.maxRecipients then
          (s, ["452 4.5.3 Too many recipients"])
        else
          match ctx.route address with
          | some store =>
            let key := seenKey address
            if s.seen.contains key then (s, ["250 2.1.5 Ok"])
            else
              ({ s with seen := key :: s.seen, recipients := s.recipients ++ [{ address, store }] },
                ["250 2.1.5 Ok"])
          | none => (s, ["550 5.1.1 No such user"])

def handleData (s : LmtpSession σ) (argument : Option String) : LmtpSession σ × List String :=
  if argument.any fun value => !value.isEmpty then (s, ["501 5.5.4 DATA takes no arguments"])
  else if s.mailFrom.isNone || s.recipients.isEmpty then (s, ["503 5.5.1 Need MAIL and RCPT first"])
  else ({ s with reading := .data "" 0 false }, ["354 End data with <CR><LF>.<CR><LF>"])

def dispatch (ctx : LmtpContext σ) (s : LmtpSession σ) (line : String) :
    LmtpSession σ × List String :=
  let (command, argument) : String × Option String :=
    match splitOnce ' ' line with
    | some (command, rest) => (toAsciiUppercase command, some (trim rest))
    | none => (toAsciiUppercase (trim line), none)
  match command with
  | "LHLO" | "EHLO" => s.handleLhlo ctx.config argument
  | "MAIL" => s.handleMail ctx.config argument
  | "RCPT" => s.handleRcpt ctx argument
  | "DATA" => s.handleData argument
  | "RSET" => (s.resetTransaction, ["250 2.0.0 Ok"])
  | "NOOP" => (s, ["250 2.0.0 Ok"])
  | "VRFY" => (s, ["252 2.5.2 Cannot verify user"])
  | "EXPN" => (s, ["502 5.5.1 EXPN not supported"])
  | "HELP" => (s, ["214 2.0.0 Commands: LHLO MAIL RCPT DATA RSET NOOP VRFY QUIT"])
  | "QUIT" => ({ s with reading := .closed }, ["221 2.0.0 Bye"])
  | "" => (s, ["500 5.5.2 Empty command"])
  | _ => (s, ["500 5.5.1 Command unrecognized"])

/-- The part of `handle_data` after the data was read. -/
def answerData (ctx : LmtpContext σ) (s : LmtpSession σ) (data : Option String) :
    LmtpSession σ × List String :=
  let responses := s.recipients.map (answerLine ctx (s.mailFrom.getD "") data)
  ({ s.resetTransaction with reading := .command, answered := s.answered + responses.length },
    responses)

/-- A line of the loop of `read_data`. -/
def dataLine (ctx : LmtpContext σ) (s : LmtpSession σ) (out : String) (total : Nat)
    (tooLarge : Bool) (line : String) : LmtpSession σ × List String :=
  if line = "." then s.answerData ctx (if tooLarge then none else some out)
  else
    let line := if (stripPrefix ".." line).isSome then String.ofList (line.toList.drop 1) else line
    let total := total + (bytes line).length + 2
    if total > ctx.config.maxMessageSize then ({ s with reading := .data out total true }, [])
    else if tooLarge then ({ s with reading := .data out total tooLarge }, [])
    else ({ s with reading := .data (out ++ line ++ "\r\n") total tooLarge }, [])

/-- The next line of the client. A line that is too long ends the session. -/
def receive (ctx : LmtpContext σ) (s : LmtpSession σ)
    (line : String) : LmtpSession σ × List String :=
  match s.reading with
  | .closed => (s, [])
  | .command =>
    if (bytes line).length > ctx.config.maxLine then ({ s with reading := .closed }, [])
    else s.dispatch ctx line
  | .data out total tooLarge =>
    if (bytes line).length > ctx.config.maxLine then ({ s with reading := .closed }, [])
    else s.dataLine ctx out total tooLarge line

end LmtpSession

end MailStack.Lmtp
