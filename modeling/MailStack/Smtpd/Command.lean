import MailStack.Lib.Text
import MailStack.Lib.Word

/-! The replies of the SMTP server and the commands that it reads from a line. -/

namespace MailStack.Smtpd

open Lib

structure Reply where
  code : Nat
  enhanced : Option String
  lines : List String
deriving DecidableEq

def sanitize (text : String) : String :=
  String.ofList (text.toList.map fun c => if c = '\r' || c = '\n' || c.val = 0 then ' ' else c)

def Reply.new (code : Nat) (text : String) : Reply :=
  { code, enhanced := none, lines := [sanitize text] }

def Reply.withEnhanced (code : Nat) (enhanced text : String) : Reply :=
  { code, enhanced := some enhanced, lines := [sanitize text] }

def Reply.multiline (code : Nat) (lines : List String) : Reply :=
  { code, enhanced := none, lines := if lines.isEmpty then [""] else lines.map sanitize }

namespace Texts

def greeting := "MailStack ESMTP ready"
def bye := "Bye"
def ehloOk := "MailStack greets you"
def noopOk := "OK"
def rsetOk := "Session reset"
def help := "See RFC 5321"
def vrfyDisabled := "VRFY is disabled"
def sequence := "Bad sequence of commands"
def nestedMail := "Sender already specified"
def mailOk := "Sender OK"
def rcptOk := "Recipient OK"
def recipientUnknown := "No such user"
def noRecipients := "Need RCPT before DATA"
def dataStart := "End data with <CR><LF>.<CR><LF>"
def dataOk := "Message accepted for delivery"
def lineTooLong := "Line too long"
def syntaxError := "Syntax error in parameters or arguments"
def unknownCommand := "Command unrecognized"
def tooManyRecipients := "Too many recipients"
def messageTooLarge := "Message size exceeds fixed maximum message size"
def dataBackpressure := "Server is busy accepting other messages, try again later"
def bareLineFeed := "Bare line feed in message data (use CRLF)"
def starttlsUnavailable := "STARTTLS not available"
def alreadyTls := "TLS already active"
def authUnavailable := "Authentication not available"
def authRequiredFirst := "Issue STARTTLS first"
def authMechanismUnknown := "Unrecognized authentication type"
def authAlready := "Authentication already completed"
def authBadBase64 := "Invalid base64 authentication response"
def authCancelled := "Authentication exchange cancelled"
def authOk := "Authentication successful"
def authFailed := "Authentication credentials invalid"
def authTemporaryFailure := "Authentication temporarily unavailable"
def submissionAuthRequired := "Authentication required"
def senderNotOwned := "Sender address rejected: not owned by the authenticated user"

end Texts

def maxCommandLine : Nat := 512

def maxPathLen : Nat := 254

structure MailParams where
  size : Option Nat
  body : Option String
  auth : Option String
  unknown : List String

inductive Command
  | ehlo (name : String)
  | helo (name : String)
  | mail (sender : String) (params : MailParams)
  | rcpt (recipient : String)
  | data
  | rset
  | noop
  | quit
  | vrfy (argument : String)
  | help (topic : Option String)
  | startTls
  | auth (mechanism : String) (initial : Option String)
  | unknown (verb : String)

inductive CommandError
  | lineTooLong
  | syntaxError
deriving DecidableEq

def CommandError.reply : CommandError → Reply
  | .lineTooLong => .withEnhanced 500 "5.5.6" Texts.lineTooLong
  | .syntaxError => .withEnhanced 501 "5.5.4" Texts.syntaxError

def requireArgument (rest : String) : Except CommandError String :=
  if rest.isEmpty then .error .syntaxError else .ok (trimStart rest)

/-- The address that stands between the angle brackets, without a source route, with its domain in
lower case. -/
def normalisePath (inner : String) (allowNull : Bool) : Except CommandError String :=
  if inner.isEmpty then if allowNull then .ok "" else .error .syntaxError
  else if (bytes inner).length > maxPathLen then .error .syntaxError
  else
    let address :=
      match splitOnce ':' inner with
      | some (route, address) => if route.toList.head? = some '@' then address else inner
      | none => inner
    if address.isEmpty || (bytes address).length > maxPathLen then .error .syntaxError
    else if address.toList.any fun c => isControl c || isWhitespace c then .error .syntaxError
    else if eqIgnoreAsciiCase address "postmaster" then .ok "postmaster"
    else
      match rsplitOnce '@' address with
      | none => .error .syntaxError
      | some (mailbox, domain) =>
        if mailbox.isEmpty || domain.isEmpty then .error .syntaxError
        else .ok (mailbox ++ "@" ++ toAsciiLowercase domain)

def parsePath (input : String) (allowNull : Bool) : Except CommandError (String × String) :=
  match input.toList with
  | '<' :: rest =>
    match splitOnceChars '>' rest with
    | none => .error .syntaxError
    | some (inner, tail) =>
      (normalisePath (String.ofList inner) allowNull).map fun path => (path, String.ofList tail)
  | _ => .error .syntaxError

def parsePrefixedPath (rest keyword : String) (allowNull : Bool) :
    Except CommandError (String × String) :=
  let chars := (trimStart rest).toList
  if eqIgnoreAsciiCase (String.ofList (chars.take keyword.length)) keyword then
    parsePath (trimStart (String.ofList (chars.drop keyword.length))) allowNull
  else .error .syntaxError

/-- One token after the path of a MAIL command. -/
def MailParams.add (params : MailParams) (token : String) : MailParams :=
  let (key, value) :=
    match splitOnce '=' token with
    | some (key, value) => (key, some value)
    | none => (token, none)
  match toAsciiUppercase key with
  | "SIZE" => { params with size := value.bind (parseUnsigned u64Max) }
  | "BODY" => { params with body := value.map toAsciiUppercase }
  | "AUTH" => { params with auth := value }
  | _ => { params with unknown := params.unknown ++ [token] }

def parseMailParams (tail : String) : MailParams :=
  (splitWhitespace tail).foldl MailParams.add
    { size := none, body := none, auth := none, unknown := [] }

def parseAuth (rest : String) : Except CommandError Command :=
  let (mechanism, initial) :=
    match splitOnce ' ' rest with
    | some (mechanism, initial) => (mechanism, some (trim initial))
    | none => (rest, none)
  if mechanism.isEmpty then .error .syntaxError
  else .ok (.auth (toAsciiUppercase mechanism) (initial.filter fun value => !value.isEmpty))

/-- The command of a verb in upper case and the rest of its line. -/
def parseVerb (verb rest : String) : Except CommandError Command :=
  match verb with
  | "EHLO" => (requireArgument rest).map .ehlo
  | "HELO" => (requireArgument rest).map .helo
  | "MAIL" => (parsePrefixedPath rest "FROM:" true).map fun (sender, tail) =>
      .mail sender (parseMailParams tail)
  | "RCPT" => (parsePrefixedPath rest "TO:" false).map fun (recipient, _) => .rcpt recipient
  | "DATA" => .ok .data
  | "RSET" => .ok .rset
  | "NOOP" => .ok .noop
  | "QUIT" => .ok .quit
  | "VRFY" => (requireArgument rest).map .vrfy
  | "HELP" => .ok (.help (if rest.isEmpty then none else some rest))
  | "STARTTLS" => .ok .startTls
  | "AUTH" => parseAuth rest
  | _ => .ok (.unknown verb)

def parse (line : List UInt8) : Except CommandError Command :=
  if line.length > maxCommandLine then .error .lineTooLong
  else if line.any fun b => b < 0x20 || b == 0x7f then .error .syntaxError
  else
    match fromUtf8 line with
    | none => .error .syntaxError
    | some text =>
      match splitOnce ' ' text with
      | some (verb, rest) => parseVerb (toAsciiUppercase verb) (trimStart rest)
      | none => parseVerb (toAsciiUppercase text) ""

end MailStack.Smtpd
