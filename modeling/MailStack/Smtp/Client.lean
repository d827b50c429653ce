import MailStack.Lib.Base64
import MailStack.Smtp.DotStuffing
import MailStack.Smtp.Policy

/-! The client side of an SMTP session: what it says, what the server answers, and the outcome of a
message for its recipients. -/

namespace MailStack.Smtp

open Lib

inductive SmtpError
  | invalidEndpoint (endpoint : String)
  | dns (message : String)
  | noAcceptableAddress (host : String)
  | nullMx (domain : String)
  | connect (addr source : String)
  | connectTimeout (addr : String) (secs : Nat)
  | tls (message : String)
  | protocol (message : String)
  | headerInjection (addr : String)
  | rejected (banner : String)
  | incompleteCredentials
  | tlsRequired
  | privateRelayDisabled
  | io (message : String)
  | config (message : String)
deriving DecidableEq

structure Response where
  code : Nat
  lines : List String

def Response.banner (response : Response) : String :=
  String.ofList ((" ".intercalate response.lines).toList.take 200)

def Response.isPositiveCompletion (response : Response) : Bool :=
  200 ≤ response.code && response.code < 300

inductive MessageOutcome
  | accepted (response : Response)
  | rejected (response : Response) (permanent : Bool) (accepted : List String)

structure Capabilities where
  starttls : Bool
  authMechanisms : List String

def Capabilities.supports (capabilities : Capabilities) (mechanism : String) : Bool :=
  capabilities.authMechanisms.any fun m => eqIgnoreAsciiCase m mechanism

/-- What can go wrong between a command and its reply: the connection fails, or the time runs out or
the reply is malformed. -/
inductive TransportError
  | io (message : String)
  | protocol (message : String)

def TransportError.toSmtp : TransportError → SmtpError
  | .io message => .io message
  | .protocol message => .protocol message

def connectionClosed : TransportError := .io "connection closed by server"

/-- A session: what it said so far, the replies that are still to come, and what the server can do.
Where the replies end the server closes the connection. -/
structure SmtpSession where
  replies : List (Except TransportError Response)
  sent : List String
  capabilities : Capabilities

def SmtpSession.new (replies : List (Except TransportError Response)) : SmtpSession :=
  { replies, sent := [], capabilities := { starttls := false, authMechanisms := [] } }

def SmtpSession.readResponse (session : SmtpSession) : Except SmtpError Response × SmtpSession :=
  match session.replies with
  | [] => (.error connectionClosed.toSmtp, session)
  | .error e :: rest => (.error e.toSmtp, { session with replies := rest })
  | .ok response :: rest => (.ok response, { session with replies := rest })

def SmtpSession.command (session : SmtpSession) (line : String) :
    Except SmtpError Response × SmtpSession :=
  { session with sent := session.sent ++ [line] }.readResponse

def checkedAddr (addr : String) : Except SmtpError String :=
  if addr.toList.any fun c => c = '\r' || c = '\n' || c = '\x00' then
    .error (.headerInjection addr)
  else .ok addr

/-- What the recipients were answered: who is accepted, and the first reply of each kind that
refuses one. -/
structure RcptAnswers where
  accepted : List String := []
  firstTransient : Option Response := none
  firstPermanent : Option Response := none

def RcptAnswers.note (answers : RcptAnswers) (rcpt : String) (response : Response) : RcptAnswers :=
  if response.isPositiveCompletion then { answers with accepted := answers.accepted ++ [rcpt] }
  else if response.code ≥ 500 then
    { answers with firstPermanent := answers.firstPermanent <|> some response }
  else { answers with firstTransient := answers.firstTransient <|> some response }

def RcptAnswers.rejection (answers : RcptAnswers) : Option Response :=
  answers.firstTransient <|> answers.firstPermanent

def rcptLoop : List String → RcptAnswers → SmtpSession → Except SmtpError RcptAnswers × SmtpSession
  | [], answers, session => (.ok answers, session)
  | rcpt :: rest, answers, session =>
    match checkedAddr rcpt with
    | .error e => (.error e, session)
    | .ok addr =>
      match session.command ("RCPT TO:<" ++ addr ++ ">") with
      | (.error e, session) => (.error e, session)
      | (.ok response, session) => rcptLoop rest (answers.note rcpt response) session

/-- The message itself, to the recipients that are accepted. -/
def sendData (session : SmtpSession) (answers : RcptAnswers) (data : String) :
    Except SmtpError MessageOutcome × SmtpSession :=
  match session.command "DATA" with
  | (.error e, session) => (.error e, session)
  | (.ok dataCmd, session) =>
    if dataCmd.code ≠ 354 then
      (.ok (.rejected dataCmd (dataCmd.code ≥ 500) []), session)
    else
      match { session with sent := session.sent ++ [terminateData data] }.readResponse with
      | (.error e, session) => (.error e, session)
      | (.ok response, session) =>
        if response.isPositiveCompletion then
          match answers.rejection with
          | none => (.ok (.accepted response), session)
          | some refusal =>
            (.ok (.rejected refusal answers.firstTransient.isNone answers.accepted), session)
        else (.ok (.rejected response (response.code ≥ 500) []), session)

def sendMessageDetailed (session : SmtpSession) (mailFrom : String) (recipients : List String)
    (data : String) : Except SmtpError MessageOutcome × SmtpSession :=
  match checkedAddr mailFrom with
  | .error e => (.error e, session)
  | .ok addr =>
    match session.command ("MAIL FROM:<" ++ addr ++ ">") with
    | (.error e, session) => (.error e, session)
    | (.ok mail, session) =>
      if !mail.isPositiveCompletion then (.ok (.rejected mail (mail.code ≥ 500) []), session)
      else if recipients.isEmpty then
        (.ok (.rejected { code := 554, lines := ["no valid recipients"] } true []), session)
      else
        match rcptLoop recipients {} session with
        | (.error e, session) => (.error e, session)
        | (.ok answers, session) =>
          -- where nobody is accepted somebody is refused
          match answers.accepted, answers.rejection with
          | [], some response =>
            (.ok (.rejected response answers.firstTransient.isNone []), session)
          | _, _ => sendData session answers data

/-- `line.get(4..)`: what follows the code and the character after it, if that is one byte. -/
def afterCode (line : String) : String :=
  match line.toList with
  | _ :: _ :: _ :: mark :: rest => if mark.val < 128 then String.ofList rest else ""
  | _ => ""

/-- The mechanisms and extensions that the reply to EHLO announces. -/
def parseCapabilities (response : Response) : Capabilities :=
  response.lines.foldl
    (fun caps line =>
      let upper := toAsciiUppercase (trim (afterCode line))
      if (stripPrefix "STARTTLS" upper).isSome then { caps with starttls := true }
      else
        match stripPrefix "AUTH " upper with
        | some rest =>
          { caps with
            authMechanisms := (splitWhitespace rest).foldl
              (fun known mech => if known.contains mech then known else known ++ [mech])
              caps.authMechanisms }
        | none => caps)
    { starttls := false, authMechanisms := [] }

def SmtpSession.ehlo (session : SmtpSession) (clientName : String) :
    Except SmtpError Response × SmtpSession :=
  match session.command ("EHLO " ++ clientName) with
  | (.error e, session) => (.error e, session)
  | (.ok response, session) =>
    if response.isPositiveCompletion then
      (.ok response, { session with capabilities := parseCapabilities response })
    else (.ok response, session)

/-- The session over TLS knows nothing of what the server said before. `upgrade` is the failure of
the handshake. -/
def SmtpSession.starttls (session : SmtpSession) (upgrade : Option SmtpError) :
    Except SmtpError Response × SmtpSession :=
  match session.command "STARTTLS" with
  | (.error e, session) => (.error e, session)
  | (.ok response, session) =>
    if !response.isPositiveCompletion then (.error (.rejected response.banner), session)
    else
      match upgrade with
      | some e => (.error e, session)
      | none =>
        (.ok response,
          { session with capabilities := { starttls := false, authMechanisms := [] } })

def base64Table : List Char :=
  "ABCDEFGHIJKLMNOPQRSTUVWXYZabcdefghijklmnopqrstuvwxyz0123456789+/".toList

def base64Digit (n : Nat) : Char := base64Table.getD (n % 64) '='

def base64Chunks : List UInt8 → List Char
  | [] => []
  | [a] =>
    let n := a.toNat * 2 ^ 16
    [base64Digit (n / 2 ^ 18), base64Digit (n / 2 ^ 12), '=', '=']
  | [a, b] =>
    let n := a.toNat * 2 ^ 16 + b.toNat * 2 ^ 8
    [base64Digit (n / 2 ^ 18), base64Digit (n / 2 ^ 12), base64Digit (n / 2 ^ 6), '=']
  | a :: b :: c :: rest =>
    let n := a.toNat * 2 ^ 16 + b.toNat * 2 ^ 8 + c.toNat
    base64Digit (n / 2 ^ 18) :: base64Digit (n / 2 ^ 12) :: base64Digit (n / 2 ^ 6) ::
      base64Digit n :: base64Chunks rest

def base64 (input : String) : String := String.ofList (base64Chunks (bytes input))

def checkedCredential (label value : String) : Except SmtpError Unit :=
  if value.toList.any fun c => c = '\r' || c = '\n' || c = '\x00' || c = ' ' || c = '\t' then
    .error (.headerInjection
      ("SMTP " ++ label ++ " must not contain CR, LF, NUL or whitespace"))
  else .ok ()

def authLogin (session : SmtpSession) (username password : String) :
    Except SmtpError Response × SmtpSession :=
  match session.command "AUTH LOGIN" with
  | (.error e, session) => (.error e, session)
  | (.ok challenge, session) =>
    if challenge.code ≠ 334 then (.error (.rejected challenge.banner), session)
    else
      match session.command (base64 username) with
      | (.error e, session) => (.error e, session)
      | (.ok userStep, session) =>
        if userStep.code ≠ 334 then (.error (.rejected userStep.banner), session)
        else session.command (base64 password)

def SmtpSession.authenticate (session : SmtpSession) (username password : String) :
    Except SmtpError Response × SmtpSession :=
  match checkedCredential "username" username, checkedCredential "password" password with
  | .error e, _ => (.error e, session)
  | .ok (), .error e => (.error e, session)
  | .ok (), .ok () =>
    if session.capabilities.supports "PLAIN" then
      session.command
        ("AUTH PLAIN " ++ base64 (String.ofList ['\x00'] ++ username ++ String.ofList ['\x00'] ++
          password))
    else if session.capabilities.supports "LOGIN" then authLogin session username password
    else (.error (.rejected "no supported AUTH mechanism offered by the server"), session)

example : base64 "any carnal pleas" = "YW55IGNhcm5hbCBwbGVhcw==" := by decide

theorem base64Digit_eq (n : Nat) : base64Digit n = Base64.digit (n % 64) := by
  have all : ∀ m < 64, base64Table.getD m '=' = Base64.digit m := by decide +kernel
  exact all _ (Nat.mod_lt _ (by decide))

/-- The client puts three bytes into one number, and takes the characters from that. -/
theorem base64Chunks_eq (data : List UInt8) : base64Chunks data = Base64.encode data := by
  fun_induction Base64.encode data with
  | case1 => rfl
  | case2 a =>
    have small := a.toNat_lt
    have first : a.toNat * 2 ^ 16 / 2 ^ 18 % 64 = a.toNat / 4 := by omega
    have second : a.toNat * 2 ^ 16 / 2 ^ 12 % 64 = a.toNat % 4 * 16 := by omega
    simp only [base64Chunks, base64Digit_eq, first, second]
  | case3 a b =>
    have smallA := a.toNat_lt
    have smallB := b.toNat_lt
    have first : (a.toNat * 2 ^ 16 + b.toNat * 2 ^ 8) / 2 ^ 18 % 64 = a.toNat / 4 := by omega
    have second : (a.toNat * 2 ^ 16 + b.toNat * 2 ^ 8) / 2 ^ 12 % 64 =
        a.toNat % 4 * 16 + b.toNat / 16 := by omega
    have third : (a.toNat * 2 ^ 16 + b.toNat * 2 ^ 8) / 2 ^ 6 % 64 = b.toNat % 16 * 4 := by omega
    simp only [base64Chunks, base64Digit_eq, first, second, third]
  | case4 a b c rest ih =>
    have smallA := a.toNat_lt
    have smallB := b.toNat_lt
    have smallC := c.toNat_lt
    have first : (a.toNat * 2 ^ 16 + b.toNat * 2 ^ 8 + c.toNat) / 2 ^ 18 % 64 =
        a.toNat / 4 := by omega
    have second : (a.toNat * 2 ^ 16 + b.toNat * 2 ^ 8 + c.toNat) / 2 ^ 12 % 64 =
        a.toNat % 4 * 16 + b.toNat / 16 := by omega
    have third : (a.toNat * 2 ^ 16 + b.toNat * 2 ^ 8 + c.toNat) / 2 ^ 6 % 64 =
        b.toNat % 16 * 4 + c.toNat / 64 := by omega
    have fourth : (a.toNat * 2 ^ 16 + b.toNat * 2 ^ 8 + c.toNat) % 64 = c.toNat % 64 := by omega
    simp only [base64Chunks, base64Digit_eq, first, second, third, fourth, ih]

end MailStack.Smtp
