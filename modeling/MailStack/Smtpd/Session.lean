import MailStack.Smtp.Policy
import MailStack.Smtpd.Command
import MailStack.Smtpd.Data

/-! The state of an SMTP session and what each command does to it. -/

namespace MailStack.Smtpd

open Lib Smtp

structure SessionConfig where
  hostname : String
  maxMessageSize : Nat
  maxRecipients : Nat
  bareNewlinePolicy : BareNewlinePolicy
  postmaster : Option String
  offerStarttls : Bool
  offerAuth : Bool
  tlsActive : Bool
  requireAuthForSubmission : Bool

inductive Action
  | reply (reply : Reply)
  | enterData (reply : Reply)
  | startTls (reply : Reply)
  | close (reply : Reply)
  | authChallenge (reply : Reply)
  | authVerify (mechanism response : String)

inductive SessionRole
  | mx
  | submission

structure AcceptedMessage where
  mailFrom : String
  recipients : List String
  data : List UInt8
  helo : String
  role : SessionRole
  authenticated : Bool
  secured : Bool

inductive Phase
  | connected
  | greeted
  | mail
deriving DecidableEq

inductive AuthOutcome
  | success (user : String)
  | invalidCredentials
  | temporaryFailure (reason : String)

structure Session where
  config : SessionConfig
  relay : RelayPolicy
  phase : Phase
  helo : Option String
  esmtp : Bool
  mailFrom : Option String
  recipients : List String
  authenticated : Bool
  authUser : Option String
  pendingAuth : Option String
  tlsActive : Bool
  role : SessionRole

/-- A padded text of the base64 alphabet that encodes at least one byte. -/
def isValidBase64 (value : String) : Bool :=
  let text := bytes value
  let padding := (text.reverse.takeWhile (· == 0x3d)).length
  let body := text.take (text.length - padding)
  !value.isEmpty && text.length % 4 == 0 && padding ≤ 2 && !body.isEmpty &&
    body.all fun b => (0x41 ≤ b && b ≤ 0x5a) || (0x61 ≤ b && b ≤ 0x7a) ||
      (0x30 ≤ b && b ≤ 0x39) || b == 0x2b || b == 0x2f

def domainOf (address : String) : String := ((rsplitOnce '@' address).map (·.2)).getD ""

def senderOwnedBy (authenticatedUser mailFrom : String) : Bool :=
  if mailFrom.isEmpty then true
  else
    let user := toAsciiLowercase (trim authenticatedUser)
    if user.isEmpty then false
    else
      let sender := toAsciiLowercase (trim mailFrom)
      if sender = user then true
      else if !contains user '@' then ((rsplitOnce '@' sender).map (·.1)).getD sender = user
      else false

namespace Session

def new (config : SessionConfig) (relay : RelayPolicy) : Session :=
  { config
    relay
    phase := .connected
    helo := none
    esmtp := false
    mailFrom := none
    recipients := []
    authenticated := false
    authUser := none
    pendingAuth := none
    tlsActive := config.tlsActive
    role := if config.offerAuth || config.requireAuthForSubmission then .submission else .mx }

def greeting (s : Session) : Reply := .new 220 (s.config.hostname ++ " " ++ Texts.greeting)

def awaitingAuthResponse (s : Session) : Bool := s.pendingAuth.isSome

def resetTransaction (s : Session) : Session :=
  { s with
    mailFrom := none
    recipients := []
    phase := if s.phase = .mail then .greeted else s.phase }

def ehloReply (s : Session) : Reply :=
  .multiline 250
    ([s.config.hostname ++ " " ++ Texts.ehloOk, "SIZE " ++ toString s.config.maxMessageSize,
        "ENHANCEDSTATUSCODES"] ++
      (if s.config.offerStarttls && !s.tlsActive then ["STARTTLS"] else []) ++
      (if s.config.offerAuth && s.tlsActive then ["AUTH PLAIN"] else []) ++ ["HELP"])

def hello (s : Session) (name : String) (esmtp : Bool) : Session × Action :=
  let s := { s.resetTransaction with helo := some name, esmtp, phase := .greeted }
  (s, .reply (if esmtp then s.ehloReply
    else .new 250 (s.config.hostname ++ " " ++ Texts.ehloOk)))

def ownsSender (s : Session) (sender : String) : Bool :=
  match s.role, s.authUser with
  | .submission, some user => senderOwnedBy user sender
  | _, _ => true

def mail (s : Session) (sender : String) (params : MailParams) : Session × Action :=
  if s.phase = .connected then (s, .reply (.withEnhanced 503 "5.5.1" Texts.sequence))
  else if s.mailFrom.isSome then (s, .reply (.withEnhanced 503 "5.5.1" Texts.nestedMail))
  else if params.size.any (s.config.maxMessageSize < ·) then
    (s, .reply (.withEnhanced 552 "5.3.4" Texts.messageTooLarge))
  else if s.config.requireAuthForSubmission && !s.authenticated then
    (s, .reply (.withEnhanced 530 "5.7.0" Texts.submissionAuthRequired))
  else if !s.ownsSender sender then
    (s, .reply (.withEnhanced 550 "5.7.1" Texts.senderNotOwned))
  else
    ({ s with mailFrom := some sender, recipients := [], phase := .mail },
      .reply (.withEnhanced 250 "2.1.0" Texts.mailOk))

def acceptRecipient (s : Session) (recipient : String) : Session × Action :=
  (if s.recipients.contains recipient then s
    else { s with recipients := s.recipients ++ [recipient] },
    .reply (.withEnhanced 250 "2.1.5" Texts.rcptOk))

def reservedPostmaster (s : Session) (recipient : String) : Bool :=
  match rsplitOnce '@' recipient with
  | some (mailbox, domain) => eqIgnoreAsciiCase mailbox "postmaster" && s.relay.isManaged domain
  | none => eqIgnoreAsciiCase recipient "postmaster"

/-- `lookup` is the directory of recipients; when it does not answer, the recipient is let in. -/
def rcpt (lookup : String → Except String Bool) (s : Session) (recipient : String) :
    Session × Action :=
  if s.phase ≠ .mail then (s, .reply (.withEnhanced 503 "5.5.1" Texts.sequence))
  else if s.recipients.contains recipient then
    (s, .reply (.withEnhanced 250 "2.1.5" Texts.rcptOk))
  else if s.reservedPostmaster recipient then
    match s.config.postmaster with
    | some address => s.acceptRecipient address
    | none =>
      (s, .reply (.withEnhanced 550 "5.1.1" "postmaster address is not configured on this host"))
  else if s.config.maxRecipients ≤ s.recipients.length then
    (s, .reply (.withEnhanced 452 "4.5.3" Texts.tooManyRecipients))
  else
    match s.relay.evaluate (domainOf recipient) s.authenticated with
    | .relayAuthenticated => s.acceptRecipient recipient
    | .reject code message => (s, .reply (.withEnhanced code "5.7.1" message))
    | .deliverLocal =>
      match lookup recipient with
      | .ok false => (s, .reply (.withEnhanced 550 "5.1.1" Texts.recipientUnknown))
      | .ok true => s.acceptRecipient recipient
      | .error _ => s.acceptRecipient recipient

def data (s : Session) : Session × Action :=
  if s.phase ≠ .mail ∨ s.recipients = [] then
    (s, .reply (.withEnhanced 503 "5.5.1" Texts.noRecipients))
  else (s, .enterData (.withEnhanced 354 "2.0.0" Texts.dataStart))

def discardData (s : Session) : Session :=
  { s with mailFrom := none, recipients := [], phase := .greeted }

def finishData (s : Session) (data : List UInt8) : Session × Reply × Option AcceptedMessage :=
  let next := s.discardData
  match s.mailFrom with
  | none => (next, .withEnhanced 503 "5.5.1" Texts.sequence, none)
  | some mailFrom =>
    if data.length > s.config.maxMessageSize then
      (next, .withEnhanced 552 "5.3.4" Texts.messageTooLarge, none)
    else
      (next, .withEnhanced 250 "2.0.0" Texts.dataOk,
        some
          { mailFrom
            recipients := s.recipients
            data
            helo := s.helo.getD ""
            role := s.role
            authenticated := s.authenticated
            secured := s.tlsActive })

def startTls (s : Session) : Session × Action :=
  if s.tlsActive then (s, .reply (.withEnhanced 503 "5.5.1" Texts.alreadyTls))
  else if !s.config.offerStarttls then
    (s, .reply (.withEnhanced 502 "5.5.1" Texts.starttlsUnavailable))
  else if s.mailFrom.isSome then (s, .reply (.withEnhanced 503 "5.5.1" Texts.sequence))
  else
    ({ s.resetTransaction with helo := none, phase := .connected, esmtp := false },
      .startTls (.new 220 "Ready to start TLS"))

def activateTls (s : Session) : Session := { s with tlsActive := true }

def requestVerification (mechanism response : String) : Action :=
  if isValidBase64 response then .authVerify mechanism response
  else .reply (.withEnhanced 501 "5.5.2" Texts.authBadBase64)

def auth (s : Session) (mechanism : String) (initial : Option String) : Session × Action :=
  if !s.config.offerAuth then (s, .reply (.withEnhanced 502 "5.5.1" Texts.authUnavailable))
  else if !s.tlsActive then (s, .reply (.withEnhanced 538 "5.7.11" Texts.authRequiredFirst))
  else if !s.esmtp || s.phase = .connected || s.mailFrom.isSome then
    (s, .reply (.withEnhanced 503 "5.5.1" Texts.sequence))
  else if s.authenticated then (s, .reply (.withEnhanced 503 "5.5.1" Texts.authAlready))
  else if s.pendingAuth.isSome then (s, .reply (.withEnhanced 503 "5.5.1" Texts.sequence))
  else if !eqIgnoreAsciiCase mechanism "PLAIN" then
    (s, .reply (.withEnhanced 504 "5.5.4" Texts.authMechanismUnknown))
  else
    match initial with
    | some response => (s, requestVerification (toAsciiUppercase mechanism) response)
    | none =>
      ({ s with pendingAuth := some (toAsciiUppercase mechanism) }, .authChallenge (.new 334 ""))

def continueAuth (s : Session) (line : List UInt8) : Session × Action :=
  match s.pendingAuth with
  | none => (s, .reply (.withEnhanced 503 "5.5.1" Texts.sequence))
  | some mechanism =>
    let next := { s with pendingAuth := none }
    if line = [0x2a] then (next, .reply (.withEnhanced 501 "5.5.2" Texts.authCancelled))
    else
      match fromUtf8 line with
      | none => (next, .reply (.withEnhanced 501 "5.5.2" Texts.authBadBase64))
      | some response => (next, requestVerification mechanism response)

def completeAuth (s : Session) (outcome : AuthOutcome) : Session × Reply :=
  let s := { s with pendingAuth := none }
  match outcome with
  | .success user =>
    ({ s with authenticated := true, authUser := some user },
      .withEnhanced 235 "2.7.0" Texts.authOk)
  | .invalidCredentials => (s, .withEnhanced 535 "5.7.8" Texts.authFailed)
  | .temporaryFailure _ => (s, .withEnhanced 454 "4.7.0" Texts.authTemporaryFailure)

def handle (lookup : String → Except String Bool) (s : Session) : Command → Session × Action
  | .ehlo name => s.hello name true
  | .helo name => s.hello name false
  | .mail sender params => s.mail sender params
  | .rcpt recipient => s.rcpt lookup recipient
  | .data => s.data
  | .rset => (s.resetTransaction, .reply (.new 250 Texts.rsetOk))
  | .noop => (s, .reply (.new 250 Texts.noopOk))
  | .quit => (s.resetTransaction, .close (.withEnhanced 221 "2.0.0" Texts.bye))
  | .vrfy _ => (s, .reply (.withEnhanced 502 "5.5.1" Texts.vrfyDisabled))
  | .help _ => (s, .reply (.new 214 Texts.help))
  | .startTls => s.startTls
  | .auth mechanism initial => s.auth mechanism initial
  | .unknown _ => (s, .reply (.withEnhanced 500 "5.5.1" Texts.unknownCommand))

end Session

end MailStack.Smtpd
