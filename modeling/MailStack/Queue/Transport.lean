import MailStack.Queue.Round
import MailStack.Smtp.Client

/-! The remote transport: a session with a relay or with the mail exchangers of each recipient
domain, and what becomes of its outcome. -/

namespace MailStack.Queue

open Lib Smtp

def smtpErrorKind : SmtpError → String
  | .invalidEndpoint _ => "InvalidEndpoint"
  | .dns _ => "DnsError"
  | .noAcceptableAddress _ => "NoAcceptableAddress"
  | .nullMx _ => "NullMx"
  | .connect _ _ => "ConnectionError"
  | .connectTimeout _ _ => "ConnectTimeout"
  | .tls _ => "TlsError"
  | .protocol _ => "ProtocolError"
  | .headerInjection _ => "HeaderInjection"
  | .rejected _ => "SmtpRejected"
  | .incompleteCredentials => "IncompleteCredentials"
  | .tlsRequired => "TlsRequired"
  | .privateRelayDisabled => "PrivateRelayDisabled"
  | .io _ => "IoError"
  | .config _ => "ConfigError"

def smtpErrorMessage : SmtpError → String
  | .invalidEndpoint endpoint => "invalid relay endpoint: " ++ endpoint
  | .dns message => "DNS resolution failed: " ++ message
  | .noAcceptableAddress host =>
    "no acceptable address for " ++ host ++ " (all resolved addresses were rejected by policy)"
  | .nullMx domain => "domain " ++ domain ++ " publishes a null MX and accepts no mail"
  | .connect addr source => "cannot connect to " ++ addr ++ ": " ++ source
  | .connectTimeout addr secs =>
    "connecting to " ++ addr ++ " timed out after " ++ toString secs ++ "s"
  | .tls message => "TLS error: " ++ message
  | .protocol message => "SMTP protocol error: " ++ message
  | .headerInjection addr =>
    "refusing to build a command from an address containing CR or LF: " ++ debugText addr
  | .rejected banner => "SMTP server rejected the command: " ++ banner
  | .incompleteCredentials => "SMTP username and password must be provided together"
  | .tlsRequired => "TLS is required for relay endpoint"
  | .privateRelayDisabled => "Private SMTP relay access is disabled by deployment policy"
  | .io message => "io error: " ++ message
  | .config message => message

def DeliveryFailure.transient (kind message : String) : DeliveryFailure :=
  { failureClass := .transient, kind, message, code := none, accepted := [], localFault := false }

def DeliveryFailure.permanent (kind message : String) : DeliveryFailure :=
  { failureClass := .permanent, kind, message, code := none, accepted := [], localFault := false }

def DeliveryFailure.withAccepted (failure : DeliveryFailure) (accepted : List String) :
    DeliveryFailure := { failure with accepted }

def DeliveryFailure.isPermanent (failure : DeliveryFailure) : Bool :=
  failure.failureClass == .permanent

def classifyCode (code : Nat) : FailureClass :=
  if 500 ≤ code ∧ code < 600 then .permanent else .transient

def classifySmtpError (error : SmtpError) : DeliveryFailure :=
  let kind := smtpErrorKind error
  let message := smtpErrorMessage error
  match error with
  | .invalidEndpoint _ | .tlsRequired | .incompleteCredentials | .privateRelayDisabled
  | .noAcceptableAddress _ | .nullMx _ => .permanent kind message
  | _ => .transient kind message

def classifyResponse (code : Nat) (banner : String) : DeliveryFailure :=
  { failureClass := classifyCode code, kind := "SmtpRejected", message := banner, code := some code,
    accepted := [], localFault := false }

/-- The result of a transport whose session ended with this outcome. -/
def settleOutcome (recipients : List String) :
    Except SmtpError MessageOutcome → DeliveryResult
  | .error e => .error (classifySmtpError e)
  | .ok (.accepted _) => .ok { accepted := recipients.length }
  | .ok (.rejected response _ accepted) =>
    .error ((classifyResponse response.code response.banner).withAccepted accepted)

/-- A server that can be dialled: the failure of the connection or of the TLS handshake after
STARTTLS, if there is one, and its replies from the banner on. -/
structure Peer where
  connect : TlsMode → Option SmtpError
  upgrade : Option SmtpError
  replies : List (Except TransportError Response)

inductive DeliveryTls
  | required (mode : TlsMode)
  | plaintext

structure RemoteTransport where
  heloName : String
  credentials : Option (String × String)

def openSession (peer : Peer) (mode : TlsMode) : Except SmtpError SmtpSession :=
  match peer.connect mode with
  | some e => .error e
  | none =>
    match (SmtpSession.new peer.replies).readResponse with
    | (.error e, _) => .error e
    | (.ok _, session) => .ok session

/-- EHLO with a reply that lets the session go on. -/
def RemoteTransport.greet (transport : RemoteTransport) (session : SmtpSession) :
    Except DeliveryFailure SmtpSession :=
  match session.ehlo transport.heloName with
  | (.error e, _) => .error (classifySmtpError e)
  | (.ok ehlo, session) =>
    if !ehlo.isPositiveCompletion then .error (classifyResponse ehlo.code ehlo.banner)
    else .ok session

def RemoteTransport.secure (transport : RemoteTransport) (peer : Peer) (mode : TlsMode)
    (session : SmtpSession) : Except DeliveryFailure SmtpSession :=
  if mode = .startTls then
    if !session.capabilities.starttls then
      .error (.permanent "TlsUnavailable"
        "relay does not offer STARTTLS; refusing to send credentials in the clear")
    else
      match session.starttls peer.upgrade with
      | (.error e, _) => .error (classifySmtpError e)
      | (.ok _, session) => transport.greet session
  else .ok session

def RemoteTransport.logIn (transport : RemoteTransport) (session : SmtpSession) :
    Except DeliveryFailure SmtpSession :=
  match transport.credentials with
  | none => .ok session
  | some (username, password) =>
    if session.capabilities.authMechanisms.isEmpty then
      .error (.permanent "AuthNotOffered"
        "relay offers no AUTH mechanism but credentials are configured")
    else
      match session.authenticate username password with
      | (.error e, _) => .error (classifySmtpError e)
      | (.ok auth, session) =>
        if !auth.isPositiveCompletion then .error (classifyResponse auth.code auth.banner)
        else .ok session

/-- The session up to the first message. -/
def RemoteTransport.prepare (transport : RemoteTransport) (peer : Peer) (tls : DeliveryTls) :
    Except DeliveryFailure SmtpSession :=
  let connectMode := match tls with
    | .required mode => mode
    | .plaintext => .startTls
  match openSession peer connectMode with
  | .error e => .error (classifySmtpError e)
  | .ok session =>
    match transport.greet session with
    | .error failure => .error failure
    | .ok session =>
      match tls with
      | .plaintext => .ok session
      | .required mode =>
        match transport.secure peer mode session with
        | .error failure => .error failure
        | .ok session => transport.logIn session

def RemoteTransport.deliverOne (transport : RemoteTransport) (peer : Peer) (tls : DeliveryTls)
    (entry : QueueEntry) (recipients : List String) : DeliveryResult :=
  match transport.prepare peer tls with
  | .error failure => .error failure
  | .ok session =>
    settleOutcome recipients (sendMessageDetailed session entry.mailFrom recipients entry.data).1

/-- The network: the host of a relay, and the mail exchangers of a domain, if there is a
resolver. -/
structure Network where
  relay : String → Nat → Except SmtpError Peer
  mx : Option (String → Except SmtpError (List Peer))

def domainOf (recipient : String) : String :=
  ((rsplitOnce '@' recipient).map fun p => toAsciiLowercase p.2).getD ""

/-- The map of domains in order, with one more recipient. -/
def addToGroup (domain recipient : String) :
    List (String × List String) → List (String × List String)
  | [] => [(domain, [recipient])]
  | (d, group) :: rest =>
    if domain = d then (d, group ++ [recipient]) :: rest
    else if domain < d then (domain, [recipient]) :: (d, group) :: rest
    else (d, group) :: addToGroup domain recipient rest

def groupByDomain (recipients : List String) : List (String × List String) :=
  recipients.foldl (fun groups r => addToGroup (domainOf r) r groups) []

/-- The exchangers are tried up to the first that accepts somebody or fails for good. -/
def RemoteTransport.tryTargets (transport : RemoteTransport) (domain : String)
    (entry : QueueEntry) (recipients : List String) :
    List Peer → Option DeliveryFailure → DeliveryResult
  | [], last =>
    .error (last.getD (.transient "NoMxTarget" ("no usable MX target for " ++ domain)))
  | peer :: rest, _ =>
    match transport.deliverOne peer .plaintext entry recipients with
    | .ok receipt => .ok receipt
    | .error failure =>
      if failure.isPermanent then .error failure
      else if !failure.accepted.isEmpty then .error failure
      else transport.tryTargets domain entry recipients rest (some failure)

def RemoteTransport.deliverDirectToDomain (transport : RemoteTransport)
    (mx : String → Except SmtpError (List Peer)) (domain : String) (recipients : List String)
    (entry : QueueEntry) : DeliveryResult :=
  match mx domain with
  | .error e => .error (classifySmtpError e)
  | .ok targets => transport.tryTargets domain entry recipients targets none

/-- What the domains of a message came to, one after another. -/
structure DirectRun where
  accepted : List String := []
  failures : List DeliveryFailure := []

def DirectRun.add (run : DirectRun) (group : List String) : DeliveryResult → DirectRun
  | .ok _ => { run with accepted := run.accepted ++ group }
  | .error failure =>
    { accepted := run.accepted ++ failure.accepted, failures := run.failures ++ [failure] }

def mergeFailures (failures : List DeliveryFailure) : DeliveryFailure :=
  match failures with
  | [failure] => failure
  | _ =>
    let detail := "; ".intercalate (failures.map (·.message))
    if failures.any fun failure => !failure.isPermanent then
      .transient "DirectDeliveryFailed" detail
    else .permanent "DirectDeliveryFailed" detail

def DirectRun.result (run : DirectRun) : DeliveryResult :=
  if run.failures.isEmpty then .ok { accepted := run.accepted.length }
  else .error ((mergeFailures run.failures).withAccepted run.accepted)

def RemoteTransport.deliverGroups (transport : RemoteTransport)
    (mx : String → Except SmtpError (List Peer)) (entry : QueueEntry) :
    List (String × List String) → DirectRun → DirectRun
  | [], run => run
  | (domain, group) :: rest, run =>
    transport.deliverGroups mx entry rest
      (run.add group (transport.deliverDirectToDomain mx domain group entry))

def RemoteTransport.deliverDirect (transport : RemoteTransport) (network : Network)
    (entry : QueueEntry) (recipients : List String) : DeliveryResult :=
  match network.mx with
  | none =>
    .error (.transient "DirectDeliveryUnavailable"
      "direct MX delivery is not configured on this transport; configure a relay (smarthost)")
  | some mx => (transport.deliverGroups mx entry (groupByDomain recipients) {}).result

end MailStack.Queue
