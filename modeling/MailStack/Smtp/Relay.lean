import MailStack.Lib.Handler
import MailStack.Smtp.Client

/-! The relay that outbound mail is sent through: the check of an endpoint, the configuration that
it leads to, and how that is written and taken back. -/

namespace MailStack.Smtp

open Lib

structure RelayValidationRequest where
  host : String
  port : Nat
  tlsMode : String
  username : String
  password : String
  allowPrivateNetwork : Bool

structure RelayAccount extends RelayEndpoint where
  username : String
  password : String
deriving DecidableEq

def RelayAccount.hasCredentials (account : RelayAccount) : Bool := !account.username.isEmpty

def RelayEndpoint.relayhost (endpoint : RelayEndpoint) : String :=
  "[" ++ endpoint.host ++ "]:" ++ toString endpoint.port

def allowedRelayPorts : List Nat := [25, 465, 587, 2525]

def isValidRelayHost (host : String) : Bool :=
  if host.isEmpty || (bytes host).length > 253 then false
  else if host.toList.head? = some '.' || host.toList.getLast? = some '.' || containsText host ".." then
    false
  else host.toList.all fun c => (c.val < 128 && c.isAlphanum) || c = '.' || c = '-'

def hasForbidden (value : String) : Bool :=
  value.toList.any fun c => c = '\r' || c = '\n' || c = '\x00' || c = ' ' || c = '\t'

def parseTlsMode (mode : String) : Option TlsMode :=
  if mode = "STARTTLS" then some .startTls
  else if mode = "SSL/TLS" then some .implicit
  else none

def validateRelay (request : RelayValidationRequest) (privateNetworkEnabled : Bool) :
    Except SmtpError RelayAccount :=
  let host := trim request.host
  if !isValidRelayHost host then .error (.invalidEndpoint ("invalid relay host: " ++ host))
  else if !allowedRelayPorts.contains request.port then
    .error (.invalidEndpoint ("relay port " ++ toString request.port ++
      " is not allowed (permitted: 25, 465, 587, 2525)"))
  else
    match parseTlsMode (trim request.tlsMode) with
    | none => .error .tlsRequired
    | some tlsMode =>
      if (bytes request.username).length > 256 then
        .error (.invalidEndpoint "SMTP username must be at most 256 characters")
      else if (bytes request.password).length > 4096 then
        .error (.invalidEndpoint "SMTP password must be at most 4096 characters")
      else if hasForbidden request.username then
        .error (.invalidEndpoint "SMTP username must not contain CR, LF, NUL or whitespace")
      else if hasForbidden request.password then
        .error (.invalidEndpoint "SMTP password must not contain CR, LF, NUL or whitespace")
      else if contains request.username ':' then
        .error (.invalidEndpoint
          "SMTP username must not contain ':' (it is the sasl_passwd user/password separator)")
      else if (!request.username.isEmpty) != (!request.password.isEmpty) then
        .error .incompleteCredentials
      else if request.allowPrivateNetwork && !privateNetworkEnabled then
        .error .privateRelayDisabled
      else
        .ok
          { host
            port := request.port
            tlsMode
            username := request.username
            password := request.password }

def keyRelayhost : String := "relayhost"
def keySaslAuthEnable : String := "smtp_sasl_auth_enable"
def keySaslPasswordMaps : String := "smtp_sasl_password_maps"
def keySaslSecurityOptions : String := "smtp_sasl_security_options"
def keyTlsSecurityLevel : String := "smtp_tls_security_level"
def keyTlsWrappermode : String := "smtp_tls_wrappermode"

def saslPasswdPath : String := "/etc/postfix/sasl_passwd"

def errRelayhostVerifyFailed : String := "Postfix relayhost verification failed"

structure RelayPlan where
  relayhost : String
  keys : List (String × String)
  credentials : Option String
  wrappermode : Bool

def yesNo (b : Bool) : String := if b then "yes" else "no"

def planRelayApply (account : RelayAccount) : RelayPlan :=
  let relayhost := account.relayhost
  let wrappermode := account.requiresWrappermode
  let hasCredentials := account.hasCredentials
  { relayhost
    keys :=
      [(keyRelayhost, relayhost),
        (keySaslAuthEnable, yesNo hasCredentials),
        (keySaslPasswordMaps, if hasCredentials then "hash:" ++ saslPasswdPath else ""),
        (keySaslSecurityOptions, "noanonymous"),
        (keyTlsSecurityLevel, "encrypt"),
        (keyTlsWrappermode, yesNo wrappermode)]
    credentials :=
      if hasCredentials then
        some (relayhost ++ " " ++ account.username ++ ":" ++ account.password ++ "\n")
      else none
    wrappermode }

structure ConfigSnapshot where
  keys : List (String × Option String)
  credentials : Option String

structure RelayConfigStore (σ : Type) where
  readKey : String → EStateM SmtpError σ (Option String)
  writeKey : String → String → EStateM SmtpError σ Unit
  removeKey : String → EStateM SmtpError σ Unit
  readCredentials : EStateM SmtpError σ (Option String)
  writeCredentials : String → EStateM SmtpError σ Unit
  removeCredentials : EStateM SmtpError σ Unit
  reload : EStateM SmtpError σ Unit

/-- The part of the result of a connection test that `apply_relay` looks at. -/
structure RelayTestResult where
  connected : Bool

structure RelayApplyResult where
  applied : Bool
  relayhost : String
  wrappermode : Bool

structure RelayApplyFailure where
  error : SmtpError
  rolledBack : Bool

section

variable {σ : Type} (store : RelayConfigStore σ)

def takeKeys : List (String × String) → EStateM SmtpError σ (List (String × Option String))
  | [] => pure []
  | (name, _) :: rest => do
    let value ← store.readKey name
    let values ← takeKeys rest
    pure ((name, value) :: values)

def takeSnapshot (plan : RelayPlan) : EStateM SmtpError σ ConfigSnapshot := do
  let keys ← takeKeys store plan.keys
  let credentials ← store.readCredentials
  pure { keys, credentials }

/-- Writes the credentials, or removes them where there are none. -/
def putCredentials : Option String → EStateM SmtpError σ Unit
  | some content => store.writeCredentials content
  | none => store.removeCredentials

def writeKeys : List (String × String) → EStateM SmtpError σ Unit
  | [] => pure ()
  | (key, value) :: rest => do
    store.writeKey key value
    writeKeys rest

def writeAll (plan : RelayPlan) : EStateM SmtpError σ Unit := do
  putCredentials store plan.credentials
  writeKeys store plan.keys
  store.reload

def putKey (key : String) : Option String → EStateM SmtpError σ Unit
  | some value => store.writeKey key value
  | none => store.removeKey key

/-- The loop of `rollback`: the other keys are restored when one cannot be. -/
def restoreKeys : List (String × Option String) → EStateM SmtpError σ Bool
  | [] => pure true
  | (key, previous) :: rest => do
    let restored ← caught (putKey store key previous)
    let others ← restoreKeys rest
    pure (restored.isOk && others)

def rollback (snapshot : ConfigSnapshot) : EStateM SmtpError σ Bool := do
  let credentials ← caught (putCredentials store snapshot.credentials)
  let keys ← restoreKeys store snapshot.keys
  let reloaded ← caught store.reload
  pure (credentials.isOk && keys && reloaded.isOk)

def giveUp (snapshot : ConfigSnapshot) (error : SmtpError) :
    EStateM SmtpError σ (Except RelayApplyFailure RelayApplyResult) := do
  let rolledBack ← rollback store snapshot
  pure (.error { error, rolledBack })

/-- Whether a value that was read says `yes`. -/
def isYes (value : Option String) : Bool :=
  value.any fun value => eqIgnoreAsciiCase (trim value) "yes"

/-- The part of `apply_relay` after the writes: what was written is read again. -/
def verify (plan : RelayPlan) (snapshot : ConfigSnapshot) :
    EStateM SmtpError σ (Except RelayApplyFailure RelayApplyResult) := do
  match ← caught (store.readKey keyRelayhost) with
  | .error error => giveUp store snapshot error
  | .ok none =>
    giveUp store snapshot
      (.rejected (errRelayhostVerifyFailed ++ ": relayhost is not set after write"))
  | .ok (some observed) =>
    if trim observed ≠ plan.relayhost then
      giveUp store snapshot
        (.rejected (errRelayhostVerifyFailed ++ ": expected " ++ plan.relayhost ++
        ", observed " ++ trim observed))
    else
      match ← caught (store.readKey keyTlsWrappermode) with
      | .error error => giveUp store snapshot error
      | .ok value =>
        if isYes value ≠ plan.wrappermode then
          giveUp store snapshot (.rejected (errRelayhostVerifyFailed ++ ": wrappermode expected " ++
            toString plan.wrappermode ++ " but observed " ++ toString (isYes value)))
        else
          pure (.ok { applied := true, relayhost := trim observed, wrappermode := isYes value })

/-- It never stops early: a failure is its answer. -/
def applyRelay (account : RelayAccount) (test : RelayTestResult) :
    EStateM SmtpError σ (Except RelayApplyFailure RelayApplyResult) :=
  if !test.connected then
    pure (.error
      { error := .rejected
          "relay test did not complete successfully; refusing to write any configuration"
        rolledBack := false })
  else do
    let plan := planRelayApply account
    match ← caught (takeSnapshot store plan) with
    | .error error => pure (.error { error, rolledBack := false })
    | .ok snapshot =>
      match ← caught (writeAll store plan) with
      | .error error => giveUp store snapshot error
      | .ok () => verify store plan snapshot

end

end MailStack.Smtp
