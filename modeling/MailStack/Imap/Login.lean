import MailStack.Imap.Session

/-! The handlers of the IMAP commands that touch no folder: authentication and the state of the
session. -/

namespace MailStack.Imap

open Lib Maildir Handler

variable {S : Type} [DecidableEq S] (ctx : Context S) (ch : Choices)

/-- `auth_failure` and `malformed_auth`, which differ in the answer. -/
def countFailure (completion : Completion) : Handler S Completion := do
  change fun s => { s with failures := s.failures + 1 }
  let s ← current
  if s.failures ≥ ctx.maxAuthFailures then do
    change fun s => { s with closed := true }
    throw (.bye "too many failed authentication attempts")
  else throw completion

def authFailure : Handler S Completion :=
  countFailure ctx (.no (some "AUTHENTICATIONFAILED") "invalid credentials")

def malformedAuth (error : MailError) : Handler S Completion := countFailure ctx (failure error)

def authenticationCompleted : Handler S Completion := do
  let s ← current
  pure (.ok ("[CAPABILITY " ++ s.capabilities ctx ++ "] authentication completed"))

/-- The store of the user, where a resolver is there to tell it, becomes the session's own. -/
def bindStore (user : String) : Handler S Unit :=
  match ctx.resolver with
  | none => pure ()
  | some resolver =>
    match resolver.resolve user with
    | none => throw (.no (some "UNAVAILABLE") "mailbox is not provisioned")
    | some store => change fun s => { s with store, ownStore := store }

def finishAuthentication (user password : String) : Handler S Completion :=
  match ch.authenticate user password with
  | .success user => do
    change fun s => { s with failures := 0 }
    bindStore ctx user
    change fun s => { s with state := .authenticated user }
    authenticationCompleted ctx
  | .invalidCredentials => authFailure ctx
  | .temporaryFailure _ =>
    throw (.no (some "UNAVAILABLE") "authentication backend is unavailable")

def requireNotAuthenticated : Handler S Unit := do
  let s ← current
  stopIf (s.state ≠ .notAuthenticated) (.bad "already authenticated")

def handleLogin (user password : String) : Handler S Completion := do
  requireNotAuthenticated
  let s ← current
  stopIf (!s.canAuthenticate ctx) (.no (some "PRIVACYREQUIRED") "TLS is required before login")
  finishAuthentication ctx ch user password

/-- The three fields of a PLAIN response. -/
def handlePlain (fields : Except MailError (List String)) : Handler S Completion :=
  match fields with
  | .error error => malformedAuth ctx error
  | .ok [authzid, authcid, password] =>
    if authcid.isEmpty || password.isEmpty then authFailure ctx
    else if !authzid.isEmpty && !eqIgnoreAsciiCase authzid authcid then
      throw (.no (some "AUTHORIZATIONFAILED") "cannot authorize as another user")
    else finishAuthentication ctx ch authcid password
  | .ok _ => malformedAuth ctx (.protocol "invalid PLAIN response")

def handleScram (exchange : ScramExchange) : Handler S Completion :=
  match exchange.first with
  | .error error => malformedAuth ctx error
  | .ok none => authFailure ctx
  | .ok (some username) =>
    if !exchange.verified then authFailure ctx
    else
      match exchange.acknowledgement with
      | none => throw (failure (.protocol "connection closed during SCRAM"))
      | some line =>
        if !line.isEmpty then authFailure ctx
        else do
          change fun s =>
            { s with failures := 0, state := .authenticated (toAsciiLowercase username) }
          authenticationCompleted ctx

def handleAuthenticate (exchange : Exchange) : Handler S Completion := do
  requireNotAuthenticated
  let s ← current
  stopIf (!s.canAuthenticate ctx)
    (.no (some "PRIVACYREQUIRED") "TLS is required before authentication")
  match exchange with
  | .plain fields => handlePlain ctx ch fields
  | .login (.error error) _ => malformedAuth ctx error
  | .login (.ok _) (.error error) => malformedAuth ctx error
  | .login (.ok user) (.ok password) => finishAuthentication ctx ch user password
  | .scram exchange => handleScram ctx exchange
  | .unsupported => throw (.bad "unsupported SASL mechanism")
  | .interrupted => throw (failure (.protocol "client closed during authentication"))

/-- The loop over the capabilities of ENABLE. -/
def enableEach : List String → Handler S Unit
  | [] => pure ()
  | name :: rest => do
    stopIf (name.isEmpty || !name.toList.all isAsciiGraphic) (.bad "invalid capability name")
    change fun s =>
      { s with
        condstore := s.condstore || eqIgnoreAsciiCase name "CONDSTORE" ||
          eqIgnoreAsciiCase name "QRESYNC"
        qresync := s.qresync || eqIgnoreAsciiCase name "QRESYNC" }
    enableEach rest

def handleEnable (names : List String) : Handler S Completion := do
  let _ ← requireAuthenticated
  stopIf names.isEmpty (.bad "ENABLE requires at least one capability")
  enableEach names
  pure (.ok "ENABLE completed")

def handleCompress (method : String) : Handler S Completion := do
  let _ ← requireAuthenticated
  stopIf (!eqIgnoreAsciiCase method "DEFLATE")
    (.no (some "COMPRESSIONERROR") "unsupported compression method")
  let s ← current
  stopIf s.compressed (.bad "compression is already enabled")
  change fun s => { s with compressed := true }
  pure (.ok "DEFLATE compression enabled")

def handleUnselect : Handler S Completion := do
  let _ ← requireSelected "UNSELECT requires a selected mailbox"
  change Session.deselectToPersonal
  pure (.ok "UNSELECT completed")

def handleStartTls : Handler S Completion := do
  let s ← current
  stopIf (s.state ≠ .notAuthenticated) (.bad "STARTTLS is only valid before authentication")
  stopIf s.secured (.bad "TLS is already active")
  stopIf (!s.starttls) (.bad "STARTTLS is not available")
  change fun s => { s with closed := true }
  pure (.ok "Begin TLS negotiation now")

end MailStack.Imap
