import MailStack.Core.MailboxPasswords
import MailStack.Smtpd.Connection

/-! The passwords of mailboxes as the authentication of SMTP checks them. -/

namespace MailStack.Smtpd

open Lib Core MailboxPasswords

/-- The user and the password of a PLAIN response. -/
def decodePlain (decodeBase64 : List UInt8 → Option (List UInt8)) (response : String) :
    Option (String × String) := do
  let payload ← decodeBase64 (bytes response)
  let (user, password) ← match payload.splitOn 0 with
    | [_, user, password] => some (user, password)
    | [user, password] => some (user, password)
    | _ => none
  let user := fromUtf8Lossy user
  if (trim user).isEmpty then none else some (user, fromUtf8Lossy password)

def verifyOnBlockingPool (sha : Sha256) (path : String) (passwords : File Records)
    (user password : String) : AuthOutcome :=
  match findRecord path passwords (candidateKeys user) with
  | .ok (some record) =>
    if verifyPassword sha record password then
      .success (if record.username.isEmpty then user else record.username)
    else .invalidCredentials
  | .ok none | .error _ => .invalidCredentials

/-- The check of a request; it fails for a time where the queue is closed or full, or where the task
that checks the password fails. -/
def MailboxPasswordsAuthenticator.authenticate (sha : Sha256)
    (decodeBase64 : List UInt8 → Option (List UInt8)) (path : String) (passwords : File Records)
    (failure : Option String) (request : AuthRequest) : AuthOutcome :=
  if !eqIgnoreAsciiCase request.mechanism "PLAIN" then
    .temporaryFailure "unsupported SASL mechanism"
  else
    match decodePlain decodeBase64 request.response with
    | none => .invalidCredentials
    | some (user, password) =>
      match failure with
      | some error => .temporaryFailure error
      | none => verifyOnBlockingPool sha path passwords user password

def AuthOutcome.isSuccess : AuthOutcome → Bool
  | .success _ => true
  | _ => false

theorem MailboxPasswordsAuthenticator.authenticate_of_none {sha : Sha256}
    {decodeBase64 : List UInt8 → Option (List UInt8)} {path : String} {passwords : File Records}
    {request : AuthRequest} {user password : String}
    (decoded : decodePlain decodeBase64 request.response = some (user, password))
    (none : ∀ record, findRecord path passwords (candidateKeys user) ≠ .ok (some record))
    (failure : Option String) :
    (authenticate sha decodeBase64 path passwords failure request).isSuccess = false := by
  have refused : (verifyOnBlockingPool sha path passwords user password).isSuccess = false := by
    unfold verifyOnBlockingPool
    split
    · rename_i record known
      exact absurd known (none record)
    · rfl
    · rfl
  unfold authenticate
  rw [decoded]
  split
  · rfl
  · cases failure with
    | none => exact refused
    | some error => rfl

end MailStack.Smtpd
