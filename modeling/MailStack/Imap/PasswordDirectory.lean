import MailStack.Core.MailboxPasswords
import MailStack.Imap.Command

/-! The logins of IMAP and POP3: a password that is checked against the record of its mailbox, and
the credentials that SCRAM takes from this record. -/

namespace MailStack.Imap

open Lib Core MailboxPasswords

/-- The records that logins are looked up in. -/
structure MailboxDirectory where
  path : String
  passwords : File Records

def MailboxDirectory.lookup (directory : MailboxDirectory) (user : String) :
    Option PasswordRecord :=
  (findRecord directory.path directory.passwords (candidateKeys user)).toOption.join

structure ScramCredentials where
  salt : List UInt8
  iterations : Nat
  storedKey : List UInt8
  serverKey : List UInt8

section

variable (sha : Sha256)

def ScramCredentials.dummyFor (user : String) : ScramCredentials :=
  let salted := List.replicate 32 0
  let clientKey := hmac sha salted (bytes "Client Key")
  { salt := (sha.digest (bytes s!"mailstack-scram-dummy:{user}")).take saltLen
    iterations := pbkdf2Iterations
    storedKey := sha.digest clientKey
    serverKey := hmac sha salted (bytes "Server Key") }

def scramCredentialsFromRecord (record : PasswordRecord) : Option ScramCredentials := do
  if record.algorithm ≠ passwordAlgorithm || record.iterations < pbkdf2Iterations ||
      (bytes record.salt).length ≠ saltLen * 2 || (bytes record.hash).length ≠ hashLen * 2 then
    none
  else
    let salt ← hexDecode record.salt
    let salted ← hexDecode record.hash
    if salt.length ≠ saltLen || salted.length ≠ hashLen then none
    else
      some
        { salt
          iterations := record.iterations
          storedKey := sha.digest (hmac sha salted (bytes "Client Key"))
          serverKey := hmac sha salted (bytes "Server Key") }

/-- The end of `verify_client_final`: the signature of the server, if the proof of the client fits
the exchange so far. -/
def verifyClientProof (credentials : ScramCredentials) (authMessage proof : List UInt8) :
    Option (List UInt8) :=
  if proof.length ≠ 32 then none
  else
    let clientSignature := hmac sha credentials.storedKey authMessage
    let clientKey := xorBytes proof clientSignature
    if constantTimeEq (sha.digest clientKey) credentials.storedKey then
      some (hmac sha credentials.serverKey authMessage)
    else none

/-- The check of a password, which may fail before it has an answer. -/
def PasswordDirectory.authenticate (directory : MailboxDirectory) (failure : Option String)
    (user password : String) : AuthOutcome :=
  let user := toAsciiLowercase (trim user)
  if user.isEmpty then .invalidCredentials
  else
    match failure with
    | some error => .temporaryFailure s!"password verification task failed: {error}"
    | none =>
      match directory.lookup user with
      | some record => if verifyPassword sha record password then .success user else .invalidCredentials
      | none => .invalidCredentials

def PasswordDirectory.scramCredentials (directory : MailboxDirectory) (user : String) :
    Option ScramCredentials :=
  (directory.lookup (toAsciiLowercase (trim user))).bind (scramCredentialsFromRecord sha)

end

def AuthOutcome.isSuccess : AuthOutcome → Bool
  | .success _ => true
  | _ => false

section

variable {sha : Sha256} {directory : MailboxDirectory} {user password : String}
  {record : PasswordRecord}

theorem PasswordDirectory.authenticate_of_none (none : directory.lookup (key user) = none)
    (failure : Option String) :
    (PasswordDirectory.authenticate sha directory failure user password).isSuccess = false := by
  rw [key] at none
  simp only [PasswordDirectory.authenticate, none]
  split
  · rfl
  · cases failure <;> rfl

theorem PasswordDirectory.scramCredentials_of_none (none : directory.lookup (key user) = none) :
    PasswordDirectory.scramCredentials sha directory user = .none := by
  rw [key] at none
  rw [PasswordDirectory.scramCredentials, none]
  rfl

end

section

variable {sha : Sha256} {credentials : ScramCredentials} {password : String}
  {record : PasswordRecord}

def clientProof (sha : Sha256) (salted authMessage : List UInt8) : List UInt8 :=
  let clientKey := hmac sha salted (bytes "Client Key")
  xorBytes clientKey (hmac sha (sha.digest clientKey) authMessage)

theorem xorBytes_xorBytes {a b : List UInt8} (same : a.length = b.length) :
    xorBytes (xorBytes a b) b = a := by
  induction a generalizing b with
  | nil => rfl
  | cons x a ih =>
    cases b with
    | nil => cases same
    | cons y b =>
      have rest := ih (Nat.succ.inj same)
      rw [xorBytes, xorBytes] at rest ⊢
      rw [List.zipWith_cons_cons, List.zipWith_cons_cons, rest, UInt8.xor_assoc, UInt8.xor_self,
        UInt8.xor_zero]

theorem verifyClientProof_clientProof {salted : List UInt8}
    (stored : credentials.storedKey = sha.digest (hmac sha salted (bytes "Client Key")))
    (authMessage : List UInt8) :
    verifyClientProof sha credentials authMessage (clientProof sha salted authMessage) =
      some (hmac sha credentials.serverKey authMessage) := by
  have proof : (clientProof sha salted authMessage).length = 32 := by
    rw [clientProof, xorBytes, List.length_zipWith, length_hmac, length_hmac, min_self]
  have key : xorBytes (clientProof sha salted authMessage)
      (hmac sha credentials.storedKey authMessage) = hmac sha salted (bytes "Client Key") := by
    rw [stored, clientProof, xorBytes_xorBytes]
    rw [length_hmac, length_hmac]
  simp only [verifyClientProof, proof, key, ← stored, constantTimeEq_iff.mpr]
  rfl

theorem scram_recordOf (made : RecordOf sha password record) : ∃ credentials,
    scramCredentialsFromRecord sha record = some credentials ∧ ∀ authMessage,
      (verifyClientProof sha credentials authMessage (clientProof sha
        (pbkdf2Sha256 sha (bytes password) credentials.salt credentials.iterations hashLen)
        authMessage)).isSome := by
  obtain ⟨stamp, algorithm, iterations, salt, hash⟩ := made
  have salted := stamp.length_salt
  have hashed := @length_pbkdf2Sha256 sha stamp.salt pbkdf2Iterations (bytes password)
  let key := pbkdf2Sha256 sha (bytes password) stamp.salt pbkdf2Iterations hashLen
  refine ⟨⟨stamp.salt, pbkdf2Iterations, sha.digest (hmac sha key (bytes "Client Key")),
    hmac sha key (bytes "Server Key")⟩, ?_, fun authMessage => ?_⟩
  · simp only [scramCredentialsFromRecord, algorithm, iterations, salt, hash, length_bytes_hexEncode,
      salted, hashed, hexDecode_hexEncode, Bool.false_eq_true, if_false, Option.bind_eq_bind,
      Option.bind_some, ne_eq, not_true_eq_false, decide_false, Bool.or_self]
    rfl
  · rw [verifyClientProof_clientProof rfl]
    rfl

end

end MailStack.Imap
