import Mathlib.Data.List.Infix
import MailStack.Core.Validate
import MailStack.Lib.Hex
import MailStack.Lib.Word

/-! The rules for passwords, the records that are kept of them, and the check of a password against
a record. -/

namespace MailStack.Core

open Lib

def minPasswordLength : Nat := 12

def maxPasswordLength : Nat := 256

def pbkdf2Iterations : Nat := 310000

def maxPbkdf2Iterations : Nat := 2000000

def passwordAlgorithm : String := "pbkdf2-sha256"

def saltLen : Nat := 16

def hashLen : Nat := 32

/-- The texts of the context that a password must not contain. -/
def passwordContextTokens (lower : Lowercase) (context : List String) : List String :=
  let push (tokens : List String) (t : String) : List String :=
    if t.toList.length ≥ 3 && !tokens.contains t then tokens ++ [t] else tokens
  context.foldl (fun tokens value =>
    if value.isEmpty then tokens
    else
      let value := lower.toLowercase value
      let tokens := push tokens value
      match splitOnce '@' value with
      | some (localPart, domain) => push (push tokens localPart) domain
      | none => tokens) []

/-- Whether three characters in a row are the same, or go up or down by one. -/
def hasWeakRun : List Char → Bool
  | a :: b :: c :: rest =>
    (a.toNat = b.toNat && b.toNat = c.toNat) || (b.toNat = a.toNat + 1 && c.toNat = b.toNat + 1) ||
      (b.toNat + 1 = a.toNat && c.toNat + 1 = b.toNat) || hasWeakRun (b :: c :: rest)
  | _ => false

def validateMailboxPassword (lower : Lowercase) (password : String) (context : List String) :
    Except String Unit :=
  let length := password.toList.length
  if length < minPasswordLength || maxPasswordLength < length then
    .error "password must contain 12-256 characters"
  else if password.toList.any (fun c => c = '\r' || c = '\n' || c.toNat = 0) then
    .error "password contains forbidden control characters"
  else if !password.toList.any Char.isAlpha || !password.toList.any Char.isDigit then
    .error "password must contain both letters and digits"
  else if hasWeakRun password.toList then
    .error "password must not contain three or more equal or consecutive characters"
  else if (passwordContextTokens lower context).any
      (containsText (lower.toLowercase password) ·) then
    .error "password must not contain the account name or email address"
  else .ok ()

/-- A hash function with digests of the length that SHA-256 has. -/
structure Sha256 where
  digest : List UInt8 → List UInt8
  length_digest : ∀ data, (digest data).length = 32

def xorBytes (a b : List UInt8) : List UInt8 := List.zipWith (· ^^^ ·) a b

def hmac (sha : Sha256) (key data : List UInt8) : List UInt8 :=
  let short := if key.length > 64 then sha.digest key else key
  let block := short ++ List.replicate (64 - short.length) 0
  sha.digest (block.map (· ^^^ 0x5c) ++ sha.digest (block.map (· ^^^ 0x36) ++ data))

def toBeBytes (n : Nat) : List UInt8 :=
  [UInt8.ofNat (n / 2 ^ 24), UInt8.ofNat (n / 2 ^ 16), UInt8.ofNat (n / 2 ^ 8), UInt8.ofNat n]

/-- The rounds of a block after the first: the last digest, and the sum of all of them. -/
def pbkdf2Rounds (mac : List UInt8 → List UInt8) :
    Nat → List UInt8 → List UInt8 → List UInt8
  | 0, _, sum => sum
  | n + 1, u, sum => pbkdf2Rounds mac n (mac u) (xorBytes sum (mac u))

def pbkdf2Sha256 (sha : Sha256) (password salt : List UInt8)
    (iterations dkLen : Nat) : List UInt8 :=
  let mac := hmac sha password
  let block (i : Nat) : List UInt8 :=
    let u := mac (salt ++ toBeBytes i)
    pbkdf2Rounds mac (iterations - 1) u u
  ((List.range' 1 ((dkLen + 31) / 32)).flatMap block).take dkLen

/-- The bytes are compared without leaving the loop early. -/
def constantTimeEq (a b : List UInt8) : Bool :=
  if a.length ≠ b.length then false
  else (List.zip a b).foldl (fun diff p => diff ||| (p.1 ^^^ p.2)) 0 = (0 : UInt8)

structure PasswordRecord where
  username : String
  algorithm : String
  iterations : Nat
  salt : String
  hash : String
  updatedAt : String

/-- What a new record takes from outside: the random salt and the time. -/
structure Stamp where
  salt : List UInt8
  length_salt : salt.length = saltLen
  now : String

def passwordRecord (lower : Lowercase) (sha : Sha256) (stamp : Stamp) (username password : String) :
    Except String PasswordRecord := do
  if !adminRe username then throw "administrator name must be 3-32 safe characters"
  validateMailboxPassword lower password [username]
  let digest := pbkdf2Sha256 sha (bytes password) stamp.salt pbkdf2Iterations hashLen
  pure
    { username
      algorithm := passwordAlgorithm
      iterations := pbkdf2Iterations
      salt := hexEncode stamp.salt
      hash := hexEncode digest
      updatedAt := stamp.now }

def mailboxPasswordRecord (lower : Lowercase) (sha : Sha256) (stamp : Stamp)
    (address password : String) : Except String PasswordRecord :=
  let address := toAsciiLowercase (trim address)
  match splitOnce '@' address with
  | none => throw "mailbox address must be local@domain"
  | some (localPart, domain) => do
    if !adminRe localPart || domain.isEmpty then
      throw "mailbox address local part must be 3-32 safe characters and the domain must be non-empty"
    validateMailboxPassword lower password [address, localPart]
    let record ← passwordRecord lower sha stamp localPart password
    pure { record with username := address }

def verifyPassword (sha : Sha256) (record : PasswordRecord) (password : String) : Bool :=
  if record.algorithm ≠ passwordAlgorithm then false
  else if (bytes record.salt).length ≠ 2 * saltLen || (bytes record.hash).length ≠ 2 * hashLen then
    false
  else
    match hexDecode record.salt, hexDecode record.hash with
    | some salt, some expected =>
      if expected.length ≠ hashLen || salt.length ≠ saltLen then false
      else
        let iterations := max pbkdf2Iterations (min record.iterations maxPbkdf2Iterations)
        constantTimeEq (pbkdf2Sha256 sha (bytes password) salt iterations expected.length) expected
    | _, _ => false

/-- The record was made of the password, with some salt. -/
def RecordOf (sha : Sha256) (password : String) (record : PasswordRecord) : Prop :=
  ∃ stamp : Stamp, record.algorithm = passwordAlgorithm ∧ record.iterations = pbkdf2Iterations ∧
    record.salt = hexEncode stamp.salt ∧
    record.hash =
      hexEncode (pbkdf2Sha256 sha (bytes password) stamp.salt pbkdf2Iterations hashLen)

variable {lower : Lowercase} {sha : Sha256} {stamp : Stamp} {record : PasswordRecord}
  {username password address : String} {a b : List UInt8}

theorem foldl_or_eq_zero (ps : List (UInt8 × UInt8)) (diff : UInt8) :
    ps.foldl (fun diff p => diff ||| (p.1 ^^^ p.2)) diff = 0 ↔
      diff = 0 ∧ ∀ p ∈ ps, p.1 = p.2 := by
  induction ps generalizing diff with
  | nil => simp
  | cons p ps ih =>
    rw [List.foldl_cons, ih, UInt8.or_eq_zero_iff, UInt8.xor_eq_zero_iff, List.forall_mem_cons,
      and_assoc]

theorem constantTimeEq_iff : constantTimeEq a b = true ↔ a = b := by
  unfold constantTimeEq
  by_cases length : a.length = b.length
  · rw [if_neg (not_not.mpr length), decide_eq_true_iff, foldl_or_eq_zero]
    constructor
    · rintro ⟨-, same⟩
      refine List.ext_getElem length fun i ha hb => ?_
      have mem : (a[i], b[i]) ∈ List.zip a b :=
        List.mem_iff_getElem.mpr ⟨i, by simp [ha, hb], by simp⟩
      exact same _ mem
    · rintro rfl
      refine ⟨rfl, fun p mem => ?_⟩
      obtain ⟨i, inside, rfl⟩ := List.mem_iff_getElem.mp mem
      simp
  · rw [if_pos length]
    exact iff_of_false (by simp) fun same => length (by rw [same])

theorem length_hmac (key data : List UInt8) : (hmac sha key data).length = 32 :=
  sha.length_digest _

theorem length_pbkdf2Rounds {mac : List UInt8 → List UInt8} (h : ∀ data, (mac data).length = 32)
    (n : Nat) (u sum : List UInt8) (length : sum.length = 32) :
    (pbkdf2Rounds mac n u sum).length = 32 := by
  induction n generalizing u sum with
  | zero => exact length
  | succ n ih =>
    refine ih _ _ ?_
    rw [xorBytes, List.length_zipWith, length, h, min_self]

theorem length_pbkdf2Sha256 (salt : List UInt8) (iterations : Nat) (key : List UInt8) :
    (pbkdf2Sha256 sha key salt iterations hashLen).length = hashLen := by
  have block := length_pbkdf2Rounds (@length_hmac sha key) (iterations - 1)
    (hmac sha key (salt ++ toBeBytes 1)) (hmac sha key (salt ++ toBeBytes 1)) (length_hmac _ _)
  have one : List.range' 1 ((hashLen + 31) / 32) = [1] := rfl
  simp only [pbkdf2Sha256, one, List.flatMap_cons, List.flatMap_nil, List.append_nil]
  rw [List.length_take, block]
  rfl

theorem verifyPassword_recordOf (h : RecordOf sha password record) :
    verifyPassword sha record password = true := by
  obtain ⟨stamp, algorithm, iterations, salt, hash⟩ := h
  have hashed := @length_pbkdf2Sha256 sha stamp.salt pbkdf2Iterations (bytes password)
  have salted := stamp.length_salt
  unfold verifyPassword
  rw [if_neg (not_not.mpr algorithm), salt, hash, length_bytes_hexEncode, length_bytes_hexEncode,
    hashed, salted, hexDecode_hexEncode, hexDecode_hexEncode]
  simp only [hashed, salted, ne_eq, not_true_eq_false, decide_false, Bool.or_self, Bool.false_eq_true,
    if_false, iterations]
  exact constantTimeEq_iff.mpr rfl

theorem passwordRecord_ok (made : passwordRecord lower sha stamp username password = .ok record) :
    record.username = username ∧ RecordOf sha password record := by
  unfold passwordRecord at made
  split at made
  · cases made
  · cases valid : validateMailboxPassword lower password [username] with
    | error e => rw [valid] at made; cases made
    | ok u =>
      rw [valid] at made
      cases made
      exact ⟨rfl, stamp, rfl, rfl, rfl, rfl⟩

theorem mailboxPasswordRecord_ok
    (made : mailboxPasswordRecord lower sha stamp address password = .ok record) :
    record.username = toAsciiLowercase (trim address) ∧ RecordOf sha password record := by
  unfold mailboxPasswordRecord at made
  dsimp only at made
  split at made
  · cases made
  · rename_i localPart domain _
    split at made
    · cases made
    · cases valid : validateMailboxPassword lower password
          [toAsciiLowercase (trim address), localPart] with
      | error e => rw [valid] at made; cases made
      | ok u =>
        cases inner : passwordRecord lower sha stamp localPart password with
        | error e => rw [valid, inner] at made; cases made
        | ok r =>
          simp only [valid, inner, bind, Except.bind, pure, Except.pure, Except.ok.injEq] at made
          subst made
          obtain ⟨-, stamp, algorithm, iterations, salt, hash⟩ := passwordRecord_ok inner
          exact ⟨rfl, stamp, algorithm, iterations, salt, hash⟩

end MailStack.Core
