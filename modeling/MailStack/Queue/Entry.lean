import MailStack.Lib.Text
import MailStack.Lib.Word

/-! Queue entries: the record that is stored for a message, the checks it passes before it is
written, and the errors of the queue. -/

namespace MailStack.Queue

open Lib

inductive QueueError
  | io (path message : String)
  | storage (message : String)
  | invalid (message : String)
  | busy (message : String)
deriving DecidableEq

inductive EntryKind
  | outbound
  | bounce
deriving DecidableEq

structure QueueEntry where
  id : String
  kind : EntryKind
  mailFrom : String
  recipients : List String
  data : String
  createdAt : String
  attempts : Nat
  nextAttemptUnix : Int
  lastError : Option String
  lastCode : Option Nat
deriving DecidableEq

def maxAddressLen : Nat := 320

/-- The `{:?}` rendering of a text, for the characters that have an escape of their own. -/
def debugText (s : String) : String :=
  let escape : Char → List Char
    | '"' => ['\\', '"']
    | '\\' => ['\\', '\\']
    | '\n' => ['\\', 'n']
    | '\r' => ['\\', 'r']
    | '\t' => ['\\', 't']
    | '\x00' => ['\\', '0']
    | c => [c]
  String.ofList ('"' :: s.toList.flatMap escape ++ ['"'])

def isSafeId (id : String) : Bool :=
  !id.isEmpty && (bytes id).length ≤ 64 &&
    id.toList.all fun c => (c.val < 128 && c.isAlphanum) || c = '-'

def QueueEntry.isNullSender (entry : QueueEntry) : Bool := entry.mailFrom.isEmpty

def QueueEntry.isDue (entry : QueueEntry) (now : Int) : Bool := entry.nextAttemptUnix ≤ now

def unsafeId (id : String) : QueueError := .invalid ("unsafe queue id: " ++ debugText id)

/-- The check of one address of the envelope. -/
def validateAddress (address : String) : Except QueueError Unit :=
  if (bytes address).length > maxAddressLen then
    .error (.invalid "address exceeds 320 characters")
  else if address.toList.any fun c => c = '\r' || c = '\n' || c = '\x00' then
    .error (.invalid "address must not contain CR, LF or NUL (SMTP command injection)")
  else .ok ()

/-- The first error among the checks of a list of addresses. -/
def validateAddresses : List String → Except QueueError Unit
  | [] => .ok ()
  | a :: rest => match validateAddress a with
    | .ok () => validateAddresses rest
    | .error e => .error e

def QueueEntry.validate (entry : QueueEntry) : Except QueueError Unit :=
  if !isSafeId entry.id then .error (unsafeId entry.id)
  else if entry.recipients.isEmpty then .error (.invalid "queue entry has no recipients")
  else if entry.data.isEmpty then .error (.invalid "queue entry has an empty message")
  else validateAddresses (entry.recipients ++ [entry.mailFrom])

/-- A new entry before its check. The id and the time stamp come from the clock and the random
source. -/
def QueueEntry.draft (id createdAt : String) (kind : EntryKind) (mailFrom : String)
    (recipients : List String) (data : String) (now : Int) : QueueEntry :=
  { id, kind, mailFrom, recipients, data, createdAt, attempts := 0, nextAttemptUnix := now,
    lastError := none, lastCode := none }

theorem validateAddresses_iff {addresses : List String} :
    validateAddresses addresses = .ok () ↔ ∀ a ∈ addresses, validateAddress a = .ok () := by
  induction addresses with
  | nil => simp [validateAddresses]
  | cons a rest ih =>
    simp only [validateAddresses, List.mem_cons, forall_eq_or_imp]
    cases h : validateAddress a with
    | ok u => simp [ih]
    | error e => simp

theorem QueueEntry.validate_iff {entry : QueueEntry} :
    entry.validate = .ok () ↔ isSafeId entry.id = true ∧ entry.recipients ≠ [] ∧
      entry.data.isEmpty = false ∧ (∀ a ∈ entry.recipients, validateAddress a = .ok ()) ∧
      validateAddress entry.mailFrom = .ok () := by
  unfold QueueEntry.validate
  by_cases hid : isSafeId entry.id = true
  · by_cases hr : entry.recipients.isEmpty = true
    · simp [hid, List.isEmpty_iff.mp hr]
    · have hne : entry.recipients ≠ [] := by simpa using hr
      by_cases hd : entry.data.isEmpty = true
      · simp [hid, hd, hne]
      · simp [hid, hd, hne, validateAddresses_iff, or_imp, forall_and]
  · simp [hid, unsafeId]

/-- An entry keeps passing the check while only recipients are dropped, as long as one is left, and
the sender, the text and the id stay. -/
theorem QueueEntry.validate_of_subset {entry entry' : QueueEntry} (h : entry.validate = .ok ())
    (hid : entry'.id = entry.id) (hfrom : entry'.mailFrom = entry.mailFrom)
    (hdata : entry'.data = entry.data) (hsub : entry'.recipients ⊆ entry.recipients)
    (hne : entry'.recipients ≠ []) : entry'.validate = .ok () := by
  rw [QueueEntry.validate_iff] at h ⊢
  obtain ⟨h1, -, h3, h4, h5⟩ := h
  exact ⟨hid ▸ h1, hne, hdata ▸ h3, fun a ha => h4 a (hsub ha), hfrom ▸ h5⟩

end MailStack.Queue
