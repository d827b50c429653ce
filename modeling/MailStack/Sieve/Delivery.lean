import MailStack.Maildir.Store
import MailStack.Sieve.Scripts
import MailStack.Sieve.Vacation

/-! The delivery of a message to a mailbox through its script. -/

namespace MailStack.Sieve

open Lib Maildir

structure DeliveryPlan where
  folders : List String
  reject : Option String

def pushUnique (list : List String) (value : String) : List String :=
  if list.contains value then list else list ++ [value]

/-- The folder exists, or it is to be created and can be. -/
def ensureFolder (s : MailStore) (folder : String) (create : Bool) : Bool × MailStore :=
  if (s.openDir folder).isOk then (true, s)
  else if create then
    match s.create folder with
    | (s, .ok ()) => (true, s)
    | (s, .error _) => (false, s)
  else (false, s)

/-- The variables of `delivery_plan`, and the store that it creates folders in. -/
structure Planning where
  folders : List String
  discarded : Bool
  reject : Option String
  store : MailStore

def planAction (p : Planning) : Action → Planning
  | .keep => { p with folders := pushUnique p.folders inbox }
  | .fileInto folder create =>
    let (ensured, store) := ensureFolder p.store folder create
    { p with store, folders := pushUnique p.folders (if ensured then folder else inbox) }
  | .discard => { p with discarded := true }
  | .reject reason => { p with reject := some reason }
  | .redirect _ | .vacation _ _ _ => p

def deliveryPlan (s : MailStore) (actions : List Action) : DeliveryPlan × MailStore :=
  let p := actions.foldl planAction { folders := [], discarded := false, reject := none, store := s }
  match p.reject with
  | some reason => ({ folders := [], reject := some reason }, p.store)
  | none =>
    ({ folders := if p.folders.isEmpty && !p.discarded then [inbox] else p.folders, reject := none },
      p.store)

/-- The UIDs of the copies, which the caller only logs, are left out. -/
inductive Delivery
  | rejected (reason : String)
  | delivered (folders : List String)
deriving DecidableEq

/-- A mailbox: its folders, its scripts and the text of its vacation state. -/
structure Mailbox where
  store : MailStore
  scripts : ScriptArea
  vacation : Option String

/-- The actions for a message. A script that does not compile takes none. -/
def evaluate (host : Host) (scripts : ScriptArea) (message : List UInt8) :
    Except MailError (List Action) := do
  match ← loadScript scripts with
  | none => pure []
  | some source =>
    match compile source with
    | .ok script => pure (actions host.decodeBase64 script message)
    | .error _ => pure []

/-- The names that are drawn for the copies of a message, and the UIDVALIDITY that may be. -/
structure Draw where
  base : Nat → String
  fresh : Nat

def Draw.targets (draw : Draw) (folders : List String) : List Target :=
  folders.zipIdx.map fun (folder, i) => { folder, base := draw.base i, fresh := draw.fresh }

def newMessage (message : List UInt8) : NewMessage := { size := message.length, flags := ∅ }

/-- What a delivery leaves: the mailbox, what was sent, and the result. -/
structure Delivered where
  mailbox : Mailbox
  sent : List (Submission × Bool)
  result : Except MailError Delivery

def deliverEnvelope (host : Host) (sink : Option Sink) (draw : Draw) (mailbox : Mailbox)
    (message : List UInt8) (envelope : Envelope) : Delivered :=
  match evaluate host mailbox.scripts message with
  | .error error => { mailbox, sent := [], result := .error error }
  | .ok evaluated =>
    let outbox := sendActions host sink message envelope evaluated
      { attempts := [], vacation := mailbox.vacation }
    let (plan, store) := deliveryPlan mailbox.store evaluated
    let left := { mailbox with store, vacation := outbox.vacation }
    match plan.reject with
    | some reason =>
      { mailbox := left, sent := outbox.attempts, result := .ok (.rejected reason) }
    | none =>
      if plan.folders.isEmpty then
        { mailbox := left, sent := outbox.attempts, result := .ok (.delivered []) }
      else
        match store.appendManyFolders (draw.targets plan.folders) (newMessage message) with
        | (store, .error error) =>
          { mailbox := { left with store }, sent := outbox.attempts, result := .error error }
        | (store, .ok ()) =>
          { mailbox := { left with store }
            sent := outbox.attempts
            result := .ok (.delivered plan.folders) }

end MailStack.Sieve
