import MailStack.Imap.Command
import MailStack.Imap.Rights
import MailStack.Imap.SequenceSet
import MailStack.Lib.Handler

/-! The state of an IMAP session and what each command does to it and to the stores. A handler
keeps account of the folders that it reads or changes, each with the right that this takes. -/

namespace MailStack.Imap

open Lib Maildir

variable {S : Type}

/-- What a session is made with. `matchesPattern` decides which names a pattern of LIST is for. -/
structure Context (S : Type) where
  store : S
  resolver : Option (Resolver S)
  requireTls : Bool
  maxAuthFailures : Nat
  maxMessageSize : Nat
  allowSetquota : Bool
  matchesPattern : String → String → Bool

/-- What the surroundings settle while a command runs: the names drawn for new messages, a
UIDVALIDITY that may be drawn, the time stamp that the selected folder shows, whether the resolver
hands out the very store that the session holds, and the answer of the authenticator. -/
structure Choices where
  drawn : Nat → String
  fresh : Nat
  stamp : Nat
  sameArc : Bool
  authenticate : String → String → AuthOutcome

structure View where
  folder : String
  writable : Bool
  uidvalidity : Nat
  uidnext : Nat
  highestModseq : Nat
  messages : List MessageMeta
  stamp : Option Nat
  skippedStamps : Nat
deriving DecidableEq

inductive State
  | notAuthenticated
  | authenticated (user : String)
  | selected (user : String) (view : View)
deriving DecidableEq

structure Session (S : Type) where
  store : S
  ownStore : S
  selectedOwner : Option String
  secured : Bool
  starttls : Bool
  state : State
  failures : Nat
  condstore : Bool
  qresync : Bool
  savedSearch : Option (List Nat)
  compressed : Bool
  idling : Bool
  closed : Bool

def View.maxUid (view : View) : Nat := (view.messages.getLast?.map (·.uid)).getD 0

def View.maxSeq (view : View) : Nat := view.messages.length

/-- The messages of a set with their numbers from 1 on. -/
def View.targets (view : View) (set : SequenceSet) (uidMode : Bool) : List (Nat × MessageMeta) :=
  ((view.messages.zipIdx 1).filter fun (m, number) =>
    if uidMode then set.contains m.uid view.maxUid else set.contains number view.maxSeq).map
    fun (m, number) => (number, m)

/-- The first message of the UID is shown with other flags. -/
def updateMessage (uid : Nat) (flags : FlagSet) (modseq : Nat) :
    List MessageMeta → List MessageMeta
  | [] => []
  | m :: rest =>
    if m.uid = uid then { m with flags, modseq } :: rest
    else m :: updateMessage uid flags modseq rest

namespace Session

def start (ctx : Context S) (secured starttlsAvailable : Bool) : Session S :=
  { store := ctx.store
    ownStore := ctx.store
    selectedOwner := none
    secured
    starttls := starttlsAvailable && !secured
    state := .notAuthenticated
    failures := 0
    condstore := false
    qresync := false
    savedSearch := none
    compressed := false
    idling := false
    closed := false }

def user (s : Session S) : Option String :=
  match s.state with
  | .notAuthenticated => none
  | .authenticated user => some user
  | .selected user _ => some user

def view (s : Session S) : Option View :=
  match s.state with
  | .selected _ view => some view
  | _ => none

def mapView (f : View → View) (s : Session S) : Session S :=
  { s with
    state :=
      match s.state with
      | .selected user view => .selected user (f view)
      | other => other }

def deselectToPersonal (s : Session S) : Session S :=
  { s with
    state :=
      match s.state with
      | .selected user _ => .authenticated user
      | other => other
    store := s.ownStore
    selectedOwner := none }

def canAuthenticate (ctx : Context S) (s : Session S) : Bool := s.secured || !ctx.requireTls

def capabilities (ctx : Context S) (s : Session S) : String :=
  " ".intercalate
    (["IMAP4rev1", "SASL-IR", "LITERAL+", "UIDPLUS", "MULTIAPPEND", "NAMESPACE", "ID", "ENABLE",
        "CONDSTORE", "QRESYNC", "IDLE", "MOVE", "UNSELECT", "SPECIAL-USE", "CHILDREN", "ESEARCH",
        "QUOTA", "SORT", "SORT=DISPLAY", "THREAD=ORDEREDSUBJECT", "THREAD=REFERENCES", "METADATA",
        "ACL", "BINARY"] ++
      (if s.state = .notAuthenticated then [] else ["COMPRESS=DEFLATE"]) ++
      (if s.starttls && !s.secured then ["STARTTLS"] else []) ++
      (if s.canAuthenticate ctx then ["AUTH=PLAIN", "AUTH=LOGIN", "AUTH=SCRAM-SHA-256"]
        else ["LOGINDISABLED"]))

def updateViewMessage (uid : Nat) (flags : FlagSet) (modseq : Nat) : Session S → Session S :=
  mapView fun view =>
    { view with
      messages := updateMessage uid flags modseq view.messages
      highestModseq := max view.highestModseq modseq }

def invalidateViewStamp : Session S → Session S := mapView fun view => { view with stamp := none }

def forget (uids : List Nat) : Session S → Session S :=
  mapView fun view => { view with messages := view.messages.filter fun m => !uids.contains m.uid }

/-- The set that a text stands for, with the saved result in the place of `$`. -/
def parseSequenceSet (s : Session S) (text : String) (uidMode : Bool) :
    Except MailError SequenceSet :=
  if contains text '$' then
    match s.savedSearch.filter fun uids => !uids.isEmpty with
    | none => .error (.protocol "'$' requires a prior SEARCH with RETURN (SAVE)")
    | some saved =>
      match s.view, uidMode with
      | none, false => .error (.protocol "'$' requires a selected mailbox")
      | view, _ =>
        match savedResultNumbers saved uidMode ((view.map (·.messages)).getD []) with
        | .error error => .error error
        | .ok numbers =>
          let inserted := (SequenceSet.fromValues numbers).toList
          SequenceSet.parse
            (String.ofList (text.toList.flatMap fun c => if c = '$' then inserted else [c]))
  else SequenceSet.parse text

end Session

/-- A folder that was read or changed. `rights` are the letters that a user needs for this on a
folder of somebody else, and `none` for what only the owner of the store may do; no folder stands
for the store as a whole. -/
structure Access (S : Type) where
  store : S
  folder : Option String
  rights : Option String

/-- What a handler works on. -/
structure Conn (S : Type) where
  session : Session S
  realm : Realm S
  accesses : List (Access S)

/-- A handler stops early with the completion that it answers. -/
abbrev Handler (S : Type) := EStateM Completion (Conn S)

namespace Handler

variable {α : Type}

def current : Handler S (Session S) := fun c => .ok c.session c

def change (f : Session S → Session S) : Handler S Unit :=
  fun c => .ok () { c with session := f c.session }

def inspect (store : S) (f : MailStore → α) : Handler S α := fun c => .ok (f (c.realm store)) c

/-- An operation on a store. -/
def attempt [DecidableEq S] (store : S) (folder rights : Option String)
    (op : MailStore → Outcome α) : Handler S (Except MailError α) := fun c =>
  .ok (op (c.realm store)).2
    { c with
      realm := Function.update c.realm store (op (c.realm store)).1
      accesses := c.accesses ++ [{ store, folder, rights }] }

def demand (result : Except MailError α) : Handler S α :=
  match result with
  | .ok a => pure a
  | .error error => throw (failure error)

def stopIf (condition : Bool) (completion : Completion) : Handler S Unit :=
  if condition then throw completion else pure ()

def requireAuthenticated : Handler S String := do
  let s ← current
  match s.user with
  | some user => pure user
  | none => throw (.bad "command requires authentication")

def requireSelected (message : String) : Handler S View := do
  let s ← current
  match s.view with
  | some view => pure view
  | none => throw (.bad message)

/-- A mailbox that is named in a command, once its rights are checked. -/
def resolved (ctx : Context S) (name rights : String) : Handler S (ResolvedMailbox S) := do
  let s ← current
  let mailbox ← demand (resolveMailbox ctx.resolver s.store name)
  let allowed ← inspect mailbox.store fun m =>
    checkSharedRights m mailbox.folder mailbox.owner s.user rights
  demand allowed
  pure mailbox

def requireSelectedRights (view : View) (rights : String) : Handler S Unit := do
  let s ← current
  let allowed ← inspect s.store fun m =>
    checkSharedRights m view.folder s.selectedOwner s.user rights
  demand allowed

/-- When the handler stops early, nothing stays selected. -/
def orDeselect (h : Handler S α) : Handler S α := fun c =>
  match h c with
  | .ok a t => .ok a t
  | .error completion t => .error completion { t with session := t.session.deselectToPersonal }

end Handler

end MailStack.Imap
