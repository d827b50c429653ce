import MailStack.Imap.Mailboxes

/-! The handlers of the IMAP commands on the messages of the selected folder. -/

namespace MailStack.Imap

open Lib Maildir Handler

variable {S : Type} [DecidableEq S] (ctx : Context S) (ch : Choices)

/-- The file of a message is found even after it was renamed. -/
def readMessage (m : MailStore) (folder base : String) : Except MailError Unit :=
  match m.openDir folder with
  | .error error => .error error
  | .ok (_, f) =>
    if (findFile f.files base).isSome then .ok () else .error (.storage "message file is missing")

def readSelected (folder : String) (message : MessageMeta) : Handler S Unit := do
  let s ← current
  let result ← attempt s.store (some folder) (some "r") fun m =>
    (m, readMessage m folder message.base)
  demand result

def readEach (folder : String) : List MessageMeta → Handler S Unit
  | [] => pure ()
  | message :: rest => do
    readSelected folder message
    readEach folder rest

/-- The part that SEARCH, SORT and THREAD share: the messages that have to be read are read, unless
one is too large. `pending` are the answers from the metadata after which a message is read. -/
def queryMessages (view : View) (key : SearchKey) (mustFit : Bool) (pending : Option Bool → Bool)
    (tooLarge : String) : Handler S Unit := do
  stopIf (mustFit && view.messages.any fun m => m.size > ctx.maxMessageSize)
    (failure (.invalid tooLarge))
  readEach view.folder (((view.messages.zipIdx 1).filter fun (m, number) =>
    pending (key.matchesMeta number m)).map (·.1))

def matchedUids (view : View) (key : SearchKey) : List Nat :=
  ((view.messages.zipIdx 1).filter fun (m, number) =>
    (key.matchesMeta number m).getD (key.matchesContent number m)).map fun (m, _) => m.uid

def handleSearch (key : SearchKey) (save : Bool) : Handler S Completion := do
  let view ← requireSelected "command requires a selected mailbox"
  let s ← current
  stopIf (key.containsModseq && !s.condstore) (.bad "MODSEQ requires CONDSTORE")
  queryMessages ctx view key key.needsMessage Option.isNone
    "a message is too large to search; use a narrower search"
  change fun s => if save then { s with savedSearch := some (matchedUids view key) } else s
  pure (.ok "SEARCH completed")

def handleSort (key : SearchKey) (needsHeaders : Bool) : Handler S Completion := do
  let view ← requireSelected "command requires a selected mailbox"
  queryMessages ctx view key (key.needsMessage || needsHeaders)
    (fun answer => answer ≠ some false && (needsHeaders || answer.isNone))
    "a message is too large to sort; use a narrower search"
  pure (.ok "SORT completed")

def handleThread (key : SearchKey) : Handler S Completion := do
  let view ← requireSelected "command requires a selected mailbox"
  queryMessages ctx view key true (fun answer => answer ≠ some false)
    "a message is too large to thread; use a narrower search"
  pure (.ok "THREAD completed")

def fetchContent (folder : String) (items : List FetchItem) (message : MessageMeta) :
    Handler S Unit :=
  if needsMessage items then do
    stopIf (message.size > ctx.maxMessageSize) (failure (.invalid "message is too large to fetch"))
    readSelected folder message
  else pure ()

def writeFlags (folder : String) (uid : Nat) (flags : FlagSet) : Handler S Unit := do
  let s ← current
  let result ← attempt s.store (some folder) (some "w") fun m => m.setFlags folder uid flags
  let updated ← demand result
  change (Session.updateViewMessage uid updated.flags updated.modseq)

/-- One message of FETCH, by its number. -/
def fetchOne (folder : String) (items : List FetchItem) (number : Nat) : Handler S Unit := do
  let s ← current
  match s.view.bind fun view => view.messages[number - 1]? with
  | none => pure ()
  | some message => do
    fetchContent ctx folder items message
    if marksSeen items && !isSeen message then
      writeFlags folder message.uid (insert (.system .seen) message.flags)
    else pure ()

def fetchEach (folder : String) (items : List FetchItem) : List Nat → Handler S Unit
  | [] => pure ()
  | number :: rest => do
    fetchOne ctx folder items number
    fetchEach folder items rest

def handleFetch (uidMode : Bool) (setText : String) (items : List FetchItem)
    (changedSince : Option Nat) : Handler S Completion := do
  let view ← requireSelected "command requires a selected mailbox"
  let s ← current
  stopIf (changedSince.isSome && !s.condstore) (.bad "CHANGEDSINCE requires CONDSTORE")
  let set ← demand (s.parseSequenceSet setText uidMode)
  stopIf (items.contains .modSeq && !s.condstore) (.bad "MODSEQ requires CONDSTORE")
  let chosen := (view.targets set uidMode).filter fun (_, m) =>
    changedSince.all fun limit => m.modseq > limit
  fetchEach ctx view.folder items (chosen.map (·.1))
  pure (.ok "FETCH completed")

/-- A STORE whose arguments and rights are checked. The targets are numbers and UIDs. -/
structure StoreJob where
  folder : String
  uidMode : Bool
  mode : StoreMode
  flags : FlagSet
  unchangedSince : Option Nat

def StoreJob.apply (job : StoreJob) (flags : FlagSet) : FlagSet :=
  match job.mode with
  | .replace => job.flags
  | .add => flags ∪ job.flags
  | .remove => flags \ job.flags

def StoreJob.report (job : StoreJob) (number uid : Nat) : Nat := if job.uidMode then uid else number

def beginStore (uidMode : Bool) (setText : String) (mode : StoreMode) (flags : FlagSet)
    (unchangedSince : Option Nat) : Handler S (StoreJob × List (Nat × Nat)) := do
  let view ← requireSelected "STORE requires a selected mailbox"
  stopIf (!view.writable) (.no (some "READ-ONLY") "mailbox is read-only")
  requireSelectedRights view "w"
  let s ← current
  let set ← demand (s.parseSequenceSet setText uidMode)
  stopIf (unchangedSince.isSome && !s.condstore) (.bad "UNCHANGEDSINCE requires CONDSTORE")
  pure ({ folder := view.folder, uidMode, mode, flags, unchangedSince },
    (view.targets set uidMode).map fun (number, m) => (number, m.uid))

/-- One target of a STORE. The result is the number to report when the message was modified
since. -/
def storeTarget (job : StoreJob) (number uid : Nat) : Handler S (Option Nat) := do
  let s ← current
  match s.view.bind fun view => view.messages[number - 1]? with
  | none => pure none
  | some message =>
    if job.unchangedSince.any fun limit => message.modseq > limit then
      pure (some (job.report number uid))
    else do
      writeFlags job.folder uid (job.apply message.flags)
      pure none

/-- The answer to a STORE, with the numbers of the messages that were modified since. -/
def storeCompleted (modified : List Nat) : Completion :=
  if modified.isEmpty then .ok "STORE completed"
  else .ok ("[MODIFIED " ++ SequenceSet.fromValues modified ++ "] STORE completed")

def storeEach (job : StoreJob) : List (Nat × Nat) → List Nat → Handler S (List Nat)
  | [], modified => pure modified
  | (number, uid) :: rest, modified => do
    let reported ← storeTarget job number uid
    storeEach job rest (modified ++ reported.toList)

def handleStore (uidMode : Bool) (setText : String) (mode : StoreMode) (flags : FlagSet)
    (unchangedSince : Option Nat) : Handler S Completion := do
  let (job, targets) ← beginStore uidMode setText mode flags unchangedSince
  let modified ← storeEach job targets []
  pure (storeCompleted modified)

/-- `Arc::ptr_eq`: the current store itself, or a store that the resolver handed out again. -/
def isCurrentStore (s : Session S) (m : ResolvedMailbox S) : Bool :=
  m.owner.isNone || (m.store = s.store && ch.sameArc)

/-- The target of COPY or MOVE, in the store of the selected folder. -/
def destination (mailbox name : String) : Handler S (ResolvedMailbox S) := do
  let m ← resolved ctx mailbox "i"
  let s ← current
  stopIf (!isCurrentStore ch s m)
    (.no (some "NOPERM") ("cross-store " ++ name ++ " is not supported"))
  pure m

def requireExisting (m : ResolvedMailbox S) : Handler S Unit := do
  let s ← current
  let result ← attempt s.store (some m.folder) (some "i") fun store =>
    (store, folderExists store m.folder)
  let found ← demand result
  stopIf (!found) (.no (some "TRYCREATE") "target mailbox does not exist")

/-- The messages are read in the selected folder and appended to the target. -/
def copySelected (folder : String) (uids : List Nat) (target : String) :
    Handler S (Nat × List Nat) := do
  let s ← current
  let _ ← attempt s.store (some folder) (some "r") fun m => (m, .ok ())
  let result ← attempt s.store (some target) (some "i") fun m =>
    m.copyMany folder uids target ch.drawn ch.fresh
  demand result

def handleCopy (uidMode : Bool) (setText mailbox : String) : Handler S Completion := do
  let view ← requireSelected "COPY requires a selected mailbox"
  let s ← current
  let set ← demand (s.parseSequenceSet setText uidMode)
  let m ← destination ctx ch mailbox "COPY"
  requireExisting m
  let uids := (view.targets set uidMode).map fun (_, message) => message.uid
  if uids.isEmpty then pure (.ok "COPY completed")
  else do
    let (uidvalidity, copies) ← copySelected ch view.folder uids m.folder
    refreshIfSelected ch m.folder
    pure (.ok ("[COPYUID " ++ toString uidvalidity ++ " " ++ SequenceSet.fromValues uids ++ " " ++
      SequenceSet.fromValues copies ++ "] COPY completed"))

/-- The moved messages are removed from the selected folder; when that fails, the copies are taken
back. -/
def removeMoved (folder : String) (uids copies : List Nat) (target : String) : Handler S Unit := do
  let s ← current
  let result ← attempt s.store (some folder) (some "t") fun m => m.expunge folder uids
  match result with
  | .ok _ => pure ()
  | .error error => do
    let _ ← attempt s.store (some target) (some "i") fun m => m.expunge target copies
    throw (failure error)

def handleMove (uidMode : Bool) (setText mailbox : String) : Handler S Completion := do
  let view ← requireSelected "MOVE requires a selected mailbox"
  stopIf (!view.writable) (.no (some "READ-ONLY") "mailbox is read-only")
  let s ← current
  let set ← demand (s.parseSequenceSet setText uidMode)
  let m ← destination ctx ch mailbox "MOVE"
  stopIf (eqIgnoreAsciiCase m.folder view.folder)
    (.no (some "CANNOT") "source and destination are the same mailbox")
  requireExisting m
  let uids := (view.targets set uidMode).map fun (_, message) => message.uid
  if uids.isEmpty then pure (.ok "MOVE completed")
  else do
    let (_, copies) ← copySelected ch view.folder uids m.folder
    removeMoved view.folder uids copies m.folder
    change (Session.forget uids)
    pure (.ok "MOVE completed")

end MailStack.Imap
