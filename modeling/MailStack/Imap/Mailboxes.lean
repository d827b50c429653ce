import MailStack.Imap.Login

/-! The handlers of the IMAP commands on mailboxes: selecting one, the folders and the quota of the
current store, and the mailboxes of others under their rights. -/

namespace MailStack.Imap

open Lib Maildir Handler

variable {S : Type} [DecidableEq S] (ctx : Context S) (ch : Choices)

/-- The folder is opened again, unless it still has the time stamp that the view was made at. -/
def refreshSelected : Handler S Unit := do
  let s ← current
  match s.view with
  | none => pure ()
  | some view =>
    if view.stamp = some ch.stamp ∧ view.skippedStamps < 9 then
      change (Session.mapView fun v => { v with skippedStamps := v.skippedStamps + 1 })
    else do
      let result ← attempt s.store (some view.folder) (some "r") fun m =>
        m.openFolder view.folder false ch.fresh
      let state ← demand result
      change (Session.mapView fun v =>
        { v with
          uidvalidity := state.uidvalidity
          uidnext := state.uidnext
          highestModseq := state.highestModseq
          messages := state.messages
          stamp := some ch.stamp
          skippedStamps := 0 })

/-- The view is brought up to date when it is of the folder that was just changed. -/
def refreshIfSelected (folder : String) : Handler S Unit := do
  let s ← current
  match s.view with
  | some view =>
    if eqIgnoreAsciiCase view.folder folder then do
      change Session.invalidateViewStamp
      refreshSelected ch
    else pure ()
  | none => pure ()

def handleNoop : Handler S Completion := do
  refreshSelected ch
  pure (.ok "NOOP completed")

/-- The loop over the parameters of SELECT, with the last QRESYNC request. -/
def selectParameters : List SelectParameter → Option (Nat × Nat) → Handler S (Option (Nat × Nat))
  | [], request => pure request
  | .condstore :: rest, request => do
    change fun s => { s with condstore := true }
    selectParameters rest request
  | .qresync parsed :: rest, _ => do
    let s ← current
    stopIf (!s.qresync) (.bad "QRESYNC requires ENABLE QRESYNC")
    match parsed with
    | .error message => throw (.bad message)
    | .ok request => do
      change fun s => { s with condstore := true }
      selectParameters rest (some request)
  | .other name :: _, _ => throw (.bad ("unsupported SELECT parameter: " ++ name))

def openSelected (mailbox : String) : Handler S (ResolvedMailbox S × FolderState) := do
  let m ← resolved ctx mailbox "lr"
  let result ← attempt m.store (some m.folder) (some "lr") fun store =>
    store.openFolder m.folder true ch.fresh
  let state ← demand result
  pure (m, state)

/-- With QRESYNC the list of expunged messages is read, if the view that the client knows is of the
same folder. -/
def expungedSince (m : ResolvedMailbox S) (state : FolderState) (request : Option (Nat × Nat)) :
    Handler S Unit :=
  match request with
  | none => pure ()
  | some (uidvalidity, _) =>
    if uidvalidity = state.uidvalidity then do
      let result ← attempt m.store (some m.folder) (some "lr") fun store =>
        (store, (store.openDir state.name).map fun _ => ())
      demand result
    else pure ()

def handleSelect (mailbox : String) (parameters : List SelectParameter) (writable : Bool) :
    Handler S Completion := do
  let user ← requireAuthenticated
  let request ← selectParameters parameters none
  let (m, state) ← orDeselect (openSelected ctx ch mailbox)
  change fun s => { s with store := m.store, selectedOwner := m.owner, savedSearch := none }
  expungedSince m state request
  change fun s =>
    { s with
      state := .selected user
        { folder := state.name
          writable
          uidvalidity := state.uidvalidity
          uidnext := state.uidnext
          highestModseq := state.highestModseq
          messages := state.messages
          stamp := some ch.stamp
          skippedStamps := 0 } }
  pure (.ok (if writable then "[READ-WRITE] SELECT completed" else "[READ-ONLY] EXAMINE completed"))

def isDeleted (m : MessageMeta) : Bool := Flag.system .deleted ∈ m.flags

def isSeen (m : MessageMeta) : Bool := Flag.system .seen ∈ m.flags

/-- Nothing is done to the store when there is nothing to remove. -/
def expungeSelected (view : View) (uids : List Nat) : Handler S Unit :=
  if uids.isEmpty then pure ()
  else do
    let s ← current
    let result ← attempt s.store (some view.folder) (some "t") fun m => m.expunge view.folder uids
    let _ ← demand result
    pure ()

/-- What CLOSE does to a folder that was selected for writing. -/
def closeExpunge (view : View) : Handler S Unit :=
  if view.writable then do
    requireSelectedRights view "t"
    expungeSelected view ((view.messages.filter isDeleted).map (·.uid))
  else pure ()

def handleClose : Handler S Completion := do
  let view ← requireSelected "CLOSE requires a selected mailbox"
  closeExpunge view
  change Session.deselectToPersonal
  pure (.ok "CLOSE completed")

def handleExpunge (restrict : SequenceSet) : Handler S Completion := do
  let view ← requireSelected "EXPUNGE requires a selected mailbox"
  stopIf (!view.writable) (.no (some "READ-ONLY") "mailbox is read-only")
  requireSelectedRights view "t"
  let uids := ((view.messages.filter isDeleted).filter fun m =>
    restrict.contains m.uid view.maxUid).map (·.uid)
  expungeSelected view uids
  change (Session.forget uids)
  pure (.ok "EXPUNGE completed")

/-- EXPUNGE and UID EXPUNGE. -/
def handleExpungeText (restrict : Option String) : Handler S Completion :=
  match restrict with
  | none => handleExpunge { ranges := [{ first := 1, last := star }] }
  | some text => do
    let s ← current
    let set ← demand (s.parseSequenceSet text true)
    handleExpunge set

/-- A command on the current store, under a name that is not a shared one. -/
def ownStoreOp {α : Type} (name : String) (op : MailStore → Outcome α) : Handler S α := do
  demand (denyShared name)
  let s ← current
  let result ← attempt s.store (some name) none op
  demand result

def handleCreate (name : String) : Handler S Completion := do
  let _ ← requireAuthenticated
  ownStoreOp name fun m => m.create name
  pure (.ok "CREATE completed")

def handleDelete (name : String) : Handler S Completion := do
  let _ ← requireAuthenticated
  demand (denyShared name)
  let s ← current
  stopIf (s.view.any fun view => eqIgnoreAsciiCase view.folder name)
    (.bad "cannot delete the selected mailbox")
  ownStoreOp name fun m => m.delete name
  pure (.ok "DELETE completed")

/-- The view follows a folder that was renamed. -/
def followRename (source target : String) : Handler S Unit := do
  let s ← current
  if s.view.any fun view => eqIgnoreAsciiCase view.folder source then do
    change (Session.mapView fun view =>
      { view with folder := if isInbox source then inbox else target })
    refreshSelected ch
  else pure ()

def handleRename (source target : String) : Handler S Completion := do
  let _ ← requireAuthenticated
  demand (denyShared source)
  ownStoreOp target fun m => m.rename source target
  followRename ch source target
  pure (.ok "RENAME completed")

def handleSubscribe (name : String) (subscribe : Bool) : Handler S Completion := do
  let _ ← requireAuthenticated
  ownStoreOp name fun m => (m, (normalizeFolderName name).map fun _ => ())
  pure (.ok (if subscribe then "SUBSCRIBE completed" else "UNSUBSCRIBE completed"))

def resolvePattern (reference pattern : String) : String :=
  if pattern.isEmpty then reference
  else if reference.isEmpty then pattern
  else if pattern.toList.head? = some delimiter || reference.toList.getLast? = some delimiter then
    reference ++ pattern
  else reference ++ String.singleton delimiter ++ pattern

def maxListPattern : Nat := 512

/-- A folder of another user is shown when the ACL gives the right to see it. -/
def showShared (store : S) (owner : String) (folder : String) : Handler S Unit := do
  let s ← current
  let allowed ← inspect store fun m =>
    checkSharedRights m folder (some owner) (some (toAsciiLowercase (s.user.getD ""))) "l"
  match allowed with
  | .error _ => pure ()
  | .ok () => do
    let _ ← attempt store (some folder) (some "l") fun m => (m, .ok ())
    pure ()

def showFolders (store : S) (owner : String) : List String → Handler S Unit
  | [] => pure ()
  | folder :: rest => do
    showShared store owner folder
    showFolders store owner rest

def showUsers (resolver : Resolver S) : List String → Handler S Unit
  | [] => pure ()
  | user :: rest => do
    match resolver.resolve user with
    | none => showUsers resolver rest
    | some store => do
      showShared store (toAsciiLowercase user) inbox
      showUsers resolver rest

def sharedMailboxListing (pattern : String) : Handler S Unit :=
  match ctx.resolver with
  | none => pure ()
  | some resolver =>
    let rest := (stripPrefix sharedRoot pattern).getD pattern
    match splitOnce '/' rest with
    | some (user, mailboxPattern) =>
      match resolver.resolve user with
      | none => pure ()
      | some store => do
        let folders ← inspect store fun m => m.folders.map (·.1)
        showFolders store (toAsciiLowercase user)
          (folders.filter (ctx.matchesPattern mailboxPattern))
    | none => showUsers resolver (resolver.users.filter (ctx.matchesPattern rest))

def handleList (lsub : Bool) (reference pattern : String) : Handler S Completion := do
  let _ ← requireAuthenticated
  let completed := Completion.ok (if lsub then "LSUB completed" else "LIST completed")
  let full := resolvePattern reference pattern
  if pattern.isEmpty && reference.isEmpty then pure completed
  else if (bytes full).length > maxListPattern then throw (.bad "LIST pattern is too long")
  else if !lsub && isShared full then do
    sharedMailboxListing ctx full
    pure completed
  else do
    let s ← current
    let _ ← attempt s.store none none fun m => (m, .ok (m.folders.map (·.1)))
    pure completed

def readQuota : Handler S Unit := do
  let s ← current
  let _ ← attempt s.store none none fun m => ((m.quotaStatus).2, .ok (m.quotaStatus).1)
  pure ()

def handleGetQuota (root : String) : Handler S Completion := do
  let _ ← requireAuthenticated
  stopIf (!root.isEmpty && !eqIgnoreAsciiCase root inbox)
    (.no (some "NONEXISTENT") "unknown quota root")
  readQuota
  pure (.ok "GETQUOTA completed")

def folderExists (m : MailStore) (name : String) : Except MailError Bool :=
  (normalizeFolderName name).map fun normalized => (m.find normalized).isSome

def handleGetQuotaRoot (mailbox : String) : Handler S Completion := do
  let _ ← requireAuthenticated
  let s ← current
  let result ← attempt s.store (some mailbox) none fun m => (m, folderExists m mailbox)
  let found ← demand result
  stopIf (!found) (.no (some "NONEXISTENT") "mailbox does not exist")
  readQuota
  pure (.ok "GETQUOTAROOT completed")

/-- The limits that the resources of SETQUOTA give. -/
def quotaResources : List (String × Nat) → Option Nat → Option Nat →
    Except Completion (Option Nat × Option Nat)
  | [], messages, storage => .ok (messages, storage)
  | (resource, value) :: rest, messages, storage =>
    if eqIgnoreAsciiCase resource "MESSAGE" then
      if value > u32Max then .error (failure (.invalid "message quota out of range"))
      else quotaResources rest (if value > 0 then some value else none) storage
    else if eqIgnoreAsciiCase resource "STORAGE" then
      if value * 1024 > u64Max then .error (failure (.invalid "storage quota out of range"))
      else quotaResources rest messages (if value > 0 then some (value * 1024) else none)
    else .error (.bad ("unsupported quota resource: " ++ toAsciiUppercase resource))

def handleSetQuota (root : String) (resources : List (String × Nat)) : Handler S Completion := do
  let _ ← requireAuthenticated
  stopIf (!ctx.allowSetquota) (.no (some "NOPERM") "SETQUOTA is disabled")
  stopIf (!eqIgnoreAsciiCase root inbox) (.no (some "NONEXISTENT") "unknown quota root")
  stopIf resources.isEmpty (.bad "SETQUOTA requires resource/value pairs")
  match quotaResources resources none none with
  | .error completion => throw completion
  | .ok (messages, storage) => do
    let s ← current
    let _ ← attempt s.store none none fun m => (m.setQuota messages storage, .ok ())
    pure (.ok "SETQUOTA completed")

def handleStatus (mailbox : String) : Handler S Completion := do
  let _ ← requireAuthenticated
  let m ← resolved ctx mailbox "l"
  let result ← attempt m.store (some m.folder) (some "l") fun store =>
    store.openFolder m.folder false ch.fresh
  let _ ← demand result
  pure (.ok "STATUS completed")

def maxAppend : Nat := 1000

def handleAppend (mailbox : String) (messages : List NewMessage) : Handler S Completion := do
  let _ ← requireAuthenticated
  let s ← current
  stopIf (s.view.any fun view => eqIgnoreAsciiCase view.folder mailbox && !view.writable)
    (.no (some "READ-ONLY") "mailbox is read-only")
  stopIf (messages.length > maxAppend) (.bad "APPEND accepts at most 1000 messages")
  stopIf messages.isEmpty (.bad "APPEND requires a literal message")
  let m ← resolved ctx mailbox "i"
  let result ← attempt m.store (some m.folder) (some "i") fun store =>
    store.appendMany m.folder (messages.zipIdx.map fun (message, i) => (ch.drawn i, message))
      ch.fresh
  match result with
  | .error (.notFound _) => throw (.no (some "TRYCREATE") "target mailbox does not exist")
  | .error error => throw (failure error)
  | .ok (uidvalidity, uids) => do
    refreshIfSelected ch m.folder
    pure (.ok ("[APPENDUID " ++ toString uidvalidity ++ " " ++ SequenceSet.fromValues uids ++
      "] APPEND completed"))

def readAclOf (m : ResolvedMailbox S) (rights : String) :
    Handler S (List (String × String)) := do
  let result ← attempt m.store (some m.folder) (some rights) fun store =>
    (store, readAcl store m.folder)
  demand result

def handleGetAcl (mailbox : String) : Handler S Completion := do
  let _ ← requireAuthenticated
  let m ← resolved ctx mailbox "l"
  let _ ← readAclOf m "l"
  pure (.ok "GETACL completed")

/-- SETACL and DELETEACL: the entry of the identifier is changed, unless it is the owner's. -/
def changeAcl (mailbox identifier : String) (rights : Option String) (refusal : String) :
    Handler S Unit := do
  let m ← resolved ctx mailbox "a"
  let s ← current
  let id := toAsciiLowercase identifier
  stopIf (id = m.owner.getD (s.user.getD "")) (.no (some "ACL") refusal)
  let result ← attempt m.store (some m.folder) (some "a") fun store =>
    match readAcl store m.folder with
    | .error error => (store, .error error)
    | .ok acl => writeAcl store m.folder
        (acl.filter (·.1 ≠ id) ++ (rights.map fun letters => (id, letters)).toList)
  demand result

def handleSetAcl (mailbox identifier rightsRaw : String) : Handler S Completion := do
  let _ ← requireAuthenticated
  stopIf (!validIdentifier identifier) (.bad "invalid ACL identifier")
  let rights ← demand (normalizeRights rightsRaw)
  changeAcl ctx mailbox identifier (if rights.isEmpty then none else some rights)
    "cannot change the owner's rights"
  pure (.ok "SETACL completed")

def handleDeleteAcl (mailbox identifier : String) : Handler S Completion := do
  let _ ← requireAuthenticated
  stopIf (!validIdentifier identifier) (.bad "invalid ACL identifier")
  changeAcl ctx mailbox identifier none "cannot remove the owner"
  pure (.ok "DELETEACL completed")

def handleListRights (mailbox identifier : String) : Handler S Completion := do
  let _ ← requireAuthenticated
  stopIf (!validIdentifier identifier) (.bad "invalid ACL identifier")
  let m ← resolved ctx mailbox "l"
  let _ ← readAclOf m "l"
  pure (.ok "LISTRIGHTS completed")

def handleMyRights (mailbox : String) : Handler S Completion := do
  let _ ← requireAuthenticated
  let m ← resolved ctx mailbox "l"
  let _ ← readAclOf m "l"
  pure (.ok "MYRIGHTS completed")

/-- The folder that metadata are about; no folder stands for the server. -/
def metadataScope (mailbox : Option String) : Handler S (Option String) :=
  match mailbox with
  | none => do
    let s ← current
    match s.view with
    | some view => pure (some view.folder)
    | none =>
      throw (failure (.protocol "METADATA requires a mailbox name or a selected mailbox"))
  | some name => do
    demand (denyShared name)
    pure (if name.isEmpty then none else some name)

/-- The metadata of the current store. -/
def touchMetadata (scope : Option String) : Handler S Unit := do
  let s ← current
  let result ← attempt s.store scope none fun m =>
    (m, match scope with
      | none => .ok ()
      | some name => (m.openDir name).map fun _ => ())
  demand result

def handleMetadata (mailbox : Option String) (completed : String) : Handler S Completion := do
  let _ ← requireAuthenticated
  let scope ← metadataScope mailbox
  touchMetadata scope
  pure (.ok completed)

end MailStack.Imap
