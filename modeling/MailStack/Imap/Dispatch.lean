import MailStack.Imap.Messages
import MailStack.Lib.Machine

/-! The dispatch of the IMAP commands and the runs of a session. -/

namespace MailStack.Imap

open Lib Maildir Handler

variable {S : Type} [DecidableEq S] (ctx : Context S) (ch : Choices)

def dispatch : Command → Handler S Completion
  | .capability => pure (.ok "CAPABILITY completed")
  | .compress method => handleCompress method
  | .noop => handleNoop ch
  | .logout => do
    change fun s => { s with closed := true }
    pure (.ok "LOGOUT completed")
  | .id => pure (.ok "ID completed")
  | .enable names => handleEnable names
  | .unselect => handleUnselect
  | .startTls => handleStartTls
  | .login user password => handleLogin ctx ch user password
  | .authenticate exchange => handleAuthenticate ctx ch exchange
  | .select mailbox parameters writable => handleSelect ctx ch mailbox parameters writable
  | .create mailbox => handleCreate mailbox
  | .delete mailbox => handleDelete mailbox
  | .rename source target => handleRename ch source target
  | .subscribe mailbox subscribe => handleSubscribe mailbox subscribe
  | .list lsub reference pattern => handleList ctx lsub reference pattern
  | .status mailbox => handleStatus ctx ch mailbox
  | .getQuota root => handleGetQuota root
  | .getQuotaRoot mailbox => handleGetQuotaRoot mailbox
  | .setQuota root resources => handleSetQuota ctx root resources
  | .append mailbox messages => handleAppend ctx ch mailbox messages
  | .check => do
    let _ ← requireSelected "command requires a selected mailbox"
    pure (.ok "CHECK completed")
  | .close => handleClose
  | .expunge restrict => handleExpungeText restrict
  | .search _ key save => handleSearch ctx key save
  | .sort _ key needsHeaders => handleSort ctx key needsHeaders
  | .thread _ key => handleThread ctx key
  | .fetch uidMode set items changedSince => handleFetch ctx uidMode set items changedSince
  | .store uidMode set mode flags unchangedSince =>
    handleStore uidMode set mode flags unchangedSince
  | .copy uidMode set mailbox => handleCopy ctx ch uidMode set mailbox
  | .move uidMode set mailbox => handleMove ctx ch uidMode set mailbox
  | .idle => do
    let _ ← requireSelected "command requires a selected mailbox"
    change fun s => { s with idling := true }
    pure (.ok "idling")
  | .namespaces => do
    let _ ← requireAuthenticated
    pure (.ok "NAMESPACE completed")
  | .getMetadata mailbox => handleMetadata mailbox "GETMETADATA completed"
  | .setMetadata mailbox => handleMetadata mailbox "SETMETADATA completed"
  | .getAcl mailbox => handleGetAcl ctx mailbox
  | .setAcl mailbox identifier rights => handleSetAcl ctx mailbox identifier rights
  | .deleteAcl mailbox identifier => handleDeleteAcl ctx mailbox identifier
  | .listRights mailbox identifier => handleListRights ctx mailbox identifier
  | .myRights mailbox => handleMyRights ctx mailbox
  | .malformed error => throw (failure error)

/-- What happens to a session: a command, a poll or a line while it is in IDLE, its end, and what
others do to the stores. -/
inductive Event (S : Type)
  | command (command : Command) (choices : Choices)
  | poll (choices : Choices)
  | line (text : String)
  | hangUp
  | outside (change : Realm S → Realm S)

/-- An access on record: by which user it was made, and what the stores were before the command. -/
structure Entry (S : Type) where
  user : Option String
  realm : Realm S
  access : Access S

/-- A session, the stores and the accesses so far. -/
structure World (S : Type) where
  session : Session S
  realm : Realm S
  log : List (Entry S)

def World.start (ctx : Context S) (secured starttlsAvailable : Bool) (realm : Realm S) : World S :=
  { session := .start ctx secured starttlsAvailable, realm, log := [] }

/-- A handler runs to its end, and its accesses go on record. -/
def World.run {α : Type} (w : World S) (h : Handler S α) : World S :=
  let c := finalState h { session := w.session, realm := w.realm, accesses := [] }
  { session := c.session
    realm := c.realm
    log := w.log ++ c.accesses.map fun access =>
      { user := w.session.user, realm := w.realm, access } }

/-- A refresh that fails ends IDLE. -/
def pollIdle : Handler S Unit := fun c =>
  match refreshSelected ch c with
  | .ok a t => .ok a t
  | .error completion t => .error completion { t with session := { t.session with idling := false } }

/-- The line that ends IDLE, whether it is the right one or not. -/
def endIdle : Handler S Completion := do
  change fun s => { s with idling := false }
  pure (.ok "IDLE terminated")

def step (w : World S) : Event S → Option (World S)
  | .command command ch =>
    if w.session.closed || w.session.idling then none else some (w.run (dispatch ctx ch command))
  | .poll ch =>
    if w.session.closed || !w.session.idling then none else some (w.run (pollIdle ch))
  | .line _ =>
    if w.session.closed || !w.session.idling then none else some (w.run endIdle)
  | .hangUp =>
    if w.session.closed then none
    else some { w with session := { w.session with closed := true } }
  | .outside change => some { w with realm := change w.realm }

end MailStack.Imap
