import MailStack.Maildir.Store

/-! The commands of an IMAP session with their arguments, and the completion that answers one. -/

namespace MailStack.Imap

open Lib Maildir

inductive Section
  | full
  | header
  | text
  | headerFields (names : List String) (not : Bool)
  | part (path : List Nat)
  | mime (path : List Nat)
  | headerPart (path : List Nat)
  | textPart (path : List Nat)
deriving DecidableEq

structure BodySpec where
  section_ : Section
  peek : Bool
  window : Option (Nat × Nat)
deriving DecidableEq

inductive FetchItem
  | flags
  | internalDate
  | size
  | uid
  | modSeq
  | envelope
  | bodyStructure
  | body (spec : BodySpec)
  | rfc822
  | rfc822Header
  | rfc822Text
  | binary (spec : BodySpec)
  | binarySize (path : List Nat)
deriving DecidableEq

def FetchItem.needsMessage : FetchItem → Bool
  | .flags | .internalDate | .size | .uid | .modSeq => false
  | _ => true

def needsMessage (items : List FetchItem) : Bool := items.any FetchItem.needsMessage

/-- The item makes `render` mark the message as seen. -/
def FetchItem.marksSeen : FetchItem → Bool
  | .body spec | .binary spec => !spec.peek
  | .rfc822 | .rfc822Text => true
  | _ => false

def marksSeen (items : List FetchItem) : Bool := items.any FetchItem.marksSeen

/-- A parsed search key, by what it answers for a message and its number: `matchesMeta` from the
metadata alone, `matchesContent` with the content. -/
structure SearchKey where
  needsMessage : Bool
  containsModseq : Bool
  matchesMeta : Nat → MessageMeta → Option Bool
  matchesContent : Nat → MessageMeta → Bool

inductive AuthOutcome
  | success (user : String)
  | invalidCredentials
  | temporaryFailure (reason : String)
deriving DecidableEq

/-- What came in during a SCRAM exchange: the first message decoded (with the user it names, if it
parses), whether the final message verifies, and the line that ends the exchange. -/
structure ScramExchange where
  first : Except MailError (Option String)
  verified : Bool
  acknowledgement : Option String

/-- The mechanism of AUTHENTICATE with what its responses decode to. -/
inductive Exchange
  | plain (fields : Except MailError (List String))
  | login (user password : Except MailError String)
  | scram (exchange : ScramExchange)
  | unsupported
  | interrupted

inductive StoreMode
  | replace
  | add
  | remove
deriving DecidableEq

inductive SelectParameter
  | condstore
  | qresync (request : Except String (Nat × Nat))
  | other (name : String)

/-- The commands. Sets of messages are still text; `malformed` is a line whose arguments do not
parse, with its answer. -/
inductive Command
  | capability
  | compress (method : String)
  | noop
  | logout
  | id
  | enable (names : List String)
  | unselect
  | startTls
  | login (user password : String)
  | authenticate (exchange : Exchange)
  | select (mailbox : String) (parameters : List SelectParameter) (writable : Bool)
  | create (mailbox : String)
  | delete (mailbox : String)
  | rename (source target : String)
  | subscribe (mailbox : String) (subscribe : Bool)
  | list (lsub : Bool) (reference pattern : String)
  | status (mailbox : String)
  | getQuota (root : String)
  | getQuotaRoot (mailbox : String)
  | setQuota (root : String) (resources : List (String × Nat))
  | append (mailbox : String) (messages : List NewMessage)
  | check
  | close
  | expunge (restrict : Option String)
  | search (uidMode : Bool) (key : SearchKey) (save : Bool)
  | sort (uidMode : Bool) (key : SearchKey) (needsHeaders : Bool)
  | thread (uidMode : Bool) (key : SearchKey)
  | fetch (uidMode : Bool) (set : String) (items : List FetchItem) (changedSince : Option Nat)
  | store (uidMode : Bool) (set : String) (mode : StoreMode) (flags : FlagSet)
      (unchangedSince : Option Nat)
  | copy (uidMode : Bool) (set mailbox : String)
  | move (uidMode : Bool) (set mailbox : String)
  | idle
  | namespaces
  | getMetadata (mailbox : Option String)
  | setMetadata (mailbox : Option String)
  | getAcl (mailbox : String)
  | setAcl (mailbox identifier rights : String)
  | deleteAcl (mailbox identifier : String)
  | listRights (mailbox identifier : String)
  | myRights (mailbox : String)
  | malformed (error : MailError)

/-- The tagged answer of a command, or the farewell. -/
inductive Completion
  | ok (text : String)
  | no (code : Option String) (text : String)
  | bad (text : String)
  | bye (text : String)

/-- `send_failure`. -/
def failure : MailError → Completion
  | .notFound message => .no (some "NONEXISTENT") message
  | .alreadyExists message => .no (some "ALREADYEXISTS") message
  | .invalid message => .no none message
  | .quotaExceeded message => .no (some "OVERQUOTA") message
  | .protocol message => .bad message
  | .storage _ | .io _ => .no (some "SERVERBUG") "internal server error"

end MailStack.Imap
