import Mathlib.Data.List.MinMax
import Mathlib.Data.List.Sort
import MailStack.Webmail.AccountDirectory

/-! The sessions of the webmail, the epochs that end them, and the check of a request that carries
the token of a session. -/

namespace MailStack.Webmail

open Lib Core

def sessionTtlSeconds : Int := 28800

def sessionAbsoluteMaxSeconds : Int := 7 * 24 * 3600

def maxSessions : Nat := 4096

def sessionCookieNames : List String := ["__Host-mailstack_mail", "mailstack_mail"]

def epochFileMaxBytes : Nat := 1024 * 1024

/-- The token in a Cookie header. -/
def sessionCookie (header : Option String) : Option String := do
  let raw ← header
  (raw.toList.splitOn ';').findSome? fun part => do
    let (name, value) ← splitOnce '=' (trim (String.ofList part))
    let value := trim value
    if value.isEmpty then none
    else if sessionCookieNames.contains (trim name) then some value else none

def methodRequiresCsrf (method : String) : Bool := !(["GET", "HEAD", "OPTIONS"].contains method)

def csrfMatches (expected provided : String) : Bool :=
  constantTimeEq (bytes expected) (bytes provided)

def tokenFingerprint (sha : Sha256) (token : String) : String :=
  hexEncode (sha.digest (bytes token))

structure Session where
  tokenFingerprint : String
  csrf : String
  account : Account
  epoch : Nat
  createdAt : Int
  lastSeen : Int
deriving DecidableEq

def Session.isExpired (session : Session) (now : Int) : Bool :=
  sessionTtlSeconds < now - session.lastSeen ||
    sessionAbsoluteMaxSeconds < now - session.createdAt

abbrev SessionStore := Table String Session

namespace SessionStore

/-- An order in which the sessions are gone through. -/
structure Iteration where
  entries : SessionStore → List (Sigma fun _ : String => Session)
  perm : ∀ sessions, (entries sessions).Perm sessions.entries

def evictOldest (iteration : Iteration) (sessions : SessionStore) : SessionStore :=
  match @List.argmin _ Int Int.instLinearOrder.toPreorder _ (fun e => e.2.createdAt)
      (iteration.entries sessions) with
  | some oldest => sessions.remove oldest.1
  | none => sessions

/-- A session for the account, under a new token. -/
def create (sha : Sha256) (iteration : Iteration) (account : Account) (epoch : Nat) (now : Int)
    (token csrf : String) (sessions : SessionStore) : SessionStore :=
  let session : Session :=
    { tokenFingerprint := tokenFingerprint sha token
      csrf, account, epoch, createdAt := now, lastSeen := now }
  let kept := sessions.retain fun _ session => !session.isExpired now
  let room := if kept.size ≥ maxSessions then evictOldest iteration kept else kept
  room.put (tokenFingerprint sha token) session

/-- The session of the token, which is seen at that time, and the sessions then. -/
def get (sha : Sha256) (token : String) (now : Int) (sessions : SessionStore) :
    Option Session × SessionStore :=
  let key := tokenFingerprint sha token
  match Table.get sessions key with
  | none => (none, sessions)
  | some session =>
    if session.isExpired now then (none, Table.remove key sessions)
    else
      let seen := if now > session.lastSeen then { session with lastSeen := now } else session
      (some seen, Table.put key seen sessions)

end SessionStore

def SessionStore.ForAccounts (P : Account → Prop) (sessions : SessionStore) : Prop :=
  ∀ key session, Table.get sessions key = some session → P session.account

namespace SessionStore.ForAccounts

variable {P : Account → Prop} {sessions : SessionStore} {sha : Sha256} {token : String} {now : Int}

section

variable (h : sessions.ForAccounts P)

include h

theorem put {key : String} {session : Session} (good : P session.account) :
    ForAccounts P (Table.put key session sessions) := by
  intro other found stored
  by_cases same : other = key
  · rw [same, Table.get_put] at stored
    cases stored
    exact good
  · rw [Table.get_put_ne same] at stored
    exact h other found stored

theorem remove (key : String) :
    ForAccounts P (Table.remove key sessions) := by
  intro other found stored
  by_cases same : other = key
  · rw [same, Table.get_remove] at stored
    cases stored
  · rw [Table.get_remove_ne same] at stored
    exact h other found stored

theorem retain (p : String → Session → Bool) :
    ForAccounts P (Table.retain p sessions) := by
  intro key session stored
  rw [Table.get_retain] at stored
  exact h key session (Option.filter_eq_some_iff.mp stored).1

theorem create {account : Account} (iteration : Iteration) (epoch : Nat) (csrf : String)
    (good : P account) :
    ForAccounts P (sessions.create sha iteration account epoch now token csrf) := by
  unfold SessionStore.create
  refine put ?_ good
  split
  · unfold evictOldest
    split
    · exact (h.retain _).remove _
    · exact h.retain _
  · exact h.retain _

theorem get :
    (∀ session, (sessions.get sha token now).1 = some session → P session.account) ∧
      ForAccounts P (sessions.get sha token now).2 := by
  unfold SessionStore.get
  dsimp only
  split
  · exact ⟨nofun, h⟩
  · rename_i session stored
    have good := h _ session stored
    split
    · exact ⟨nofun, h.remove _⟩
    · have seen : P (if now > session.lastSeen then { session with lastSeen := now }
          else session).account := by
        split <;> exact good
      refine ⟨fun other same => ?_, h.put seen⟩
      cases same
      exact seen

end

end SessionStore.ForAccounts

structure Metadata where
  modified : Option Nat
  length : Nat

structure EpochCache where
  fingerprint : Option (Nat × Nat)
  epochs : Table String Nat

def enterEpoch (epochs : Table String Nat) (e : Sigma fun _ : String => Int) : Table String Nat :=
  if 0 ≤ e.2 then epochs.put (toAsciiLowercase (trim e.1)) e.2.toNat else epochs

def parseEpochs (table : Table String Int) : Table String Nat :=
  (table.entries.insertionSort fun a b => a.1 ≤ b.1).foldl enterEpoch ∅

/-- What there is to read in the epoch file. A file that is not a table of times is taken for one
that has no epochs at all. -/
def epochFile : File (Table String Int) → File (Table String Nat)
  | .missing => .missing
  | .unreadable error => .unreadable error
  | .malformed error => .malformed error
  | .holds table => .holds (parseEpochs table)

/-- The epoch of an address. -/
def EpochStore.current (file : File (Table String Nat)) (metadata : Metadata) (email : String)
    (cache : EpochCache) : Nat × EpochCache :=
  let key := toAsciiLowercase (trim email)
  let cached := ((cache.epochs.get key).getD 0, cache)
  match file with
  | .missing => (0, { fingerprint := none, epochs := ∅ })
  | .unreadable _ | .malformed _ => cached
  | .holds epochs =>
    if epochFileMaxBytes < metadata.length then cached
    else if metadata.modified.any fun time => cache.fingerprint = some (time, metadata.length) then
      cached
    else
      ((epochs.get key).getD 0,
        { fingerprint := metadata.modified.map fun time => (time, metadata.length), epochs })

/-- The parts of a request that the check reads, and the failure of the task that looks the epoch
up. -/
structure Request where
  cookie : Option String
  method : String
  csrfToken : Option String
  failure : Option String

inductive Response
  | accepted (session : Session)
  | unauthorized
  | csrfRejected
  | internal (error : String)
deriving DecidableEq

/-- The check of a request up to its session, and the sessions then. -/
def AuthSession.find (sha : Sha256) (now : Int) (request : Request) (sessions : SessionStore) :
    Option Session × SessionStore :=
  match sessionCookie request.cookie with
  | none => (none, sessions)
  | some token => sessions.get sha token now

/-- The check of a request from its session on. -/
def AuthSession.check (file : File (Table String Nat)) (metadata : Metadata) (request : Request)
    (session : Session) (sessions : SessionStore) (cache : EpochCache) :
    Response × SessionStore × EpochCache :=
  match request.failure with
  | some error => (.internal error, sessions, cache)
  | none =>
    let (current, cache) := EpochStore.current file metadata session.account.email cache
    if session.epoch < current then
      (.unauthorized, sessions.remove session.tokenFingerprint, cache)
    else if methodRequiresCsrf request.method &&
        !csrfMatches session.csrf (request.csrfToken.getD "") then
      (.csrfRejected, sessions, cache)
    else (.accepted session, sessions, cache)

def NoAddress {α : Type} (table : Table String α) : Prop :=
  ∀ name, table.get name ≠ none → contains (toAsciiLowercase (trim name)) '@' = false

variable {α : Type} {epochs : Table String Nat} {table : Table String α}

theorem noAddress_empty : NoAddress (∅ : Table String α) := fun _ found =>
  absurd Table.get_empty found

theorem NoAddress.put {name : String} (h : NoAddress table) (a : α)
    (plain : contains (toAsciiLowercase (trim name)) '@' = false) :
      NoAddress (table.put name a) := by
  intro other found
  by_cases same : other = name
  · rw [same]
    exact plain
  · exact h other (by rwa [Table.get_put_ne same] at found)

theorem NoAddress.enterEpoch (h : NoAddress epochs)
    {e : Sigma fun _ : String => Int} (plain : contains (toAsciiLowercase (trim e.1)) '@' = false) :
    NoAddress (enterEpoch epochs e) := by
  unfold Webmail.enterEpoch
  split
  · refine h.put _ ?_
    rwa [trim_toAsciiLowercase, trim_trim, toAsciiLowercase_toAsciiLowercase]
  · exact h

theorem NoAddress.foldl_enterEpoch (h : NoAddress epochs)
    {es : List (Sigma fun _ : String => Int)}
    (plain : ∀ e ∈ es, contains (toAsciiLowercase (trim e.1)) '@' = false) :
    NoAddress (es.foldl Webmail.enterEpoch epochs) := by
  induction es generalizing epochs with
  | nil => exact h
  | cons e es ih =>
    exact ih (h.enterEpoch (plain e List.mem_cons_self)) fun e mem =>
      plain e (List.mem_cons_of_mem _ mem)

theorem noAddress_parseEpochs {table : Table String Int} (h : NoAddress table) :
    NoAddress (parseEpochs table) := by
  refine noAddress_empty.foldl_enterEpoch fun e mem => ?_
  have found := Table.get_eq_some_iff.mpr ((List.mem_insertionSort _).mp mem)
  exact h e.1 (by rw [found]; exact Option.some_ne_none _)

theorem NoAddress.get (h : NoAddress table) {email : String}
    (address : contains (toAsciiLowercase (trim email)) '@' = true) :
    table.get (toAsciiLowercase (trim email)) = none := by
  by_contra found
  have plain := h _ found
  rw [trim_toAsciiLowercase, trim_trim, toAsciiLowercase_toAsciiLowercase, address] at plain
  cases plain

/-- The epoch of an address stays at its start where no name in the file is an address. -/
theorem EpochStore.current_eq_zero {file : File (Table String Nat)} {metadata : Metadata}
    {email : String} {cache : EpochCache}
    (plain : ∀ epochs, file = .holds epochs → NoAddress epochs)
    (known : NoAddress cache.epochs)
    (address : contains (toAsciiLowercase (trim email)) '@' = true) :
    (EpochStore.current file metadata email cache).1 = 0 ∧
      NoAddress (EpochStore.current file metadata email cache).2.epochs := by
  have cached : (cache.epochs.get (toAsciiLowercase (trim email))).getD 0 = 0 := by
    rw [known.get address]
    rfl
  cases file with
  | missing => exact ⟨rfl, noAddress_empty⟩
  | unreadable e => exact ⟨cached, known⟩
  | malformed e => exact ⟨cached, known⟩
  | holds epochs =>
    have good := plain epochs rfl
    simp only [EpochStore.current]
    split
    · exact ⟨cached, known⟩
    · split
      · exact ⟨cached, known⟩
      · refine ⟨?_, good⟩
        rw [good.get address]
        rfl

theorem SessionStore.ForAccounts.find {P : Account → Prop} {sessions : SessionStore} {sha : Sha256}
    {now : Int} (h : sessions.ForAccounts P) (request : Request) :
    (∀ session, (AuthSession.find sha now request sessions).1 = some session → P session.account) ∧
      SessionStore.ForAccounts P (AuthSession.find sha now request sessions).2 := by
  unfold AuthSession.find
  split
  · exact ⟨nofun, h⟩
  · exact h.get

/-- A request with a session is not turned away as unauthorised where no name in the file is an
address. -/
theorem AuthSession.check_ne_unauthorized {P : Account → Prop} {file : File (Table String Nat)}
    {metadata : Metadata} {request : Request} {session : Session} {sessions : SessionStore}
    {cache : EpochCache} (plain : ∀ epochs, file = .holds epochs → NoAddress epochs)
    (known : NoAddress cache.epochs)
    (address : contains (toAsciiLowercase (trim session.account.email)) '@' = true)
    (h : sessions.ForAccounts P) :
    (AuthSession.check file metadata request session sessions cache).1 ≠ .unauthorized ∧
      SessionStore.ForAccounts P
        (AuthSession.check file metadata request session sessions cache).2.1 ∧
      NoAddress (AuthSession.check file metadata request session sessions cache).2.2.epochs := by
  have start := @EpochStore.current_eq_zero file metadata _ cache plain known address
  unfold AuthSession.check
  cases request.failure with
  | some error => exact ⟨nofun, h, known⟩
  | none =>
    simp only [start.1, Nat.not_lt_zero, if_false]
    split
    · exact ⟨nofun, h, start.2⟩
    · exact ⟨nofun, h, start.2⟩

end MailStack.Webmail
