import MailStack.Priv.DisabledMailbox
import MailStack.Webmail.Session

/-! The sessions of the webmail while passwords and accounts change: logins and requests whose parts
mix with each other and with the calls, on one clock. -/

namespace MailStack.Webmail

open Lib Core Priv

/-- A request whose session was found: what it asks, its token, whether that token was revoked when
the request came in, and the session. -/
structure Pending where
  request : Request
  token : String
  revoked : Bool
  session : Session

/-- A request that was answered, with whether its token was revoked and had a live session when it
came in. -/
structure Answer where
  token : String
  revoked : Bool
  live : Bool
  response : Response

structure World where
  host : Host
  clock : Int
  metadata : Metadata
  epochs : EpochCache
  sessions : SessionStore
  /-- Logins whose password was right. -/
  entered : List Account
  /-- Logins that know the epoch of their address. -/
  known : List (Account × Nat)
  /-- Requests that know their session. -/
  pending : List Pending
  /-- The tokens that were given out, and for which account. -/
  issued : List (String × Account)
  /-- The tokens that were given out before a call for the user of their address. -/
  revoked : List String
  answers : List Answer

def World.start (host : Host) (clock : Int) (metadata : Metadata) : World where
  host := host
  clock := clock
  metadata := metadata
  epochs := { fingerprint := none, epochs := ∅ }
  sessions := ∅
  entered := []
  known := []
  pending := []
  issued := []
  revoked := []
  answers := []

/-- A second and more pass; a call is served, after which the epoch file has the metadata; a login
goes through its three parts, and a request through its two. -/
inductive Event
  | tick (seconds : Nat)
  | call (call : Priv.Call) (metadata : Metadata)
  | enter (login password : String)
  | readEpoch (account : Account)
  | create (account : Account) (epoch : Nat) (token csrf : String)
  | find (request : Request)
  | check (index : Nat) (logout : Bool)

structure Deployment where
  users : Users
  maildirName : String
  fs : Imap.FileSystem
  iteration : SessionStore.Iteration

def isUserOf (users : Users) (host : Host) (user email : String) : Bool :=
  (readMailboxes users host).any fun item =>
    MailboxPasswords.key (mailboxStr item "email") = email && mailboxStr item "unixUser" = user

/-- Whether a call is one after which the sessions of the user are to end. -/
def revokes (users : Users) (host : Host) (call : Priv.Call) : Bool :=
  (call.operation = .password || call.operation = .status) && call.succeeds users host

section Step

variable (m : Deployment) (w : World)

def serve (call : Priv.Call) (metadata : Metadata) : World :=
  let revoked := w.issued.filter fun issue =>
    revokes m.users w.host call && isUserOf m.users w.host (userIdent call.data) issue.2.email
  { w with
    host := finalState (call.handler m.users) w.host
    metadata := metadata
    revoked := w.revoked ++ revoked.map (·.1) }

def enter (login password : String) : Option World :=
  ((accountsOf m.users m.maildirName m.fs w.host).authenticate m.users.sha login
    password).toOption.join.map fun account => { w with entered := account :: w.entered }

def readEpoch (account : Account) : Option World :=
  if account ∈ w.entered then
    let (epoch, epochs) :=
      EpochStore.current (epochFile w.host.sessionEpochs) w.metadata account.email w.epochs
    some { w with epochs := epochs, known := (account, epoch) :: w.known }
  else none

def create (account : Account) (epoch : Nat) (token csrf : String) : Option World :=
  if (account, epoch) ∈ w.known ∧ ∀ issue ∈ w.issued, issue.1 ≠ token then
    some
      { w with
        sessions :=
          w.sessions.create m.users.sha m.iteration account epoch w.clock token csrf
        issued := (token, account) :: w.issued }
  else none

/-- A request comes in; without a live session it is turned away at once. -/
def find (request : Request) : Option World := do
  let token ← sessionCookie request.cookie
  let revoked := decide (token ∈ w.revoked)
  match AuthSession.find m.users.sha w.clock request w.sessions with
  | (some session, sessions) =>
    some { w with sessions := sessions, pending := w.pending ++ [{ request, token, revoked, session }] }
  | (none, sessions) =>
    some
      { w with
        sessions := sessions
        answers := w.answers ++ [{ token, revoked, live := false, response := .unauthorized }] }

/-- The session of a logout ends when its request is let in. -/
def afterResponse (logout : Bool) (response : Response) (sessions : SessionStore) : SessionStore :=
  match response with
  | .accepted session => if logout then sessions.remove session.tokenFingerprint else sessions
  | _ => sessions

/-- A request is let in, or turned away after all. -/
def check (index : Nat) (logout : Bool) : Option World := do
  let p ← w.pending[index]?
  let (response, sessions, epochs) :=
    AuthSession.check (epochFile w.host.sessionEpochs) w.metadata p.request p.session w.sessions w.epochs
  some
    { w with
      sessions := afterResponse logout response sessions
      epochs := epochs
      pending := w.pending.eraseIdx index
      answers := w.answers ++ [{ token := p.token, revoked := p.revoked, live := true, response }] }

end Step

def step (m : Deployment) (w : World) : Event → Option World
  | .tick seconds => some { w with clock := w.clock + seconds }
  | .call call metadata => if call.outcomes.now = w.clock then some (serve m w call metadata) else none
  | .enter login password => enter m w login password
  | .readEpoch account => readEpoch w account
  | .create account epoch token csrf => create m w account epoch token csrf
  | .find request => find m w request
  | .check index logout => check w index logout

section Calls

variable {users : Users} {o : Outcomes} {host t : Host}

/-- No managed user and no name in the epoch file is an address. -/
structure PlainUsers (users : Users) (host : Host) : Prop where
  managed : ∀ user ∈ readManagedUsers users host,
    contains (toAsciiLowercase (trim user)) '@' = false
  epochs : ∀ table, host.sessionEpochs = .holds table → NoAddress table

theorem PlainUsers.congr (h : PlainUsers users host) (managed : t.managedUsers = host.managedUsers)
    (epochs : t.sessionEpochs = host.sessionEpochs) : PlainUsers users t := by
  refine ⟨fun user mem => h.managed user ?_, fun table held => h.epochs table (epochs ▸ held)⟩
  unfold readManagedUsers tryReadManagedUsers at mem ⊢
  rwa [managed] at mem

theorem plain_of_userRe {user : String} (isUser : userRe user = true) :
    contains (toAsciiLowercase (trim user)) '@' = false := by
  have same : toAsciiLowercase (trim user) = user := key_of_userRe isUser
  rw [same, contains, Bool.eq_false_iff, ne_eq, List.contains_iff_mem]
  exact fun mem => (userRe_visible isUser mem).2.2 rfl

theorem plain_register {data : Json} {new : NewMailbox} (asked : Asked users data new) :
    Keeps (PlainUsers users) (register users o new) := by
  have entered : ∀ host names, PlainUsers users host → tryReadManagedUsers users host = .ok names →
      PlainUsers users (host.setManagedUsers (insert new.user names)) := by
    intro host names h read
    refine ⟨fun user mem => ?_, h.epochs⟩
    rcases Finset.mem_insert.mp mem with rfl | old
    · exact plain_of_userRe asked.isUser
    · refine h.managed user ?_
      rwa [readManagedUsers, read]
  intro host h
  refine wp_mono register_spec ?_ ?_
  · rintro _ t ⟨items, names, -, -, read, -, -, rfl⟩
    exact (entered host names h read).congr rfl rfl
  · rintro t (⟨rfl, -⟩ | ⟨names, read, -, -, rfl⟩)
    · exact h
    · exact entered host names h read

theorem plain_unregister (user : String) : Keeps (PlainUsers users) (unregister users o user) := by
  have left : ∀ host names, PlainUsers users host → tryReadManagedUsers users host = .ok names →
      PlainUsers users (host.setManagedUsers (names.erase user)) := by
    intro host names h read
    refine ⟨fun user mem => h.managed user ?_, h.epochs⟩
    rw [readManagedUsers, read]
    exact Finset.mem_of_mem_erase mem
  intro host h
  refine wp_mono unregister_spec ?_ ?_
  · rintro _ t ⟨names, items, read, -, rfl⟩
    exact (left host names h read).congr rfl rfl
  · rintro t (rfl | ⟨names, read, rfl⟩)
    · exact h
    · exact left host names h read

theorem plain_bump (user : String) (plain : contains (toAsciiLowercase (trim user)) '@' = false) :
    Keeps (PlainUsers users) (bumpSessionEpoch users o user) := by
  intro host h
  refine wp_mono bumpSessionEpoch_spec ?_ ?_
  · rintro _ t ⟨epochs, held, rfl⟩
    refine ⟨h.managed, fun table same => ?_⟩
    cases same
    refine NoAddress.put ?_ _ plain
    rcases held with ⟨-, rfl⟩ | held
    · exact noAddress_empty
    · exact h.epochs epochs held
  · rintro t rfl
    exact h

theorem PlainUsers.call (h : PlainUsers users host) (call : Priv.Call) :
    PlainUsers users (finalState (call.handler users) host) := by
  apply finalState_of_wp
  have passwords : ∀ host file, PlainUsers users host → PlainUsers users (host.setPasswords file) :=
    fun _ _ h => h.congr rfl rfl
  have bump : ∀ host user, PlainUsers users host → user ∈ readManagedUsers users host →
      Keeps (PlainUsers users) (bumpSessionEpoch users call.outcomes user) :=
    fun host user h mem => plain_bump user (h.managed user mem)
  unfold Priv.Call.handler
  cases call.operation with
  | add =>
    exact add_keeps (keeps_create fun _ _ h => h.congr rfl rfl) (keeps_save passwords)
      (fun _ asked => plain_register asked) (keeps_remove fun _ _ h => h.congr rfl rfl)
      (keeps_drop passwords) host h
  | delete =>
    exact delete_keeps (keeps_remove fun _ _ h => h.congr rfl rfl) plain_unregister
      (keeps_drop passwords) host h
  | status => exact status_keeps (fun _ _ h => h.congr rfl rfl) bump host h
  | password =>
    exact password_keeps (Q := fun _ => True) (fun _ _ _ _ _ => trivial) (keeps_save passwords)
      (fun identity previous _ => keeps_restore passwords identity previous) bump host h

end Calls

section Steps

variable {m : Deployment} {w t : World} {login password : String}

def IsAddress (account : Account) : Prop :=
  contains (toAsciiLowercase (trim account.email)) '@' = true

/-- The epochs have no addresses and the sessions have nothing else, and whoever had a live session
was not turned away as unauthorised. -/
structure Blind (m : Deployment) (w : World) : Prop where
  users : PlainUsers m.users w.host
  cache : NoAddress w.epochs.epochs
  sessions : w.sessions.ForAccounts IsAddress
  entered : ∀ account ∈ w.entered, IsAddress account
  known : ∀ k ∈ w.known, IsAddress k.1
  pending : ∀ p ∈ w.pending, IsAddress p.session.account
  answers : ∀ a ∈ w.answers, a.response = .unauthorized ↔ a.live = false

theorem Blind.file (h : Blind m w) (epochs : Table String Nat)
    (held : epochFile w.host.sessionEpochs = .holds epochs) : NoAddress epochs := by
  unfold epochFile at held
  cases file : w.host.sessionEpochs with
  | holds table =>
    rw [file] at held
    cases held
    exact noAddress_parseEpochs (h.users.epochs table file)
  | _ => rw [file] at held; cases held

theorem Blind.serve (h : Blind m w) (call : Priv.Call) (metadata : Metadata) :
    Blind m (serve m w call metadata) :=
  { h with users := h.users.call call }

theorem Blind.enter (h : Blind m w)
    (stepped : enter m w login password = some t) : Blind m t := by
  rw [Webmail.enter] at stepped
  cases result : (accountsOf m.users m.maildirName m.fs w.host).authenticate m.users.sha login
      password with
  | error e => rw [result] at stepped; cases stepped
  | ok entered =>
    rw [result] at stepped
    cases entered with
    | none => cases stepped
    | some account =>
      cases stepped
      have email :=
        AccountDirectory.email_of_resolve (AccountDirectory.resolve_of_authenticate result)
      have address : IsAddress account := by
        rw [IsAddress, email.1]
        exact email.2
      refine { h with entered := fun other mem => ?_ }
      rcases List.mem_cons.mp mem with rfl | old
      · exact address
      · exact h.entered other old

variable {account : Account}

theorem enter_of_authenticate
    (entered : (accountsOf m.users m.maildirName m.fs w.host).authenticate m.users.sha login password =
      .ok (some account)) :
    step m w (.enter login password) = some { w with entered := account :: w.entered } := by
  rw [Webmail.step, Webmail.enter, entered]
  rfl

theorem Blind.readEpoch (h : Blind m w) (stepped : readEpoch w account = some t) : Blind m t := by
  unfold Webmail.readEpoch at stepped
  split at stepped
  · rename_i mem
    cases stepped
    have address := h.entered account mem
    have start := @EpochStore.current_eq_zero _ w.metadata _ _ h.file h.cache address
    refine { h with cache := start.2, known := fun k mem => ?_ }
    rcases List.mem_cons.mp mem with rfl | old
    · exact address
    · exact h.known k old
  · cases stepped

theorem Blind.create {epoch : Nat} {token csrf : String} (h : Blind m w)
    (stepped : create m w account epoch token csrf = some t) : Blind m t := by
  unfold Webmail.create at stepped
  split at stepped
  · rename_i known
    cases stepped
    have address : IsAddress account := h.known (account, epoch) known.1
    exact { h with sessions := h.sessions.create m.iteration epoch csrf address }
  · cases stepped

theorem Blind.find {request : Request} (h : Blind m w) (stepped : find m w request = some t) :
    Blind m t := by
  rw [Webmail.find, Option.bind_eq_bind] at stepped
  obtain ⟨token, -, stepped⟩ := Option.bind_eq_some_iff.mp stepped
  have found := @SessionStore.ForAccounts.find _ _ m.users.sha w.clock h.sessions request
  generalize AuthSession.find m.users.sha w.clock request w.sessions = result at stepped found
  obtain ⟨session, sessions⟩ := result
  cases session with
  | some session =>
    cases stepped
    refine { h with sessions := found.2, pending := fun p mem => ?_ }
    rcases List.mem_append.mp mem with old | new
    · exact h.pending p old
    · rw [List.mem_singleton.mp new]
      exact found.1 session rfl
  | none =>
    cases stepped
    refine { h with sessions := found.2, answers := fun a mem => ?_ }
    rcases List.mem_append.mp mem with old | new
    · exact h.answers a old
    · rw [List.mem_singleton.mp new]
      exact iff_of_true rfl rfl

theorem Blind.check {index : Nat} {logout : Bool} (h : Blind m w)
    (stepped : check w index logout = some t) : Blind m t := by
  rw [Webmail.check, Option.bind_eq_bind] at stepped
  obtain ⟨p, at_, stepped⟩ := Option.bind_eq_some_iff.mp stepped
  have address := h.pending p (List.mem_of_getElem? at_)
  have checked := @AuthSession.check_ne_unauthorized _ _ w.metadata p.request _ _ _
    h.file h.cache address h.sessions
  generalize AuthSession.check (epochFile w.host.sessionEpochs) w.metadata p.request p.session
    w.sessions w.epochs = result at stepped checked
  obtain ⟨response, sessions, epochs⟩ := result
  obtain ⟨allowed, stored, cache⟩ := checked
  have left : SessionStore.ForAccounts IsAddress (afterResponse logout response sessions) := by
    cases response with
    | accepted session =>
      cases logout with
      | true => exact stored.remove _
      | false => exact stored
    | _ => exact stored
  cases stepped
  refine { h with
    cache := cache
    sessions := left
    pending := fun p mem => h.pending p (List.mem_of_mem_eraseIdx mem)
    answers := fun a mem => ?_ }
  rcases List.mem_append.mp mem with old | new
  · exact h.answers a old
  · rw [List.mem_singleton.mp new]
    exact iff_of_false allowed (by simp)

theorem Blind.step {event : Event} (h : Blind m w) (stepped : step m w event = some t) :
    Blind m t := by
  cases event with
  | tick seconds =>
    rw [Webmail.step] at stepped
    cases stepped
    exact ⟨h.users, h.cache, h.sessions, h.entered, h.known, h.pending, h.answers⟩
  | call call metadata =>
    rw [Webmail.step] at stepped
    split at stepped
    · cases stepped
      exact h.serve call metadata
    · cases stepped
  | enter login password =>
    rw [Webmail.step] at stepped
    exact h.enter stepped
  | readEpoch account =>
    rw [Webmail.step] at stepped
    exact h.readEpoch stepped
  | create account epoch token csrf =>
    rw [Webmail.step] at stepped
    exact h.create stepped
  | find request =>
    rw [Webmail.step] at stepped
    exact h.find stepped
  | check index logout =>
    rw [Webmail.step] at stepped
    exact h.check stepped

end Steps

/-- A request whose token was revoked is turned away as unauthorised exactly when its session was
gone or had expired when it came in. -/
theorem revoked_unauthorized_iff (m : Deployment) (host : Host) (plain : PlainUsers m.users host)
    (clock : Int) (metadata : Metadata) (events : List Event) (w : World)
    (reached : Reaches (step m) (.start host clock metadata) events w) :
    ∀ a ∈ w.answers, a.revoked = true → (a.response = .unauthorized ↔ a.live = false) := by
  have start : Blind m (.start host clock metadata) := by
    refine ⟨plain, noAddress_empty, ?_, nofun, nofun, nofun, nofun⟩
    intro key session stored
    rw [World.start, Table.get_empty] at stored
    cases stored
  have blind : Blind m w := reached.invariant start fun _ _ _ h _ stepped => h.step stepped
  exact fun a mem _ => blind.answers a mem

def aliceRecord : PasswordRecord where
  username := "alice@example.com"
  algorithm := passwordAlgorithm
  iterations := pbkdf2Iterations
  salt := hexEncode (smooth "").stamp.salt
  hash := hexEncode
    (pbkdf2Sha256 flatSha (bytes "Zx7Qm2Vt9Kp4") (smooth "").stamp.salt pbkdf2Iterations hashLen)
  updatedAt := ""

def mailHost : Host :=
  { withoutRecord with
    passwd := [["alice", "x", "1001", "8", "", "/home/alice", "/usr/sbin/nologin"]]
    passwords := .holds (Table.put "alice@example.com" aliceRecord ∅) }

def storedOrder : SessionStore.Iteration := ⟨fun sessions => sessions.entries, fun _ => .refl _⟩

def mailServer : Deployment := ⟨debian, "Maildir", allThere, storedOrder⟩

def alice : Account where
  email := "alice@example.com"
  account := "alice"
  displayName := "alice"
  unixUser := "alice"
  maildir := "/home/alice/Maildir"

def atStart : World := .start mailHost 1767225600 ⟨none, 0⟩

theorem plain_mailHost : PlainUsers debian mailHost := by
  refine ⟨fun user mem => ?_, nofun⟩
  rw [Finset.mem_singleton.mp mem]
  decide

theorem findRecord_alice (path : String) (record : PasswordRecord) :
    MailboxPasswords.findRecord path (.holds (Table.put "alice@example.com" record ∅))
      (MailboxPasswords.candidateKeys (normalizeLogin "alice@example.com")) =
        .ok (some record) := by
  have names : MailboxPasswords.candidateKeys (normalizeLogin "alice@example.com") =
      ["alice@example.com", "alice"] := by decide
  rw [names]
  rfl

theorem authenticate_alice : (accountsOf debian "Maildir" allThere mailHost).authenticate flatSha
    "alice@example.com" "Zx7Qm2Vt9Kp4" = .ok (some alice) := by
  have made : RecordOf flatSha "Zx7Qm2Vt9Kp4" aliceRecord :=
    ⟨(smooth "").stamp, rfl, rfl, rfl, rfl⟩
  have resolved : (accountsOf debian "Maildir" allThere mailHost).resolve
      (normalizeLogin "alice@example.com") = some alice := by decide
  have asked : ((normalizeLogin "alice@example.com").isEmpty ||
      decide (maxEmailLen < (bytes (normalizeLogin "alice@example.com")).length) ||
      "Zx7Qm2Vt9Kp4".isEmpty) = false := by decide
  rw [← resolved]
  exact AccountDirectory.authenticate_of_record asked (findRecord_alice _ aliceRecord)
    (verifyPassword_recordOf made)

def disabling : List Event :=
  [.readEpoch alice, .create alice 0 "token" "csrf", .call (disableCall "alice") ⟨some 2, 25⟩]

def withToken : Event := .find ⟨some "mailstack_mail=token", "GET", none, none⟩

theorem run_alice (events : List Event) (P : World → Bool)
    (holds : (exec (step mailServer) { atStart with entered := [alice] } events).any P = true) :
    ∃ w, Reaches (step mailServer) atStart
      (.enter "alice@example.com" "Zx7Qm2Vt9Kp4" :: events) w ∧ P w = true := by
  obtain ⟨w, reached, found⟩ := (Option.any_eq_true _ _).mp holds
  have entered : step mailServer atStart (.enter "alice@example.com" "Zx7Qm2Vt9Kp4") =
      some { atStart with entered := [alice] } := enter_of_authenticate authenticate_alice
  have first : Reaches (step mailServer) atStart _ _ := (Runs.nil atStart).snoc trivial entered
  exact ⟨w, first.trans (reaches_of_exec reached), found⟩

/-- After more than eight hours the session is over. -/
theorem expired_unauthorized : ∃ (events : List Event) (w : World),
    Reaches (step mailServer) atStart events w ∧
      ∃ a ∈ w.answers, a.revoked = true ∧ a.response = .unauthorized := by
  obtain ⟨w, reached, found⟩ := run_alice (disabling ++ [.tick 28801, withToken])
    (fun w => w.answers.any fun a => a.revoked && !a.live) (by decide +kernel)
  obtain ⟨a, mem, late⟩ := List.any_eq_true.mp found
  rw [Bool.and_eq_true, Bool.not_eq_true'] at late
  have iff := revoked_unauthorized_iff mailServer mailHost plain_mailHost _ _ _ w reached a mem
      late.1
  exact ⟨_, w, reached, a, mem, late.1, iff.mpr late.2⟩

/-- The session of a mailbox outlives the disabling of its account. -/
theorem session_outlives_call : ¬∀ (m : Deployment) (host : Host), PlainUsers m.users host →
    ∀ (clock : Int) (metadata : Metadata) (events : List Event) (w : World),
      Reaches (step m) (.start host clock metadata) events w →
      ∀ a ∈ w.answers, a.revoked = true → a.response = .unauthorized := by
  intro claim
  obtain ⟨w, reached, found⟩ := run_alice (disabling ++ [withToken, .check 0 false])
    (fun w => w.answers.any fun a => a.revoked && decide (a.response ≠ .unauthorized))
    (by decide +kernel)
  obtain ⟨a, mem, refuted⟩ := List.any_eq_true.mp found
  rw [Bool.and_eq_true, decide_eq_true_eq] at refuted
  exact refuted.2 (claim mailServer mailHost plain_mailHost _ _ _ w reached a mem refuted.1)

end MailStack.Webmail
