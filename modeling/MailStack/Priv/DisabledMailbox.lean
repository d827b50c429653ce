import MailStack.Imap.Scram
import MailStack.Priv.OneMailbox
import MailStack.Smtpd.Sasl

/-! Logins of mailboxes that are disabled. -/

namespace MailStack.Priv

open Lib Core MailboxPasswords

/-- An attempt to log in, on each of the paths that passwords are asked for. A failure is what keeps
the password from being checked. A client of SCRAM has its password or the key that `dummy_for`
makes of zeros for every name. -/
inductive Attempt
  | directory (user password : String) (failure : Option String)
  | scram (random : List UInt8) (client : Imap.Scram.Client) (zeros : Bool)
  | submission (request : Smtpd.AuthRequest) (failure : Option String)
  | webmail (login password : String)

/-- What the paths find outside of the host's tables. -/
structure Services where
  decodeBase64 : List UInt8 → Option (List UInt8)
  fs : Imap.FileSystem
  maildirName : String

section

variable (users : Users) (services : Services) (host : Host)

/-- The name that an attempt is for. -/
def Attempt.login : Attempt → Option String
  | .directory user _ _ => some user
  | .scram _ client _ => some client.user
  | .submission request _ =>
    (Smtpd.decodePlain services.decodeBase64 request.response).map fun decoded => decoded.1
  | .webmail login _ => some login

def mailboxDirectory : Imap.MailboxDirectory := ⟨users.paths.mailboxPasswords, host.passwords⟩

def Attempt.succeeds : Attempt → Bool
  | .directory user password failure =>
    (Imap.PasswordDirectory.authenticate users.sha (mailboxDirectory users host) failure user
      password).isSuccess
  | .scram random client zeros =>
    let salted := if zeros then fun _ => List.replicate 32 0 else client.saltedPassword users.sha
    (Imap.Scram.handleScram users.sha (mailboxDirectory users host) random client.first fun first =>
      (client.finalWith users.sha salted first).map (·.1)).isSome
  | .submission request failure =>
    (Smtpd.MailboxPasswordsAuthenticator.authenticate users.sha services.decodeBase64
      users.paths.mailboxPasswords host.passwords failure request).isSuccess
  | .webmail login password =>
    ((accountsOf users services.maildirName services.fs host).authenticate users.sha login
      password).toOption.join.isSome

/-- The attempt is for the address, in letters of any case and with any white space around it. -/
def Attempt.isFor (attempt : Attempt) (email : String) : Prop :=
  ∃ login, attempt.login services = some login ∧ key login = key email

/-- There is no record under the address, nor under the part of it before the at sign. -/
def NoRecord (email : String) : Prop :=
  ∀ name ∈ candidateKeys email, storedRecord users host (key name) = none

end

section Attempts

variable {users : Users} {services : Services} {host : Host} {email login : String}

theorem NoRecord.findRecord (none : NoRecord users host email) (same : key login = key email)
    (record : PasswordRecord) : MailboxPasswords.findRecord users.paths.mailboxPasswords
      host.passwords (candidateKeys login) ≠ .ok (some record) := by
  rw [candidateKeys_congr same]
  exact findRecord_of_none _ none record

theorem NoRecord.lookup (none : NoRecord users host email) (same : key login = key email) :
    (mailboxDirectory users host).lookup (key login) = .none := by
  have missing := none.findRecord ((key_key login).trans same)
  rw [Imap.MailboxDirectory.lookup]
  cases found : MailboxPasswords.findRecord (mailboxDirectory users host).path
      (mailboxDirectory users host).passwords (candidateKeys (key login)) with
  | error e => rfl
  | ok record =>
    cases record with
    | none => rfl
    | some record => exact absurd found (missing record)

/-- Without a record an attempt succeeds only on the path of SCRAM. -/
theorem NoRecord.only_scram (none : NoRecord users host email) {attempt : Attempt}
    (isFor : attempt.isFor services email)
    (succeeds : attempt.succeeds users services host = true) :
    ∃ random client zeros, attempt = .scram random client zeros := by
  obtain ⟨login, named, same⟩ := isFor
  cases attempt with
  | directory user password failure =>
    cases named
    rw [Attempt.succeeds, Imap.PasswordDirectory.authenticate_of_none (none.lookup same) failure]
      at succeeds
    cases succeeds
  | scram random client zeros => exact ⟨random, client, zeros, rfl⟩
  | submission request failure =>
    obtain ⟨⟨user, password⟩, decoded, named⟩ := Option.map_eq_some_iff.mp named
    cases named
    rw [Attempt.succeeds, Smtpd.MailboxPasswordsAuthenticator.authenticate_of_none decoded
      (none.findRecord same) failure] at succeeds
    cases succeeds
  | webmail login password =>
    cases named
    have missing := none.findRecord ((key_key login).trans same)
    have refused : ∀ account, (accountsOf users services.maildirName services.fs host).authenticate
        users.sha login password ≠ .ok (some account) :=
      Webmail.AccountDirectory.authenticate_of_none missing
    rw [Attempt.succeeds] at succeeds
    cases result : (accountsOf users services.maildirName services.fs host).authenticate users.sha
        login password with
    | error e =>
      rw [result] at succeeds
      cases succeeds
    | ok account =>
      cases account with
      | none =>
        rw [result] at succeeds
        cases succeeds
      | some account => exact absurd result (refused account)

/-- A client can have a name that is looked up as the address, and any password. -/
theorem exists_client (email password : String) :
    ∃ client : Imap.Scram.Client, key client.user = key email ∧ client.password = password := by
  have named (user : String) (some_ : user ≠ "") : ∃ client : Imap.Scram.Client,
      client.user = user ∧ client.password = password :=
    ⟨{ user, password, nonce := "n", couldBind := false, firstExtensions := [], finalExtensions := []
       user_nonempty := some_, nonce_nonempty := by decide, nonce_comma := by decide }, rfl, rfl⟩
  by_cases empty : email = ""
  · obtain ⟨client, user, own⟩ := named " " (by decide)
    refine ⟨client, ?_, own⟩
    rw [user, empty]
    decide
  · obtain ⟨client, rfl, own⟩ := named email empty
    exact ⟨client, rfl, own⟩

/-- Where there is no record, the key of `dummy_for` lets in everybody. -/
theorem NoRecord.zeros_succeed (none : NoRecord users host email) (random : List UInt8) :
    ∃ client : Imap.Scram.Client, key client.user = key email ∧
      (Attempt.scram random client true).succeeds users services host = true := by
  obtain ⟨client, same, -⟩ := exists_client email ""
  have dummy : (Imap.PasswordDirectory.scramCredentials users.sha (mailboxDirectory users host)
      client.user).getD (.dummyFor users.sha client.user) = .dummyFor users.sha client.user := by
    rw [Imap.PasswordDirectory.scramCredentials_of_none (none.lookup same)]
    rfl
  have admitted :=
    @Imap.Scram.handleScram_finalWith users.sha _ (mailboxDirectory users host) client
    random (fun _ => List.replicate 32 0) dummy fun _ => rfl
  refine ⟨client, same, ?_⟩
  simp only [Attempt.succeeds, if_true, admitted, Option.isSome_some]

/-- Every record was made from a password. -/
def Genuine (users : Users) (host : Host) : Prop :=
  ∀ name record, storedRecord users host name = some record →
    ∃ password, RecordOf users.sha password record

/-- Where there is a record, its password lets in. -/
theorem Genuine.password_succeeds (genuine : Genuine users host)
    (stored : ¬NoRecord users host email)
    (random : List UInt8) : ∃ client : Imap.Scram.Client, key client.user = key email ∧
      (Attempt.scram random client false).succeeds users services host = true := by
  unfold NoRecord at stored
  push Not at stored
  obtain ⟨name, mem, there⟩ := stored
  rw [← candidateKeys_congr (key_key email)] at mem
  obtain ⟨record, found, -, ran, at_⟩ := findRecord_eq_some (candidateKeys (key email)) mem there
  obtain ⟨password, made⟩ := genuine _ record at_
  obtain ⟨credentials, given, -⟩ := Imap.scram_recordOf made
  obtain ⟨client, same, rfl⟩ := exists_client email password
  have looked : (mailboxDirectory users host).lookup (key email) = some record := by
    rw [Imap.MailboxDirectory.lookup, mailboxDirectory, ran]
    rfl
  have goesOn : (Imap.PasswordDirectory.scramCredentials users.sha (mailboxDirectory users host)
      client.user).getD (.dummyFor users.sha client.user) = credentials := by
    rw [← same, key] at looked
    rw [Imap.PasswordDirectory.scramCredentials, looked, Option.bind_some, given]
    rfl
  have fits := (Imap.Scram.scramCredentials_right given (Imap.Scram.rightPassword_recordOf made)).1
  have admitted :=
    @Imap.Scram.handleScram_finalWith users.sha credentials (mailboxDirectory users host)
    client random (client.saltedPassword users.sha) goesOn fun _ => fits
  refine ⟨client, same, ?_⟩
  simp only [Attempt.succeeds, Bool.false_eq_true, if_false, admitted, Option.isSome_some]

theorem Genuine.succeeds (genuine : Genuine users host) (services : Services) (email : String) :
    ∃ attempt : Attempt, attempt.isFor services email ∧
      attempt.succeeds users services host = true := by
  by_cases none : NoRecord users host email
  · obtain ⟨client, same, succeeds⟩ := @NoRecord.zeros_succeed users services host email none []
    exact ⟨_, ⟨_, rfl, same⟩, succeeds⟩
  · obtain ⟨client, same, succeeds⟩ :=
      @Genuine.password_succeeds users services host email genuine none []
    exact ⟨_, ⟨_, rfl, same⟩, succeeds⟩

end Attempts

/-- The host, and the users that were last disabled. -/
structure Watched where
  host : Host
  disabled : Finset String

/-- A call; one on the status of a user counts when it succeeds. -/
def watch (users : Users) (w : Watched) (call : Call) : Option Watched :=
  let user := userIdent call.data
  some
    { host := finalState (call.handler users) w.host
      disabled :=
        if call.operation = .status ∧ call.succeeds users w.host then
          match enabledField users call.data with
          | .ok true => w.disabled.erase user
          | .ok false => insert user w.disabled
          | .error _ => w.disabled
        else w.disabled }

section Runs

variable {users : Users} {o : Outcomes} {host t : Host}

theorem Genuine.congr (h : Genuine users host)
    (same : ∀ name, storedRecord users t name = storedRecord users host name) : Genuine users t :=
  fun name record stored => h name record (same name ▸ stored)

theorem recordOf_recordFor {identity password : String} {record : PasswordRecord}
    (made : recordFor users o identity password = .ok record) :
      RecordOf users.sha password record := by
  unfold recordFor at made
  split at made
  · exact (mailboxPasswordRecord_ok made).2
  · exact (passwordRecord_ok made).2

theorem genuine_save (identity password : String) :
    Keeps (Genuine users) (saveMailboxPassword users o identity password) := by
  intro host h
  refine wp_mono saveMailboxPassword_spec ?_ ?_
  · rintro _ t ⟨record, file, made, -, stored⟩ name other at_
    rw [stored name] at at_
    split at at_
    · cases at_
      exact ⟨password, recordOf_recordFor made⟩
    · exact h name other at_
  · rintro t rfl
    exact h

theorem genuine_drop (site : Site) (name : String) :
    Keeps (Genuine users) (dropRecord users o site name) := by
  intro host h
  refine wp_mono (dropRecord_spec site) ?_ fun _ => False.elim
  rintro _ t ⟨dropped, -⟩ other record at_
  by_cases same : other = key name
  · rcases dropped.same with none | kept
    · rw [same, none] at at_
      cases at_
    · rw [same, kept] at at_
      exact h _ record at_
  · rw [dropped.others other same] at at_
    exact h other record at_

theorem genuine_restore (identity : String) (previous : Option PasswordRecord)
    (known : ∀ record, previous = some record → ∃ password, RecordOf users.sha password record) :
    Keeps (Genuine users) (restoreMailboxPassword users o identity previous) := by
  intro host h
  refine wp_mono restoreMailboxPassword_spec ?_ ?_
  · rintro _ t ⟨-, stored⟩ name record at_
    rcases stored name with none | kept | restored
    · rw [none] at at_
      cases at_
    · exact h name record (kept ▸ at_)
    · exact known record (restored ▸ at_)
  · rintro t rfl
    exact h

theorem genuine_get {identity : String} {previous : Option PasswordRecord} (h : Genuine users host)
    (read : MailboxPasswords.get users.paths.mailboxPasswords host.passwords identity =
      .ok previous) :
    ∀ record, previous = some record → ∃ password, RecordOf users.sha password record := by
  rintro record rfl
  refine h (key identity) record ?_
  unfold MailboxPasswords.get at read
  rw [storedRecord, recordAt]
  cases loaded : load users.paths.mailboxPasswords host.passwords with
  | error e => rw [loaded] at read; cases read
  | ok records =>
    rw [loaded] at read
    exact Except.ok.inj read

/-- Whatever a call does, the records that it leaves are of passwords. -/
theorem Genuine.call (h : Genuine users host) (call : Call) :
    Genuine users (finalState (call.handler users) host) := by
  apply finalState_of_wp
  have remove := @keeps_remove users call.outcomes (Genuine users) fun _ _ h => h.congr fun _ => rfl
  have bump := @keeps_bump users call.outcomes (Genuine users) fun _ _ h => h.congr fun _ => rfl
  have managed : ∀ host names, Genuine users host → Genuine users (host.setManagedUsers names) :=
    fun _ _ h => h.congr fun _ => rfl
  have mailboxes : ∀ host items, Genuine users host → Genuine users (host.setMailboxes items) :=
    fun _ _ h => h.congr fun _ => rfl
  unfold Call.handler
  cases call.operation with
  | add =>
    exact add_keeps (keeps_create fun _ _ h => h.congr fun _ => rfl) genuine_save
      (fun new _ => keeps_register managed mailboxes new) remove genuine_drop host h
  | delete =>
    exact delete_keeps remove (keeps_unregister managed mailboxes) genuine_drop host h
  | status =>
    exact status_keeps (fun _ _ h => h.congr fun _ => rfl) (fun _ user _ _ => bump user) host h
  | password =>
    exact password_keeps (fun _ _ _ h read => genuine_get h read) genuine_save genuine_restore
      (fun _ user _ _ => bump user) host h

theorem Genuine.run {calls : List Call} {w : Watched} (h : Genuine users host)
    (reached : Reaches (watch users) ⟨host, ∅⟩ calls w) : Genuine users w.host := by
  have keep : ∀ w call w', Genuine users w.host → True → watch users w call = some w' →
      Genuine users w'.host := by
    intro w call w' h _ stepped
    cases stepped
    exact h.call call
  exact @Runs.invariant _ _ _ _ (fun w => Genuine users w.host) _ _ _ reached h keep

end Runs

/-- All attempts for the registered addresses of disabled users fail only where there is no such
address. Where the password file has no record for an address, no path but that of SCRAM lets in. -/
theorem disabled_login_iff (users : Users) (services : Services) (host : Host)
    (genuine : Genuine users host) (calls : List Call) (w : Watched)
    (reached : Reaches (watch users) ⟨host, ∅⟩ calls w) :
    ((∀ item ∈ readMailboxes users w.host, mailboxStr item "unixUser" ∈ w.disabled →
        ∀ attempt : Attempt, attempt.isFor services (mailboxStr item "email") →
          attempt.succeeds users services w.host = false) ↔
      ∀ item ∈ readMailboxes users w.host, mailboxStr item "unixUser" ∉ w.disabled) ∧
    ∀ email, NoRecord users w.host email →
      ∀ attempt : Attempt, attempt.isFor services email →
        attempt.succeeds users services w.host = true →
          ∃ random client zeros, attempt = .scram random client zeros := by
  have kept := genuine.run reached
  refine ⟨⟨fun refused item mem off => ?_, fun on item mem off => absurd off (on item mem)⟩,
    fun _ none _ isFor succeeds => none.only_scram isFor succeeds⟩
  obtain ⟨attempt, isFor, entered⟩ := kept.succeeds services (mailboxStr item "email")
  rw [refused item mem off attempt isFor] at entered
  cases entered

theorem genuine_of_missing {users : Users} {host : Host} (missing : host.passwords = .missing) :
    Genuine users host := by
  intro name record stored
  rw [storedRecord, recordAt, missing] at stored
  simp only [load, Table.get_empty] at stored
  cases stored

def disableCall (user : String) : Call where
  operation := .status
  data := .object [("id", .string user), ("enabled", .bool false)]
  outcomes := smooth ""

def noServices : Services := ⟨fun _ => none, allThere, "Maildir"⟩

def withoutRecord : Host :=
  { freshHost with
    managedUsers := .holds {"alice"}
    mailboxes := .holds [mailboxJson "alice@example.com" "alice" ""] }

/-- Somebody is let in for Alice, who is disabled and has no record, and only with SCRAM. -/
theorem disabled_without_record : ∃ w : Watched, "alice" ∈ w.disabled ∧
    ∃ item ∈ readMailboxes debian w.host, mailboxStr item "unixUser" = "alice" ∧
      ∃ random client zeros,
        (Attempt.scram random client zeros).isFor noServices (mailboxStr item "email") ∧
          (Attempt.scram random client zeros).succeeds debian noServices w.host = true := by
  have ran : (exec (watch debian) ⟨withoutRecord, ∅⟩ [disableCall "alice"]).any (fun w =>
      decide ("alice" ∈ w.disabled) && !(readMailboxes debian w.host).isEmpty &&
        (readMailboxes debian w.host).all fun item =>
          decide (mailboxStr item "unixUser" = "alice") &&
          (candidateKeys (mailboxStr item "email")).all fun name =>
            decide (storedRecord debian w.host (key name) = none)) = true := by decide +kernel
  obtain ⟨w, reached, found⟩ := (Option.any_eq_true _ _).mp ran
  simp only [Bool.and_eq_true, decide_eq_true_eq, List.all_eq_true, Bool.not_eq_true',
    List.isEmpty_eq_false_iff_exists_mem] at found
  obtain ⟨⟨off, first, there⟩, items⟩ := found
  have login := disabled_login_iff debian noServices withoutRecord (genuine_of_missing rfl) _ w
    (reaches_of_exec reached)
  have entered : ∃ item ∈ readMailboxes debian w.host, ∃ attempt : Attempt,
      attempt.isFor noServices (mailboxStr item "email") ∧
        attempt.succeeds debian noServices w.host = true := by
    by_contra refused
    have on := login.1.mp fun item mem _ attempt isFor => by
      rw [← Bool.not_eq_true]
      exact fun entered => refused ⟨item, mem, attempt, isFor, entered⟩
    exact on first there ((items first there).1 ▸ off)
  obtain ⟨item, mem, attempt, isFor, entered⟩ := entered
  obtain ⟨random, client, zeros, rfl⟩ := login.2 _ (items item mem).2 attempt isFor entered
  exact ⟨w, off, item, mem, (items item mem).1, random, client, zeros, isFor, entered⟩

/-- A mailbox that is disabled keeps its record, and with it its logins. -/
theorem disabled_logs_in : ¬∀ (users : Users) (services : Services) (host : Host),
    Genuine users host → ∀ (calls : List Call) (w : Watched),
      Reaches (watch users) ⟨host, ∅⟩ calls w →
      ∀ user ∈ w.disabled, ∀ item ∈ readMailboxes users w.host, mailboxStr item "unixUser" = user →
        ∀ attempt : Attempt, attempt.isFor services (mailboxStr item "email") →
          attempt.succeeds users services w.host = false := by
  intro claim
  have ran : (exec (watch debian) ⟨freshHost, ∅⟩
      [addCall "alice@example.com" "" "/home/alice", disableCall "alice"]).any (fun w =>
        decide ("alice" ∈ w.disabled) && (readMailboxes debian w.host).any fun item =>
          decide (mailboxStr item "unixUser" = "alice")) = true := by decide +kernel
  obtain ⟨w, reached, found⟩ := (Option.any_eq_true _ _).mp ran
  simp only [Bool.and_eq_true, decide_eq_true_eq, List.any_eq_true] at found
  obtain ⟨off, item, mem, user⟩ := found
  have reached' := reaches_of_exec reached
  have genuine : Genuine debian freshHost := genuine_of_missing rfl
  obtain ⟨attempt, isFor, entered⟩ := (genuine.run reached').succeeds noServices
    (mailboxStr item "email")
  rw [claim debian noServices freshHost genuine _ w reached' "alice" off item mem user attempt isFor]
    at entered
  cases entered

end MailStack.Priv
