import Mathlib.Data.Finset.Erase
import MailStack.Priv.Host

/-! The operations on mailboxes: making one, removing it, enabling and disabling it, and changing
its password. -/

namespace MailStack.Priv

open Lib Core

def protectedUsers : List String :=
  ["root", "daemon", "bin", "sys", "sync", "mail", "postfix", "dovecot", "nobody",
    "mailstack-admin", "mailstack-web"]

def isProtected (user : String) : Bool := protectedUsers.contains user

def strField (data : Json) (key : String) : String := (data.getStr key).getD ""

def strFieldAny (data : Json) (keys : List String) : String :=
  ((keys.map (strField data)).find? (!·.isEmpty)).getD ""

def userIdent (data : Json) : String :=
  let direct := strFieldAny data ["id", "username"]
  if !direct.isEmpty then direct
  else
    let address := strFieldAny data ["address", "email"]
    match splitOnce '@' address with
    | some (localPart, _) => localPart
    | none => address

def mailboxStr (item : Json) (key : String) : String := (item.getStr key).getD ""

def mailboxJson (email unixUser displayName : String) : Json :=
  .object [("email", .string email), ("unixUser", .string unixUser),
    ("displayName", .string displayName)]

section Operations

variable (users : Users) (o : Outcomes)

def tryReadManagedUsers (host : Host) : Except String (Finset String) :=
  match host.managedUsers with
  | .missing => .ok ∅
  | .unreadable e =>
    .error s!"managed user registry is unreadable ({users.paths.managedUsers}): {e}"
  | .malformed _ =>
    .error
      s!"managed user registry is corrupt ({users.paths.managedUsers}): expected a JSON array of user names"
  | .holds names => .ok names

def readManagedUsers (host : Host) : Finset String :=
  match tryReadManagedUsers users host with
  | .ok names => names
  | .error _ => ∅

def tryReadMailboxes (host : Host) : Except String (List Json) :=
  match host.mailboxes with
  | .missing => .ok []
  | .unreadable e =>
    .error s!"managed mailbox registry is unreadable ({users.paths.managedMailboxes}): {e}"
  | .malformed _ =>
    .error
      s!"managed mailbox registry is corrupt ({users.paths.managedMailboxes}): expected a JSON array"
  | .holds items => .ok items

def readMailboxes (host : Host) : List Json :=
  match tryReadMailboxes users host with
  | .ok items => items
  | .error _ => []

def saveManagedUsers (names : Finset String) : Handler Unit := do
  refuseOn (o.access .managedUsers).write
  modify fun host => host.setManagedUsers names

def saveMailboxes (items : List Json) : Handler Unit := do
  refuseOn (o.access .mailboxes).write
  modify fun host => host.setMailboxes items

def addressOf (host : Host) (user : String) : Option String :=
  (((readMailboxes users host).find? fun item => mailboxStr item "unixUser" = user).map
    fun item => mailboxStr item "email").filter fun email => !email.isEmpty

/-- The record that is kept of a password: one of the address, or one of the user name. -/
def recordFor (identity password : String) : Except String PasswordRecord :=
  if contains identity '@' then
    mailboxPasswordRecord users.lower users.sha o.stamp identity password
  else passwordRecord users.lower users.sha o.stamp identity password

def saveMailboxPassword (identity password : String) : Handler Unit := do
  let host ← get
  match recordFor users o identity password with
  | .error error => throw s!"mailbox password record rejected: {error}"
  | .ok record =>
    match MailboxPasswords.upsert users.paths.mailboxPasswords (o.access .record) record
        host.passwords with
    | .error error => throw s!"cannot persist mailbox password record: {error}"
    | .ok file => set (host.setPasswords file)

/-- A record is removed if that can be done. -/
def dropRecord (site : Site) (name : String) : Handler Unit := do
  let host ← get
  match MailboxPasswords.remove users.paths.mailboxPasswords (o.access site) name
      host.passwords with
  | .error _ => pure ()
  | .ok (_, file) => set (host.setPasswords file)

def dropMailboxPassword (user : String) (address : Option String) : Handler Unit := do
  if let some address := address then dropRecord users o .droppedAddress address
  dropRecord users o .droppedUser user

def rollbackCreatedAccount (user : String) (address : Option String) : Handler Unit := do
  dropMailboxPassword users o user address
  let _ ← caught (removeAccount users o user)

structure NewMailbox where
  email : String
  user : String
  password : String
  displayName : String
deriving DecidableEq

def requestedEmail (data : Json) : String :=
  users.lower.toLowercase (trim (strFieldAny data ["email", "address"]))

def requestedUser (data : Json) : String :=
  let username := users.lower.toLowercase (trim (strField data "username"))
  if username.isEmpty then
    match splitOnce '@' (requestedEmail users data) with
    | some (localPart, _) => localPart
    | none => ""
  else username

/-- The first words of the lines of the table. -/
def managedDomains (host : Host) : Except String (List String) :=
  match host.domains with
  | .missing => .ok []
  | .unreadable e =>
    .error s!"managed domain table is unreadable: io error on {users.paths.domains}: {e}"
  | .malformed e => .error s!"managed domain table is unreadable: {e}"
  | .holds rows => .ok (rows.filterMap List.head?)

def domainOf (email : String) : String :=
  match splitOnce '@' email with
  | some (_, domain) => domain
  | none => ""

def registered (items : List Json) (email : String) : Bool :=
  items.any fun item => users.lower.toLowercase (mailboxStr item "email") = email

/-- The checks that come before anything is changed. -/
def prepare (data : Json) (host : Host) : Except String NewMailbox := do
  let email := requestedEmail users data
  let user := requestedUser users data
  if isProtected user then throw "mailbox username is protected"
  if !userRe user || !addressRe email then throw "invalid mailbox identity"
  let password := strField data "password"
  validateMailboxPassword users.lower password [user, email]
  let domains ← managedDomains users host
  if !domains.contains (domainOf email) then throw "mailbox domain is not managed"
  let items ← tryReadMailboxes users host
  if registered users items email then throw "mailbox already exists"
  let displayName := String.ofList ((strFieldAny data ["displayName", "name"]).toList.take 80)
  pure { email, user, password, displayName }

def accountGroup (host : Host) : String := if groupExists host "mail" then "mail" else "users"

/-- The part under the lock of the registry. -/
def register (new : NewMailbox) : Handler Unit := do
  refuseOn (o.access .managedUsers).lock
  let host ← get
  let items ← ofExcept (tryReadMailboxes users host)
  refuseIf (registered users items new.email) "mailbox already exists"
  let managed ← ofExcept (tryReadManagedUsers users host)
  saveManagedUsers o (insert new.user managed)
  saveMailboxes o (items ++ [mailboxJson new.email new.user new.displayName])

/-- A part of a request whose failure undoes what the request has done. -/
def orRollback (new : NewMailbox) (part : Handler Unit) : Handler Unit := do
  match ← caught part with
  | .ok () => pure ()
  | .error error =>
    rollbackCreatedAccount users o new.user (some new.email)
    throw error

def add (data : Json) : Handler Unit := do
  let host ← get
  let new ← ofExcept (prepare users data host)
  createAccount users o new.user (accountGroup host) (nologinShell users)
  orRollback users o new (setPassword users o new.user new.password)
  orRollback users o new (saveMailboxPassword users o new.email new.password)
  orRollback users o new (register users o new)

def unregister (user : String) : Handler Unit := do
  refuseOn (o.access .managedUsers).lock
  let host ← get
  let managed ← ofExcept (tryReadManagedUsers users host)
  saveManagedUsers o (managed.erase user)
  let items ← ofExcept (tryReadMailboxes users host)
  saveMailboxes o (items.filter fun item => mailboxStr item "unixUser" ≠ user)

def delete (data : Json) : Handler Unit := do
  let user := userIdent data
  let host ← get
  refuseIf (!userRe user || isProtected user || user ∉ readManagedUsers users host)
    "user is protected or not managed by MailStack"
  refuseIf ((lookupUser host user).any (·.uid < 1000)) "system account deletion is forbidden"
  removeAccount users o user
  let address := addressOf users (← get) user
  unregister users o user
  dropMailboxPassword users o user address

def bumpSessionEpoch (user : String) : Handler Unit := do
  let failed (error : String) : Handler Unit :=
    throw s!"webmail sessions could not be invalidated: {error}"
  let path := users.paths.webmailSessionEpoch
  match (o.access .sessionEpochs).lock with
  | some error => failed error
  | none =>
    let host ← get
    let epochs : Except String (Table String Int) := match host.sessionEpochs with
      | .missing => .ok ∅
      | .unreadable e => .error s!"io error on {path}: {e}"
      | .malformed e => .error s!"webmail session epoch table is corrupt ({path}): {e}"
      | .holds epochs => .ok epochs
    match epochs with
    | .error error => failed error
    | .ok epochs =>
      match (o.access .sessionEpochs).write with
      | some error => failed error
      | none => set { host with sessionEpochs := .holds (epochs.put user o.now) }

def enabledField (data : Json) : Except String Bool :=
  match (data.get "enabled").orElse fun _ => data.get "active" with
  | some (.bool value) => .ok value
  | some other => .error s!"enabled (or active) must be a boolean, got {users.display other}"
  | none => .error "missing required field (enabled or active)"

def status (data : Json) : Handler Unit := do
  let user := userIdent data
  let host ← get
  refuseIf (isProtected user || user ∉ readManagedUsers users host)
    "user is protected or not managed by MailStack"
  let enabled ← ofExcept (enabledField users data)
  let result ← ofExcept (o.run "passwd" [if enabled then "-u" else "-l", user] "")
  refuseIf (!result.success) s!"account status change failed: {commandDetail result}"
  modify fun host => { host with
    locked := if enabled then host.locked.erase user else insert user host.locked }
  match ← caught (bumpSessionEpoch users o user) with
  | .ok () => pure ()
  | .error error => throw s!"account status was changed but {error}"

def restoreMailboxPassword (identity : String) (previous : Option PasswordRecord) :
    Handler Unit := do
  let host ← get
  let path := users.paths.mailboxPasswords
  match previous with
  | some record =>
    match MailboxPasswords.upsert path (o.access .restore) record host.passwords with
    | .error error =>
      throw s!"cannot restore the previous mailbox password record: {error}"
    | .ok file => set (host.setPasswords file)
  | none =>
    match MailboxPasswords.remove path (o.access .restore) identity host.passwords with
    | .error error =>
      throw s!"cannot remove the mailbox password record written by this attempt: {error}"
    | .ok (_, file) => set (host.setPasswords file)

def password (data : Json) : Handler Unit := do
  let user := userIdent data
  let host ← get
  refuseIf (isProtected user || user ∉ readManagedUsers users host)
    "mailbox is protected or not managed by MailStack"
  let password := strField data "password"
  ofExcept (validateMailboxPassword users.lower password [user])
  let identity := (addressOf users host user).getD user
  match MailboxPasswords.get users.paths.mailboxPasswords host.passwords identity with
  | .error error => throw s!"cannot read the current mailbox password record: {error}"
  | .ok previous =>
    saveMailboxPassword users o identity password
    match ← caught (setPassword users o user password) with
    | .error error =>
      match ← caught (restoreMailboxPassword users o identity previous) with
      | .error rollback =>
        let _ ← caught (bumpSessionEpoch users o user)
        throw s!"{error}; the IMAP/POP3 password record could not be rolled back either ({rollback}), so the protocol password now differs from the system password"
      | .ok () => throw error
    | .ok () =>
      match ← caught (bumpSessionEpoch users o user) with
      | .ok () => pure ()
      | .error error => throw s!"password was updated but {error}"

end Operations

section Parts

variable {users : Users} {o : Outcomes} {host : Host} {user name password identity : String}
  {new : NewMailbox} {items : List Json}

def storedRecord (users : Users) (host : Host) (name : String) : Option PasswordRecord :=
  MailboxPasswords.recordAt users.paths.mailboxPasswords host.passwords name

/-- What a request asks for, with a user name and an address that have the right form. -/
structure Asked (users : Users) (data : Json) (new : NewMailbox) : Prop where
  email : new.email = requestedEmail users data
  user : new.user = requestedUser users data
  password : new.password = strField data "password"
  isUser : userRe new.user = true
  isAddress : addressRe new.email = true

/-- What the checks of a request establish. -/
theorem prepare_ok {data : Json} (prepared : prepare users data host = .ok new) :
    Asked users data new ∧ ∃ items, tryReadMailboxes users host = .ok items ∧
      registered users items new.email = false := by
  simp only [prepare] at prepared
  split at prepared
  · cases prepared
  · split at prepared
    · cases prepared
    · rename_i patterns
      rw [Bool.or_eq_true, Bool.not_eq_true', Bool.not_eq_true', not_or, Bool.not_eq_false,
        Bool.not_eq_false] at patterns
      simp only [bind, Except.bind, pure, Except.pure] at prepared
      cases valid : validateMailboxPassword users.lower (strField data "password")
          [requestedUser users data, requestedEmail users data] with
      | error e => simp only [valid] at prepared; cases prepared
      | ok u =>
        cases known : managedDomains users host with
        | error e => simp only [valid, known] at prepared; cases prepared
        | ok domains =>
          simp only [valid, known] at prepared
          split at prepared
          · cases prepared
          · cases read : tryReadMailboxes users host with
            | error e => simp only [read] at prepared; cases prepared
            | ok items =>
              simp only [read] at prepared
              split at prepared
              · cases prepared
              · rename_i fresh
                cases prepared
                exact ⟨⟨rfl, rfl, rfl, patterns.1, patterns.2⟩, items, rfl, by simpa using fresh⟩

theorem key_of_userRe (h : userRe user = true) : MailboxPasswords.key user = user :=
  MailboxPasswords.key_eq_self fun _ mem =>
    ⟨isWhitespace_eq_false (userRe_visible h mem).1, (userRe_visible h mem).2.1⟩

section Asked

variable {data : Json} (h : Asked users data new)

include h

theorem Asked.noUpper : ∀ c ∈ new.email.toList, c.isUpper = false := fun c mem =>
  users.lower.noUpper _ c (h.email ▸ mem)

theorem Asked.key_email : MailboxPasswords.key new.email = new.email :=
  MailboxPasswords.key_eq_self fun _ mem =>
    ⟨isWhitespace_eq_false (addressRe_mem h.isAddress mem), h.noUpper _ mem⟩

theorem Asked.toLowercase_email : users.lower.toLowercase new.email = new.email := by
  rw [users.lower.ascii, toAsciiLowercase, List.map_congr_left fun c mem =>
    toLower_eq_self (h.noUpper c mem), List.map_id', String.ofList_toList]
  intro c mem
  have code : c.toNat = c.val.toNat := rfl
  have high := (addressRe_mem h.isAddress mem).2
  rw [UInt32.lt_iff_toNat_lt]
  show c.val.toNat < 128
  omega

theorem Asked.contains_email : contains new.email '@' = true := by
  obtain ⟨localPart, domain, parts, -⟩ := addressRe_parts h.isAddress
  rw [contains, List.contains_iff_mem, (splitOnce_eq_some parts).1]
  simp

theorem Asked.contains_user : contains new.user '@' = false := by
  rw [contains, Bool.eq_false_iff, ne_eq, List.contains_iff_mem]
  exact fun mem => (userRe_visible h.isUser mem).2.2 rfl

end Asked

theorem saveMailboxPassword_spec : wp (saveMailboxPassword users o identity password)
    (fun _ t => ∃ record file, recordFor users o identity password = .ok record ∧
      t = host.setPasswords file ∧
      ∀ n, storedRecord users t n =
        if n = MailboxPasswords.key record.username then some record else storedRecord users host n)
    (fun t => t = host) host := by
  simp only [saveMailboxPassword, wp_bind, wp_get]
  split
  · exact rfl
  · rename_i record made
    split
    · exact rfl
    · rename_i file written
      exact ⟨record, file, made, rfl, fun n => MailboxPasswords.recordAt_upsert written⟩

/-- The record of a request is one of its password, and is stored under its address. -/
theorem saveMailboxPassword_asked {data : Json} (asked : Asked users data new) :
    wp (saveMailboxPassword users o new.email new.password)
      (fun _ t => ∃ record file, RecordOf users.sha new.password record ∧
        t = host.setPasswords file ∧
        ∀ n, storedRecord users t n =
          if n = new.email then some record else storedRecord users host n)
      (fun t => t = host) host := by
  refine wp_mono saveMailboxPassword_spec ?_ fun _ => id
  rintro _ t ⟨record, file, made, left, stored⟩
  rw [recordFor, if_pos asked.contains_email] at made
  obtain ⟨named, ofPassword⟩ := mailboxPasswordRecord_ok made
  have address : MailboxPasswords.key record.username = new.email := by
    rw [named, ← MailboxPasswords.key, asked.key_email, asked.key_email]
  exact ⟨record, file, ofPassword, left, address ▸ stored⟩

@[simp] theorem mailboxStr_email (email unixUser displayName : String) :
    mailboxStr (mailboxJson email unixUser displayName) "email" = email := rfl

theorem readMailboxes_of_ok (read : tryReadMailboxes users host = .ok items) :
    readMailboxes users host = items := by
  rw [readMailboxes, read]

/-- What a step that may remove the record of a name leaves. -/
structure Dropped (users : Users) (name : String) (host t : Host) : Prop where
  rest : ∃ file, t = host.setPasswords file
  others : ∀ n, n ≠ MailboxPasswords.key name → storedRecord users t n = storedRecord users host n
  same : storedRecord users t (MailboxPasswords.key name) = none ∨
    storedRecord users t (MailboxPasswords.key name) =
      storedRecord users host (MailboxPasswords.key name)

theorem dropRecord_spec (site : Site) : wp (dropRecord users o site name)
    (fun _ t => Dropped users name host t ∧
      (o.access site = {} → storedRecord users t (MailboxPasswords.key name) = none))
    (fun _ => False) host := by
  simp only [dropRecord, wp_bind, wp_get]
  split
  · rename_i e failed
    refine ⟨⟨⟨host.passwords, rfl⟩, fun _ _ => rfl, .inr rfl⟩, fun open_ => ?_⟩
    exact MailboxPasswords.recordAt_of_remove_error (open_ ▸ failed)
  · rename_i found file removed
    have stored : ∀ n, storedRecord users (host.setPasswords file) n =
        if n = MailboxPasswords.key name then none else storedRecord users host n := fun _ =>
      MailboxPasswords.recordAt_remove removed
    refine ⟨⟨⟨file, rfl⟩, fun n other => ?_, .inl ?_⟩, fun _ => ?_⟩
    · exact (stored n).trans (if_neg other)
    · exact (stored _).trans (if_pos rfl)
    · exact (stored _).trans (if_pos rfl)

theorem saveManagedUsers_spec {names : Finset String} : wp (saveManagedUsers o names)
    (fun _ t => (o.access .managedUsers).write = none ∧
      t = host.setManagedUsers names)
    (fun t => t = host ∧ (o.access .managedUsers).write ≠ none) host := by
  rw [saveManagedUsers, wp_bind, wp_refuseOn]
  exact ⟨fun failed => ⟨rfl, failed⟩, fun written => ⟨written, rfl⟩⟩

theorem saveMailboxes_spec : wp (saveMailboxes o items)
    (fun _ t => (o.access .mailboxes).write = none ∧ t = host.setMailboxes items)
    (fun t => t = host ∧ (o.access .mailboxes).write ≠ none) host := by
  rw [saveMailboxes, wp_bind, wp_refuseOn]
  exact ⟨fun failed => ⟨rfl, failed⟩, fun written => ⟨written, rfl⟩⟩

theorem unregister_spec : wp (unregister users o user)
    (fun _ t => ∃ names items, tryReadManagedUsers users host = .ok names ∧
      tryReadMailboxes users host = .ok items ∧
      t = (host.setManagedUsers (names.erase user)).setMailboxes
        (items.filter fun item => mailboxStr item "unixUser" ≠ user))
    (fun t => t = host ∨ ∃ names, tryReadManagedUsers users host = .ok names ∧
      t = host.setManagedUsers (names.erase user)) host := by
  simp only [unregister, wp_bind, wp_refuseOn, wp_get, wp_ofExcept]
  refine ⟨fun _ => .inl trivial, fun _ => ⟨fun names managed => ?_, fun _ _ => .inl trivial⟩⟩
  refine wp_mono saveManagedUsers_spec ?_ fun t same => .inl same.1
  rintro _ t ⟨-, rfl⟩
  refine ⟨fun items read => ?_, fun _ _ => .inr ⟨names, managed, rfl⟩⟩
  refine wp_mono saveMailboxes_spec ?_ fun t same => .inr ⟨names, managed, same.1⟩
  rintro _ t ⟨-, rfl⟩
  exact ⟨names, items, managed, read, rfl⟩

theorem bumpSessionEpoch_spec : wp (bumpSessionEpoch users o user)
    (fun _ t => ∃ epochs, (host.sessionEpochs = .missing ∧ epochs = ∅ ∨
        host.sessionEpochs = .holds epochs) ∧
      t = { host with sessionEpochs := .holds (epochs.put user o.now) }) (fun t =>
        t = host) host := by
  simp only [bumpSessionEpoch]
  cases (o.access .sessionEpochs).lock with
  | some e => exact rfl
  | none =>
    simp only [wp_bind, wp_get]
    cases held : host.sessionEpochs with
    | unreadable e => exact rfl
    | malformed e => exact rfl
    | missing =>
      cases (o.access .sessionEpochs).write with
      | some e => exact rfl
      | none => exact ⟨∅, .inl ⟨rfl, rfl⟩, rfl⟩
    | holds epochs =>
      cases (o.access .sessionEpochs).write with
      | some e => exact rfl
      | none => exact ⟨epochs, .inr rfl, rfl⟩

theorem restoreMailboxPassword_spec {previous : Option PasswordRecord} :
    wp (restoreMailboxPassword users o identity previous)
      (fun _ t => (∃ file, t = host.setPasswords file) ∧ ∀ n, storedRecord users t n = none ∨
        storedRecord users t n = storedRecord users host n ∨ storedRecord users t n = previous)
      (fun t => t = host) host := by
  simp only [restoreMailboxPassword, wp_bind, wp_get]
  cases previous with
  | some record =>
    dsimp only
    split
    · exact rfl
    · rename_i file written
      refine ⟨⟨file, rfl⟩, fun n => ?_⟩
      have stored : storedRecord users (host.setPasswords file) n = _ :=
        MailboxPasswords.recordAt_upsert written
      rw [stored]
      split
      · exact .inr (.inr rfl)
      · exact .inr (.inl rfl)
  | none =>
    dsimp only
    split
    · exact rfl
    · rename_i found file removed
      refine ⟨⟨file, rfl⟩, fun n => ?_⟩
      have stored : storedRecord users (host.setPasswords file) n = _ :=
        MailboxPasswords.recordAt_remove removed
      rw [stored]
      split
      · exact .inl rfl
      · exact .inr (.inl rfl)

/-- The registration, and its two failures: before and after the list of managed users is saved. -/
theorem register_spec : wp (register users o new)
    (fun _ t => ∃ items names, tryReadMailboxes users host = .ok items ∧
      registered users items new.email = false ∧ tryReadManagedUsers users host = .ok names ∧
      o.access .managedUsers = {} ∧ (o.access .mailboxes).write = none ∧
      t = (host.setManagedUsers (insert new.user names)).setMailboxes
        (items ++ [mailboxJson new.email new.user new.displayName]))
    (fun t => t = host ∧ (o.access .managedUsers = {} →
          (∃ names, tryReadManagedUsers users host = .ok names) →
          ∀ items, tryReadMailboxes users host = .ok items →
            registered users items new.email = true) ∨
      ∃ names, tryReadManagedUsers users host = .ok names ∧ o.access .managedUsers = {} ∧
        (o.access .mailboxes).write ≠ none ∧
        t = host.setManagedUsers (insert new.user names)) host := by
  simp only [register, wp_bind, wp_refuseOn, wp_get, wp_ofExcept, wp_refuseIf]
  refine ⟨fun locked => ?_, fun unlocked => ⟨fun items read => ⟨fun twice => ?_, fun fresh =>
    ⟨fun names managed => ?_, ?_⟩⟩, ?_⟩⟩
  · refine .inl ⟨trivial, fun open_ => ?_⟩
    rw [open_] at locked
    exact absurd rfl locked
  · refine .inl ⟨trivial, fun _ _ items' read' => ?_⟩
    rw [read] at read'
    cases read'
    exact twice
  · refine wp_mono saveManagedUsers_spec ?_ ?_
    · rintro _ t ⟨written, rfl⟩
      have open_ : o.access .managedUsers = {} := by
        generalize o.access .managedUsers = access at unlocked written
        cases access
        simp_all
      refine wp_mono saveMailboxes_spec ?_ ?_
      · rintro _ t ⟨saved, rfl⟩
        exact ⟨items, names, read, fresh, managed, open_, saved, rfl⟩
      · rintro t ⟨rfl, failed⟩
        exact .inr ⟨names, managed, open_, failed, rfl⟩
    · rintro t ⟨rfl, failed⟩
      refine .inl ⟨rfl, fun open_ => ?_⟩
      rw [open_] at failed
      exact absurd rfl failed
  · rintro e failed
    refine .inl ⟨trivial, fun _ readable => ?_⟩
    obtain ⟨names, read⟩ := readable
    rw [failed] at read
    cases read
  · rintro e failed
    refine .inl ⟨trivial, fun _ _ items read => ?_⟩
    rw [failed] at read
    cases read

end Parts

def flatSha : Sha256 where
  digest _ := List.replicate 32 0
  length_digest _ := rfl

/-- The operations where every program is installed. -/
def debian : Users where
  lower := asciiLowercase
  sha := flatSha
  paths :=
    { domains := "/etc/postfix/domains"
      managedUsers := "/etc/mailstack/managed-users.json"
      managedMailboxes := "/etc/mailstack/managed-mailboxes.json"
      mailboxPasswords := "/etc/mailstack/mailbox-passwords.json"
      webmailSessionEpoch := "/etc/mailstack/webmail-session-epoch.json" }
  which program := some ("/usr/sbin/" ++ program)
  pathExists _ := true
  display _ := ""

/-- A call in which nothing fails. -/
def smooth (home : String) : Outcomes where
  run _ _ _ := .ok { status := 0, stdout := "", stderr := "" }
  access _ := {}
  uid := 1001
  gid := 8
  home := home
  stamp := { salt := List.replicate 16 0, length_salt := rfl, now := "2026-01-01T00:00:00+08:00" }
  now := 1767225600

/-- A host that serves a domain and has no mailbox. -/
def freshHost : Host where
  passwd := [["root", "x", "0", "0", "root", "/root", "/bin/sh"]]
  groups := ["root", "mail"]
  domains := .holds [["example.com", "OK"], ["example.org", "OK"]]
  managedUsers := .missing
  mailboxes := .missing
  passwords := .missing
  sessionEpochs := .missing
  locked := ∅

def requestFor (email username password : String) : Json :=
  .object [("email", .string email), ("username", .string username), ("password", .string password)]

end MailStack.Priv
