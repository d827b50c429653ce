import MailStack.Core.MailboxPasswords
import MailStack.Imap.MaildirResolver

/-! The accounts of the webmail: their registry entry, their password and their Maildir. -/

namespace MailStack.Webmail

open Lib Core

def maxEmailLen : Nat := 320

structure Account where
  email : String
  account : String
  displayName : String
  unixUser : String
  maildir : String
deriving DecidableEq

structure ManagedMailbox where
  email : String
  unixUser : String
  displayName : Option String

/-- What an entry of the registry is read as. -/
def ManagedMailbox.ofJson (item : Json) : Option ManagedMailbox := do
  let email ← item.getStr "email"
  let unixUser ← item.getStr "unixUser"
  match item.get "displayName" with
  | none | some .null => some { email, unixUser, displayName := none }
  | some (.string name) => some { email, unixUser, displayName := some name }
  | some _ => none

structure AccountDirectory where
  passwordsPath : String
  passwords : File MailboxPasswords.Records
  registry : File (List Json)
  passwd : Passwd
  maildirName : String
  fs : Imap.FileSystem

def normalizeLogin (login : String) : String := toAsciiLowercase (trim login)

namespace AccountDirectory

variable (directory : AccountDirectory) {account : Account}

/-- Every entry has to be readable. -/
def loadRegistry : Option (List ManagedMailbox) :=
  match directory.registry with
  | .missing => some []
  | .unreadable _ | .malformed _ => none
  | .holds items => items.mapM ManagedMailbox.ofJson

def lookupHome (unixUser : String) : Option String := do
  let fields ← directory.passwd.find? fun fields => !skipped fields && fields.head? = some unixUser
  let home := trim (← fields[5]?)
  if home.isEmpty || home.toList.head? ≠ some '/' || contains home '\x00' then none else some home

def resolve (email : String) : Option Account := do
  let email := normalizeLogin email
  if email.isEmpty || maxEmailLen < (bytes email).length || !contains email '@' then none
  else
    let mailboxes ← directory.loadRegistry
    let mailbox ← mailboxes.find? fun entry => eqIgnoreAsciiCase entry.email email
    let canonicalEmail := toAsciiLowercase (trim mailbox.email)
    let (localPart, _) ← splitOnce '@' canonicalEmail
    let unixUser := trim mailbox.unixUser
    if unixUser.isEmpty then none
    else
      let home ← directory.lookupHome unixUser
      let maildir := joinPath home directory.maildirName
      if !directory.fs.isDir maildir then none
      else
        let displayName :=
          ((mailbox.displayName.map trim).filter fun name => !name.isEmpty).getD localPart
        some { email := canonicalEmail, account := localPart, displayName, unixUser, maildir }

/-- The account of a login and a password, or the error of the password file. -/
def authenticate (sha : Sha256) (login password : String) : Except String (Option Account) :=
  let login := normalizeLogin login
  if login.isEmpty || maxEmailLen < (bytes login).length || password.isEmpty then .ok none
  else
    match MailboxPasswords.findRecord directory.passwordsPath directory.passwords
        (MailboxPasswords.candidateKeys login) with
    | .error _ => .error "internal server error"
    | .ok none => .ok none
    | .ok (some record) =>
      if verifyPassword sha record password then .ok (directory.resolve login) else .ok none

variable {sha : Sha256} {login password : String}

variable {directory} in
theorem authenticate_of_none
    (none : ∀ record, MailboxPasswords.findRecord directory.passwordsPath directory.passwords
      (MailboxPasswords.candidateKeys (normalizeLogin login)) ≠ .ok (some record))
    (account : Account) : directory.authenticate sha login password ≠ .ok (some account) := by
  unfold authenticate
  dsimp only
  split
  · exact nofun
  · split
    · exact nofun
    · exact nofun
    · rename_i record known
      exact absurd known (none record)

variable {directory}

theorem mailbox_of_resolve {login : String} (found : directory.resolve login = some account) :
    ∃ mailboxes, directory.loadRegistry = some mailboxes ∧ ∃ mailbox ∈ mailboxes,
      account.email = toAsciiLowercase (trim mailbox.email) ∧
        contains account.email '@' = true := by
  simp only [resolve] at found
  split at found
  · cases found
  · obtain ⟨mailboxes, loaded, found⟩ := Option.bind_eq_some_iff.mp found
    obtain ⟨mailbox, first, found⟩ := Option.bind_eq_some_iff.mp found
    obtain ⟨⟨localPart, domain⟩, parts, found⟩ := Option.bind_eq_some_iff.mp found
    split at found
    · cases found
    · obtain ⟨home, -, found⟩ := Option.bind_eq_some_iff.mp found
      split at found
      · cases found
      · have same := Option.some.inj found
        subst same
        refine ⟨mailboxes, loaded, mailbox, List.mem_of_find?_eq_some first, rfl, ?_⟩
        rw [contains, List.contains_iff_mem, (splitOnce_eq_some parts).1]
        simp

theorem email_of_resolve {login : String}
    (found : directory.resolve login = some account) :
    toAsciiLowercase (trim account.email) = account.email ∧ contains account.email '@' = true := by
  obtain ⟨_, -, mailbox, -, same, at_⟩ := mailbox_of_resolve found
  refine ⟨?_, at_⟩
  rw [same, trim_toAsciiLowercase, trim_trim, toAsciiLowercase_toAsciiLowercase]

theorem authenticate_of_record {record : PasswordRecord}
    (asked : ((normalizeLogin login).isEmpty ||
      maxEmailLen < (bytes (normalizeLogin login)).length ||
      password.isEmpty) = false)
    (found : MailboxPasswords.findRecord directory.passwordsPath directory.passwords
      (MailboxPasswords.candidateKeys (normalizeLogin login)) = .ok (some record))
    (verified : verifyPassword sha record password = true) :
    directory.authenticate sha login password = .ok (directory.resolve (normalizeLogin login)) := by
  simp only [authenticate, asked, found, verified, Bool.false_eq_true, if_false, if_true]

theorem resolve_of_authenticate
    (entered : directory.authenticate sha login password = .ok (some account)) :
    directory.resolve (normalizeLogin login) = some account := by
  unfold authenticate at entered
  dsimp only at entered
  split at entered
  · cases entered
  · split at entered
    · cases entered
    · cases entered
    · split at entered
      · exact Except.ok.inj entered
      · cases entered

end AccountDirectory

end MailStack.Webmail
