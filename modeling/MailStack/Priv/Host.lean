import MailStack.Core.MailboxPasswords
import MailStack.Core.Passwd
import MailStack.Lib.Handler
import Mathlib.Data.Finset.Insert

/-! The state that the operations on accounts change, what a call meets outside of it, and the
commands that make and remove the accounts of the system. -/

namespace MailStack.Priv

open Lib Core

structure Host where
  passwd : Passwd
  groups : List String
  domains : File (List (List String))
  managedUsers : File (Finset String)
  mailboxes : File (List Json)
  passwords : File MailboxPasswords.Records
  sessionEpochs : File (Table String Int)
  locked : Finset String

namespace Host

def setPasswd (host : Host) (passwd : Passwd) : Host := { host with passwd := passwd }

def setManagedUsers (host : Host) (names : Finset String) : Host :=
  { host with managedUsers := .holds names }

def setMailboxes (host : Host) (items : List Json) : Host :=
  { host with mailboxes := .holds items }

def setPasswords (host : Host) (file : File MailboxPasswords.Records) : Host :=
  { host with passwords := file }

variable {host : Host} {passwd : Passwd} {file file' : File MailboxPasswords.Records}

@[simp] theorem setPasswd_passwd : (host.setPasswd passwd).passwd = passwd := rfl
@[simp] theorem setPasswords_setPasswords :
    (host.setPasswords file).setPasswords file' = host.setPasswords file' := rfl

end Host

structure Paths where
  domains : String
  managedUsers : String
  managedMailboxes : String
  mailboxPasswords : String
  webmailSessionEpoch : String

structure Users where
  lower : Lowercase
  sha : Sha256
  paths : Paths
  which : String → Option String
  pathExists : String → Bool
  /-- How a value is written in a message. -/
  display : Json → String

structure CommandOutput where
  status : Int
  stdout : String
  stderr : String

def CommandOutput.success (output : CommandOutput) : Bool := output.status = 0

/-- The places of a call that write to a file. -/
inductive Site
  | record
  | restore
  | droppedAddress
  | droppedUser
  | managedUsers
  | mailboxes
  | sessionEpochs

/-- What one call meets: the output of each command by its program, arguments and input, the
failures at its files, the numbers and the home of an account that it makes, the random salt and the
clock. -/
structure Outcomes where
  run : String → List String → String → Except String CommandOutput
  access : Site → Access
  uid : Nat
  gid : Nat
  home : String
  stamp : Stamp
  now : Int

/-- A call: it changes the state, and may stop early with the text of an error. -/
abbrev Handler := EStateM String Host

def ofExcept {α : Type} : Except String α → Handler α
  | .ok a => pure a
  | .error e => throw e

def refuseIf (condition : Bool) (error : String) : Handler Unit :=
  if condition then throw error else pure ()

def refuseOn (error : Option String) : Handler Unit :=
  match error with
  | some error => throw error
  | none => pure ()

def lookupUser (host : Host) (name : String) : Option PasswdEntry :=
  (parsePasswd host.passwd).find? (·.name = name)

def commandDetail (output : CommandOutput) : String :=
  if (trim output.stderr).isEmpty then trim output.stdout else trim output.stderr

section Commands

variable (users : Users) (o : Outcomes)

def nologinShell : String :=
  match users.which "nologin" with
  | some found => found
  | none => (["/usr/sbin/nologin", "/sbin/nologin"].find? users.pathExists).getD "/bin/false"

def groupExists (host : Host) (name : String) : Bool := host.groups.contains name

def newLine (user shell : String) : List String :=
  [user, "x", toString o.uid, toString o.gid, "", o.home, shell]

/-- A command that makes an account, and fails where the name is taken. -/
def addAccount (program : String) (args : List String) (user shell : String) :
    Handler CommandOutput := do
  let output ← ofExcept (o.run program args "")
  let host ← get
  if !output.success then pure output
  else if taken host.passwd user then pure { output with status := 9 }
  else
    set (host.setPasswd (host.passwd ++ [newLine o user shell]))
    pure output

/-- A command that removes an account, and fails where there is none. -/
def dropAccount (program : String) (args : List String) (user : String) :
    Handler CommandOutput := do
  let output ← ofExcept (o.run program args "")
  let host ← get
  if !output.success then pure output
  else if !taken host.passwd user then pure { output with status := 6 }
  else
    set (host.setPasswd (host.passwd.filter (·.head? ≠ some user)))
    pure output

def orElse (first second : Handler CommandOutput) : Handler CommandOutput := do
  let result ← first
  if result.success then pure result else second

def createAccount (user group nologin : String) : Handler Unit :=
  match users.which "useradd" with
  | some useradd => do
    let result ← orElse
      (addAccount o useradd ["-m", "-N", "-g", group, "-s", nologin, user] user nologin)
      (addAccount o useradd ["-m", "-s", nologin, user] user nologin)
    if !result.success then
      throw s!"useradd failed to create mailbox user: {commandDetail result}"
  | none =>
    match users.which "adduser" with
    | some adduser => do
      let result ← orElse
        (addAccount o adduser ["-D", "-s", nologin, "-G", group, user] user nologin)
        (addAccount o adduser ["-D", "-s", nologin, user] user nologin)
      if !result.success then
        throw s!"adduser failed to create mailbox user: {commandDetail result}"
    | none => throw "Neither useradd nor adduser command found"

def removeAccount (user : String) : Handler Unit :=
  match users.which "userdel" with
  | some userdel => do
    let result ← orElse (dropAccount o userdel ["-r", user] user)
      (dropAccount o userdel [user] user)
    if !result.success then throw s!"user deletion failed: {commandDetail result}"
  | none =>
    match users.which "deluser" with
    | some deluser => do
      let result ← orElse (dropAccount o deluser ["--remove-home", user] user)
        (dropAccount o deluser [user] user)
      if !result.success then throw s!"user deletion failed: {commandDetail result}"
    | none => throw "Neither userdel nor deluser command found"

def setPassword (user password : String) : Handler Unit :=
  match users.which "chpasswd" with
  | none =>
    throw "chpasswd is not available; refusing to fall back to the interactive passwd path"
  | some chpasswd => do
    let result ← ofExcept (o.run chpasswd [] s!"{user}:{password}\n")
    if !result.success then throw s!"password change failed: {commandDetail result}"

end Commands

variable {users : Users} {o : Outcomes} {host : Host} {user group shell program : String}
  {args : List String} {Q : Unit → Host → Prop} {P : Host → Prop}

variable {E : Host → Prop}

@[simp] theorem wp_ofExcept {α : Type} {x : Except String α} {Q : α → Host → Prop}
    : wp (ofExcept x) Q E host ↔ (∀ a, x = .ok a → Q a host) ∧
      (∀ e, x = .error e → E host) := by
  cases x with
  | ok a => simp [ofExcept]
  | error e => simp [ofExcept]

@[simp] theorem wp_refuseIf {condition : Bool} {error : String}
    : wp (refuseIf condition error) Q E host ↔
      (condition = true → E host) ∧ (condition = false → Q () host) := by
  cases condition with
  | false => simp [refuseIf]
  | true => simp [refuseIf]

@[simp] theorem wp_refuseOn {error : Option String} :
    wp (refuseOn error) Q E host ↔ (error ≠ none → E host) ∧ (error = none → Q () host) := by
  cases error with
  | none => simp [refuseOn]
  | some e => simp [refuseOn]

theorem addAccount_spec : wp (addAccount o program args user shell)
    (fun output t => (output.success = true ∧ taken host.passwd user = false ∧
        t = host.setPasswd (host.passwd ++ [newLine o user shell])) ∨
      (output.success = false ∧ t = host)) (fun t => t = host) host := by
  simp only [addAccount, wp_bind, wp_ofExcept, wp_get, wp_ite, wp_pure, wp_set]
  refine ⟨fun output _ => ⟨fun failed => ?_, fun success => ⟨fun _ => ?_, fun free => ?_⟩⟩,
    fun _ _ => trivial⟩
  · exact .inr ⟨by simpa using failed, trivial⟩
  · exact .inr ⟨rfl, trivial⟩
  · exact .inl ⟨by simpa using success, by simpa using free, trivial⟩

theorem dropAccount_spec : wp (dropAccount o program args user)
    (fun output t => (output.success = true ∧
        t = host.setPasswd (host.passwd.filter (·.head? ≠ some user))) ∨
      (output.success = false ∧ t = host)) (fun t => t = host) host := by
  simp only [dropAccount, wp_bind, wp_ofExcept, wp_get, wp_ite, wp_pure, wp_set]
  refine ⟨fun output _ => ⟨fun failed => ?_, fun success => ⟨fun _ => ?_, fun _ => ?_⟩⟩,
    fun _ _ => trivial⟩
  · exact .inr ⟨by simpa using failed, trivial⟩
  · exact .inr ⟨rfl, trivial⟩
  · exact .inl ⟨by simpa using success, trivial⟩

theorem orElse_spec {first second : Handler CommandOutput}
    (one : wp first (fun output t => (output.success = true ∧ P t) ∨
      (output.success = false ∧ t = host)) (fun t => t = host) host)
    (other : wp second (fun output t => (output.success = true ∧ P t) ∨
      (output.success = false ∧ t = host)) (fun t => t = host) host) :
    wp (orElse first second) (fun output t => (output.success = true ∧ P t) ∨
      (output.success = false ∧ t = host)) (fun t => t = host) host := by
  rw [orElse, wp_bind]
  refine wp_mono one (fun output t ended => ?_) fun _ same => same
  rw [wp_ite, wp_pure]
  refine ⟨fun _ => ended, fun failed => ?_⟩
  rcases ended with ⟨success, _⟩ | ⟨_, rfl⟩
  · exact absurd success failed
  · exact other

theorem unless_spec {h : Handler CommandOutput} {error : CommandOutput → String}
    (run : wp h (fun output t => (output.success = true ∧ P t) ∨
      (output.success = false ∧ t = host)) (fun t => t = host) host) :
    wp (do let result ← h; if !result.success then throw (error result)) (fun _ t => P t)
      (fun t => t = host) host := by
  rw [wp_bind]
  refine wp_mono run (fun output t ended => ?_) fun _ same => same
  rw [wp_ite, wp_throw, wp_pure]
  rcases ended with ⟨success, done⟩ | ⟨failed, same⟩
  · exact ⟨fun failed => by simp [success] at failed, fun _ => done⟩
  · exact ⟨fun _ => same, fun success => by simp [failed] at success⟩

theorem createAccount_spec : wp (createAccount users o user group shell)
    (fun _ t => taken host.passwd user = false ∧
      t = host.setPasswd (host.passwd ++ [newLine o user shell])) (fun t => t = host) host := by
  unfold createAccount
  split
  · exact unless_spec (orElse_spec addAccount_spec addAccount_spec)
  · split
    · exact unless_spec (orElse_spec addAccount_spec addAccount_spec)
    · rfl

theorem removeAccount_spec : wp (removeAccount users o user)
    (fun _ t => t = host.setPasswd (host.passwd.filter (·.head? ≠ some user)))
    (fun t => t = host) host := by
  unfold removeAccount
  split
  · exact unless_spec (orElse_spec dropAccount_spec dropAccount_spec)
  · split
    · exact unless_spec (orElse_spec dropAccount_spec dropAccount_spec)
    · rfl

theorem removeAccount_ok {output : CommandOutput} (found : users.which "userdel" = some program)
    (ran : o.run program ["-r", user] "" = .ok output) (success : output.success = true)
    (made : taken host.passwd user = true) :
    removeAccount users o user host =
      .ok () (host.setPasswd (host.passwd.filter (·.head? ≠ some user))) := by
  simp only [removeAccount, found]
  simp [orElse, dropAccount, ran, success, made, ofExcept, bind, EStateM.bind, pure, EStateM.pure,
    run_get, run_set]

theorem setPassword_spec {password : String} : wp (setPassword users o user password)
    (fun _ t => t = host) (fun t => t = host) host := by
  unfold setPassword
  split
  · rfl
  · simp only [wp_bind, wp_ofExcept, wp_ite, wp_throw, wp_pure]
    exact ⟨fun _ _ => ⟨fun _ => trivial, fun _ => trivial⟩, fun _ _ => trivial⟩

theorem filter_newLine (free : taken host.passwd user = false) :
    (host.passwd ++ [newLine o user shell]).filter (·.head? ≠ some user) = host.passwd := by
  rw [List.filter_append, List.filter_eq_self.mpr fun line mem => ?_]
  · simp [newLine]
  · rw [taken, List.any_eq_false] at free
    simpa using free line mem

end MailStack.Priv
