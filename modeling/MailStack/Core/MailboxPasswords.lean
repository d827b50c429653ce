import MailStack.Core.Password
import MailStack.Lib.Table

/-! The file of the mailbox passwords: a record for each normalised name. -/

namespace MailStack.Core

open Lib

/-- What there is to read in a file; the errors are the texts that reading and parsing give. -/
inductive File (α : Type)
  | missing
  | unreadable (error : String)
  | malformed (error : String)
  | holds (a : α)

/-- Whether an access to a file fails, at its lock and at its write, with the text of the error. -/
structure Access where
  lock : Option String := none
  write : Option String := none

namespace MailboxPasswords

def key (user : String) : String := toAsciiLowercase (trim user)

def candidateKeys (user : String) : List String :=
  let normalized := key user
  match splitOnce '@' normalized with
  | some (localPart, _) =>
    if !localPart.isEmpty && localPart ≠ normalized then [normalized, localPart] else [normalized]
  | none => [normalized]

abbrev Records := Table String PasswordRecord

def load (path : String) : File Records → Except String Records
  | .missing => .ok ∅
  | .unreadable error => .error s!"io error on {path}: {error}"
  | .malformed error => .error error
  | .holds records => .ok records

def get (path : String) (file : File Records) (user : String) :
    Except String (Option PasswordRecord) :=
  (load path file).map fun records => records.get (key user)

def upsert (path : String) (access : Access) (record : PasswordRecord) (file : File Records) :
    Except String (File Records) := do
  let userKey := key record.username
  if userKey.isEmpty then throw "邮箱口令记录的用户名不得为空"
  if let some error := access.lock then throw error
  let records ← load path file
  if let some error := access.write then throw error
  pure (.holds (records.put userKey record))

/-- Whether there was a record, and the file without it. -/
def remove (path : String) (access : Access) (user : String) (file : File Records) :
    Except String (Bool × File Records) := do
  if let some error := access.lock then throw error
  let records ← load path file
  match records.get (key user) with
  | none => pure (false, file)
  | some _ =>
    if let some error := access.write then throw error
    pure (true, .holds (records.remove (key user)))

/-- The first of the names that has a record. -/
def findRecord (path : String) (file : File Records) :
    List String → Except String (Option PasswordRecord)
  | [] => .ok none
  | name :: names =>
    match get path file name with
    | .ok (some record) => .ok (some record)
    | .ok none => findRecord path file names
    | .error error => .error error

def recordAt (path : String) (file : File Records) (name : String) : Option PasswordRecord :=
  match load path file with
  | .ok records => records.get name
  | .error _ => none

variable {path user name : String} {access : Access} {record : PasswordRecord}
  {file file' : File Records}

theorem key_eq_self (h : ∀ c ∈ user.toList, isWhitespace c = false ∧ c.isUpper = false) :
    key user = user := by
  have trimmed : trim user = user := trim_visible fun c mem => (h c mem).1
  rw [key, trimmed, toAsciiLowercase, List.map_congr_left fun c mem => toLower_eq_self (h c mem).2,
    List.map_id', String.ofList_toList]

@[simp] theorem key_key (user : String) : key (key user) = key user := by
  rw [key, key, trim_toAsciiLowercase, trim_trim, toAsciiLowercase_toAsciiLowercase]

theorem candidateKeys_congr {user' : String} (same : key user = key user') :
    candidateKeys user = candidateKeys user' := by
  unfold candidateKeys
  rw [same]

theorem upsert_ok (done : upsert path access record file = .ok file') :
    ∃ records, load path file = .ok records ∧
      file' = .holds (records.put (key record.username) record) := by
  simp only [upsert] at done
  split at done
  · cases done
  · cases locked : access.lock with
    | some e => rw [locked] at done; cases done
    | none =>
      cases read : load path file with
      | error e => rw [locked, read] at done; cases done
      | ok records =>
        cases written : access.write with
        | some e => rw [locked, read, written] at done; cases done
        | none =>
          rw [locked, read, written] at done
          cases done
          exact ⟨records, rfl, rfl⟩

theorem recordAt_upsert (done : upsert path access record file = .ok file') :
    recordAt path file' name =
      if name = key record.username then some record else recordAt path file name := by
  obtain ⟨records, read, rfl⟩ := upsert_ok done
  rw [recordAt, recordAt, read]
  by_cases same : name = key record.username
  · rw [if_pos same, same]
    exact Table.get_put
  · rw [if_neg same]
    exact Table.get_put_ne same

theorem recordAt_remove {found : Bool} (done : remove path access user file = .ok (found, file')) :
    recordAt path file' name = if name = key user then none else recordAt path file name := by
  simp only [remove] at done
  cases locked : access.lock with
  | some e => rw [locked] at done; cases done
  | none =>
    cases read : load path file with
    | error e => rw [locked, read] at done; cases done
    | ok records =>
      cases stored : records.get (key user) with
      | none =>
        simp only [locked, read, bind, Except.bind, stored] at done
        cases done
        by_cases same : name = key user
        · rw [if_pos same, same, recordAt, read]
          exact stored
        · rw [if_neg same]
      | some record =>
        simp only [locked, read, bind, Except.bind, stored] at done
        cases written : access.write with
        | some e => rw [written] at done; cases done
        | none =>
          rw [written] at done
          cases done
          rw [recordAt, recordAt, read]
          by_cases same : name = key user
          · rw [if_pos same, same]
            exact Table.get_remove
          · rw [if_neg same]
            exact Table.get_remove_ne same

theorem findRecord_eq_some (names : List String) {name : String} (mem : name ∈ names)
    (stored : recordAt path file (key name) ≠ none) : ∃ record, ∃ found ∈ names,
      findRecord path file names = .ok (some record) ∧
        recordAt path file (key found) = some record := by
  induction names with
  | nil => cases mem
  | cons first names ih =>
    cases read : load path file with
    | error e => rw [recordAt, read] at stored; exact absurd rfl stored
    | ok records =>
      have at_ : ∀ name, recordAt path file (key name) = records.get (key name) := fun name => by
        rw [recordAt, read]
      rw [findRecord, get, read, Except.map]
      cases here : records.get (key first) with
      | some record =>
        exact ⟨record, first, List.mem_cons_self, rfl, (at_ first).trans here⟩
      | none =>
        have later : name ∈ names := by
          rcases List.mem_cons.mp mem with rfl | later
          · exact absurd ((at_ name).trans here) stored
          · exact later
        obtain ⟨record, found, inNames, ran, same⟩ := ih later
        exact ⟨record, found, List.mem_cons_of_mem _ inNames, ran, same⟩

theorem findRecord_of_none (names : List String)
    (none : ∀ name ∈ names, recordAt path file (key name) = none) (record : PasswordRecord) :
    findRecord path file names ≠ .ok (some record) := by
  induction names with
  | nil => exact nofun
  | cons first names ih =>
    cases read : load path file with
    | error e =>
      rw [findRecord, get, read]
      exact nofun
    | ok records =>
      have here := none first List.mem_cons_self
      rw [recordAt, read] at here
      simp only at here
      rw [findRecord, get, read, Except.map, here]
      exact ih fun name mem => none name (List.mem_cons_of_mem _ mem)

theorem recordAt_of_remove_error {e : String} (failed : remove path {} user file = .error e) :
    recordAt path file name = none := by
  cases read : load path file with
  | error e => rw [recordAt, read]
  | ok records =>
    simp only [remove, read, bind, Except.bind] at failed
    cases stored : records.get (key user) <;> rw [stored] at failed <;> cases failed

end MailboxPasswords

end MailStack.Core
