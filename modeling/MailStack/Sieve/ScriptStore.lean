import MailStack.Lib.Table
import MailStack.Sieve.Scripts

/-! The calls that change the script area of a mailbox, where each file operation of a call may
fail. -/

namespace MailStack.Sieve

open Lib Maildir

def maxScripts : Nat := 20

/-- The entries of the directory `sieve` beside `.active`, the file `sieve/.active` and the file
`.sieve`. -/
structure ScriptStore where
  entries : Table String Entry
  active : Option Entry
  sieve : Option Entry

/-- How a write to a file fails: the file is not opened, or so much is written. -/
inductive WriteFault
  | refused
  | stopped (written : Nat)

/-- The file operations of a call that fail. -/
structure Faults where
  makeDir : Bool
  readActive : Bool
  readDir : Bool
  /-- The entries whose type cannot be read. -/
  unseen : String → Bool
  sourceStat : Bool
  targetStat : Bool
  write : Option WriteFault
  rename : Bool
  cleanup : Bool
  remove : Bool
  removeActive : Bool

def Faults.none : Faults :=
  { makeDir := false
    readActive := false
    readDir := false
    unseen := fun _ => false
    sourceStat := false
    targetStat := false
    write := Option.none
    rename := false
    cleanup := false
    remove := false
    removeActive := false }

def Entry.isFile : Entry → Bool
  | .file _ => true
  | .unreadable => false

namespace ScriptStore

def area (store : ScriptStore) : ScriptArea :=
  { sieve := store.sieve
    active := store.active
    scripts := store.entries.entries.map fun e => (e.1, e.2) }

def readActive (faults : Faults) (store : ScriptStore) : Except MailError (Option String) :=
  if faults.readActive then .error (.io "sieve/.active") else activeScriptName store.area

def listScripts (faults : Faults) (store : ScriptStore) :
    Except MailError (List (String × Bool)) := do
  let active ← store.readActive faults
  if faults.readDir then .error (.io "sieve")
  else
    let seen := store.entries.entries.filter fun e => e.2.isFile && !faults.unseen e.1
    let scripts := (seen.map (·.1)).filter validScriptName
    pure ((scripts.map fun name => (name, decide (active = some name))).mergeSort
      fun a b => decide (a.1 ≤ b.1))

def tempName (name : String) (process sequence : Nat) : String :=
  "." ++ name ++ ".tmp." ++ toString process ++ "." ++ toString sequence

/-- A file is written beside its place and then put there. -/
def writeAtomic (faults : Faults) (temp name : String) (data : List UInt8) (store : ScriptStore) :
    Except MailError Unit × ScriptStore :=
  if store.entries.get temp ≠ none then (.error (.io temp), store)
  else
    match faults.write with
    | some .refused => (.error (.io temp), store)
    | some (.stopped written) =>
      (.error (.io temp),
        { store with entries := store.entries.put temp (.file (data.take written)) })
    | none =>
      if faults.rename then
        (.error (.io name),
          if faults.cleanup then { store with entries := store.entries.put temp (.file data) }
          else store)
      else (.ok (), { store with entries := store.entries.put name (.file data) })

def putScript (faults : Faults) (temp name source : String) (store : ScriptStore) :
    Except MailError Unit × ScriptStore :=
  if !validScriptName name then (.error (.invalid "invalid script name"), store)
  else if (bytes source).length > maxScriptBytes then
    (.error (.invalid "Sieve script exceeds 64 KiB"), store)
  else if faults.makeDir then (.error (.io "sieve"), store)
  else
    match store.listScripts faults with
    | .error error => (.error error, store)
    | .ok existing =>
      if existing.length ≥ maxScripts ∧ !existing.any (·.1 = name) then
        (.error (.invalid "too many Sieve scripts"), store)
      else store.writeAtomic faults temp name (bytes source)

def isFile (fails : Bool) (store : ScriptStore) (name : String) : Bool :=
  !fails && (store.entries.get name).any Entry.isFile

/-- The file `.active` is written in place. -/
def writeActive (faults : Faults) (name : String) (store : ScriptStore) :
    Except MailError Unit × ScriptStore :=
  match faults.write with
  | none => (.ok (), { store with active := some (.file (bytes name)) })
  | some .refused => (.error (.io "sieve/.active"), store)
  | some (.stopped written) =>
    (.error (.io "sieve/.active"),
      { store with active := some (.file ((bytes name).take written)) })

def setActive (faults : Faults) (name : Option String) (store : ScriptStore) :
    Except MailError Unit × ScriptStore :=
  if faults.makeDir then (.error (.io "sieve"), store)
  else
    match name with
    | some name =>
      if !validScriptName name then (.error (.invalid "invalid script name"), store)
      else if !store.isFile faults.sourceStat name then (.error (.notFound name), store)
      else store.writeActive faults name
    | none =>
      if store.active = none then (.ok (), store)
      else if faults.removeActive then (.error (.io "sieve/.active"), store)
      else (.ok (), { store with active := none })

def deleteScript (faults : Faults) (name : String) (store : ScriptStore) :
    Except MailError Unit × ScriptStore :=
  if !validScriptName name then (.error (.invalid "invalid script name"), store)
  else if store.entries.get name = none then (.error (.notFound name), store)
  else if faults.remove then (.error (.io name), store)
  else
    let store := { store with entries := store.entries.remove name }
    match store.readActive faults with
    | .error error => (.error error, store)
    | .ok active =>
      if active = some name ∧ !faults.removeActive then (.ok (), { store with active := none })
      else (.ok (), store)

def renameScript (faults : Faults) (source target : String) (store : ScriptStore) :
    Except MailError Unit × ScriptStore :=
  if !validScriptName source || !validScriptName target then
    (.error (.invalid "invalid script name"), store)
  else if !store.isFile faults.sourceStat source then (.error (.notFound source), store)
  else if !faults.targetStat ∧ store.entries.get target ≠ none then
    (.error (.alreadyExists target), store)
  else
    match faults.rename, store.entries.get source with
    | false, some entry =>
      let store :=
        { store with entries := (store.entries.remove source).put target entry }
      match store.readActive faults with
      | .error error => (.error error, store)
      | .ok active =>
        if active = some source then store.writeActive faults target else (.ok (), store)
    | _, _ => (.error (.io target), store)

end ScriptStore

inductive ScriptCall
  | put (name source : String) (process sequence : Nat)
  | setActive (name : Option String)
  | delete (name : String)
  | rename (source target : String)

def ScriptCall.run (faults : Faults) : ScriptCall → ScriptStore →
    Except MailError Unit × ScriptStore
  | put name source process sequence =>
    ScriptStore.putScript faults (ScriptStore.tempName name process sequence) name source
  | setActive name => ScriptStore.setActive faults name
  | delete name => ScriptStore.deleteScript faults name
  | rename source target => ScriptStore.renameScript faults source target

end MailStack.Sieve
