import MailStack.Maildir.Folder

/-! The script area of a mailbox and the script that deliveries use. -/

namespace MailStack.Sieve

open Lib Maildir

def maxScriptBytes : Nat := 64 * 1024

/-- What stands under a path: a file, or something that cannot be read as one. -/
inductive Entry
  | file (data : List UInt8)
  | unreadable

/-- `sieve` is the file `.sieve`, `active` the file `sieve/.active`, and `scripts` are the other
entries of the directory `sieve`. -/
structure ScriptArea where
  sieve : Option Entry
  active : Option Entry
  scripts : List (String × Entry)

/-- The contents of a file, or none if there is nothing under the path. -/
def readEntry (path : String) : Option Entry → Except MailError (Option (List UInt8))
  | none => .ok none
  | some (.file data) => .ok (some data)
  | some .unreadable => .error (.io path)

def scriptNameByte (c : Char) : Bool := c.isAlphanum || c = '.' || c = '_' || c = '-'

/-- The names that `validate_script_name` accepts. -/
def validScriptName (name : String) : Bool :=
  !name.isEmpty && (bytes name).length ≤ 128 && name.toList.head? ≠ some '.' &&
    name.toList.all scriptNameByte

def validateScriptName (name : String) : Except MailError Unit :=
  if validScriptName name then .ok () else .error (.invalid "invalid script name")

def activeScriptName (area : ScriptArea) : Except MailError (Option String) := do
  match ← readEntry "sieve/.active" area.active with
  | none => pure none
  | some data =>
    match fromUtf8 data with
    | none => .error (.io "sieve/.active")
    | some content => pure (if (trim content).isEmpty then none else some (trim content))

def getScript (area : ScriptArea) (name : String) : Except MailError (Option String) := do
  validateScriptName name
  let data ← readEntry ("sieve/" ++ name) (area.scripts.lookup name)
  pure (data.map fromUtf8Lossy)

/-- The script of the file `.sieve`. -/
def loadSieve (area : ScriptArea) : Except MailError (Option String) := do
  match ← readEntry ".sieve" area.sieve with
  | none => pure none
  | some data =>
    if data.length > maxScriptBytes then .error (.invalid "Sieve script exceeds 64 KiB")
    else pure (some (fromUtf8Lossy data))

/-- The script of the name, or the file `.sieve` where it is missing. -/
def loadNamed (area : ScriptArea) (name : String) : Except MailError (Option String) := do
  match ← getScript area name with
  | some source => pure (some source)
  | none => loadSieve area

def loadScript (area : ScriptArea) : Except MailError (Option String) := do
  match ← activeScriptName area with
  | none => loadSieve area
  | some name => loadNamed area name

/-- The file `.sieve` is absent, or readable and not too long. -/
def SieveReadable : Option Entry → Prop
  | none => True
  | some .unreadable => False
  | some (.file data) => data.length ≤ maxScriptBytes

/-- The script of a valid name can be read, or it is missing and `.sieve` stands in for it. -/
def NamedReadable (area : ScriptArea) (name : String) : Prop :=
  validScriptName name = true ∧
    match area.scripts.lookup name with
    | some (.file _) => True
    | some .unreadable => False
    | none => SieveReadable area.sieve

/-- Everything that `load_script` looks at can be read, is short enough and has a valid name. -/
def ScriptArea.Readable (area : ScriptArea) : Prop :=
  match area.active with
  | none => SieveReadable area.sieve
  | some .unreadable => False
  | some (.file data) =>
    match fromUtf8 data with
    | none => False
    | some content =>
      if (trim content).isEmpty then SieveReadable area.sieve
      else NamedReadable area (trim content)

theorem loadSieve_isOk (area : ScriptArea) :
    (loadSieve area).isOk = true ↔ SieveReadable area.sieve := by
  unfold loadSieve SieveReadable
  cases area.sieve with
  | none => exact ⟨fun _ => trivial, fun _ => rfl⟩
  | some entry =>
    cases entry with
    | unreadable => exact ⟨fun h => absurd h (by decide), fun h => h.elim⟩
    | file data =>
      show (if data.length > maxScriptBytes then _ else _ : Except MailError (Option String)).isOk =
        true ↔ _
      split
      · rename_i long
        exact ⟨fun h => absurd h (by decide), fun short => absurd long (Nat.not_lt.mpr short)⟩
      · rename_i short
        exact ⟨fun _ => Nat.not_lt.mp short, fun _ => rfl⟩

theorem getScript_valid {area : ScriptArea} {name : String} (valid : validScriptName name = true) :
    getScript area name =
      (readEntry ("sieve/" ++ name) (area.scripts.lookup name)).map (·.map fromUtf8Lossy) := by
  rw [getScript, validateScriptName, if_pos valid]
  rfl

theorem loadNamed_isOk (area : ScriptArea) (name : String) :
    (loadNamed area name).isOk = true ↔ NamedReadable area name := by
  unfold loadNamed NamedReadable
  by_cases valid : validScriptName name = true
  · rw [getScript_valid valid]
    cases area.scripts.lookup name with
    | none => exact (loadSieve_isOk area).trans ⟨fun h => ⟨valid, h⟩, fun h => h.2⟩
    | some entry =>
      cases entry with
      | file data => exact ⟨fun _ => ⟨valid, trivial⟩, fun _ => rfl⟩
      | unreadable => exact ⟨fun h => Bool.noConfusion h, fun h => h.2.elim⟩
  · rw [getScript, validateScriptName, if_neg valid]
    exact ⟨fun h => Bool.noConfusion h, fun h => absurd h.1 valid⟩

theorem activeScriptName_file {area : ScriptArea} {data : List UInt8}
    (active : area.active = some (.file data)) :
    activeScriptName area =
      match fromUtf8 data with
      | none => .error (.io "sieve/.active")
      | some content => .ok (if (trim content).isEmpty then none else some (trim content)) := by
  rw [activeScriptName, active]
  rfl

theorem loadScript_isOk (area : ScriptArea) :
    (loadScript area).isOk = true ↔ area.Readable := by
  unfold loadScript ScriptArea.Readable
  cases active : area.active with
  | none =>
    rw [activeScriptName, active]
    exact loadSieve_isOk area
  | some entry =>
    cases entry with
    | unreadable =>
      rw [activeScriptName, active]
      exact ⟨fun h => Bool.noConfusion h, fun h => h.elim⟩
    | file data =>
      rw [activeScriptName_file active]
      dsimp only
      cases fromUtf8 data with
      | none => exact ⟨fun h => Bool.noConfusion h, fun h => h.elim⟩
      | some content =>
        by_cases blank : (trim content).isEmpty = true
        · simp only [if_pos blank]
          exact loadSieve_isOk area
        · simp only [if_neg blank, bind, Except.bind]
          exact loadNamed_isOk area (trim content)

end MailStack.Sieve
