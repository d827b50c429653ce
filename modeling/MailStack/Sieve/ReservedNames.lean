import MailStack.Maildir.RootFrame
import MailStack.Sieve.Scripts

/-! The names in the root of a store that its own files have, and the names of folders: what clients
call a folder cannot reach the former, but for the one folder that stands where the script is. -/

namespace MailStack.Sieve

open Lib Maildir

def scriptFile : String := ".sieve"
def vacationState : String := ".mailstack-vacation"
def vacationLock : String := ".mailstack-vacation.lock"
def scriptsDir : String := "sieve"
def activeFile : String := ".active"
def pop3Lock : String := ".mailstack-pop3.lock"

/-- What the store, the filter and the POP3 server keep in the root. -/
def ownNames : List String :=
  [Root.uidlistFile, Root.uidlistLock, Root.keywordsFile, Root.keywordsLock, Root.specialUseFile,
    Root.expungedFile, Root.quotaFile, Root.quotaLock, Root.metadataFile, Root.metadataLock,
    Root.serverMetadataFile, Root.serverMetadataLock, Root.aclFile, Root.aclLock, Root.usageFile,
    Root.subscriptionsFile, Root.subscriptionsLock, scriptFile, vacationState, vacationLock,
    scriptsDir, pop3Lock, "cur", "new", "tmp"]

def Own (path : Path) : Prop := ∃ name ∈ ownNames, [name] <+: path

/-- What is found when a file is read. Nothing is below a file. -/
def entryAt (root : Root) (path : Path) : Option Entry :=
  if path.length > 1 && root.isFile path.dropLast then some .unreadable
  else
    (root.get path).map fun
      | .file data => .file data
      | .dir => .unreadable

def scriptArea (root : Root) : ScriptArea where
  sieve := entryAt root [scriptFile]
  active := entryAt root [scriptsDir, activeFile]
  scripts := (FileTree.children [scriptsDir] root).filterMap fun name =>
    (entryAt root [scriptsDir, name]).map fun entry => (name, entry)

/-- A name that an entry of a directory can have. -/
def IsEntryName (name : String) : Prop := name ≠ "" ∧ name ≠ "." ∧ name ≠ ".." ∧ '/' ∉ name.toList

theorem own_names_apart : ∀ own ∈ ownNames, own.toList.head? = some '.' → own = scriptFile ∨
    (normalizeFolderName (String.ofList own.toList.tail)).isOk = false := by
  decide +kernel

theorem folderPath_scriptFolder :
    Root.folderPath Root.scriptFolder = .ok [scriptFile] := by decide +kernel

theorem own_eq_scriptFile {own name : String} (kept : own ∈ ownNames) (eq : own = "." ++ name)
    (accepted : (normalizeFolderName name).isOk = true) : name = Root.scriptFolder := by
  have chars : own.toList = '.' :: name.toList := by
    rw [eq, String.toList_append]
    rfl
  have tail : String.ofList own.toList.tail = name := by
    rw [chars]
    simp
  rcases own_names_apart own kept (by rw [chars]; rfl) with rfl | refused
  · rw [← tail]
    decide
  · rw [tail, accepted] at refused
    cases refused

variable {name : String} {calls : List RootCall} {rest : Path}

theorem normalizeFolderName_chars (accepted : normalizeFolderName name = .ok name)
    (other : name ≠ inbox) : name ≠ "" ∧ name.toList.head? ≠ some '.' ∧ '/' ∉ name.toList := by
  unfold normalizeFolderName at accepted
  split_ifs at accepted with first empty long kept ends bad
  · exact absurd (Except.ok.inj accepted).symm other
  · split at accepted
    · cases accepted
    · cases accepted
  · refine ⟨?_, ?_, ?_⟩
    · simpa using empty
    · intro dot
      rw [dot] at ends
      exact ends rfl
    · intro slash
      refine bad (List.any_eq_true.mpr ⟨'/', slash, ?_⟩)
      decide

variable {path : Path}

/-- The path of a folder is an entry of the root, and `INBOX` is the root. -/
theorem folderPath_direct (found : Root.folderPath name = .ok path) :
    (isInbox name = true ∧ path = []) ∨ ∃ entry, path = [entry] ∧ IsEntryName entry := by
  rcases Root.folderPath_cases found with inInbox | ⟨accepted, other, rfl⟩
  · exact .inl inInbox
  · obtain ⟨full, first, slash⟩ := normalizeFolderName_chars accepted other
    have chars : ("." ++ name).toList = '.' :: name.toList := by
      rw [String.toList_append]
      rfl
    refine .inr ⟨_, rfl, ?_, ?_, ?_, ?_⟩
    · intro eq
      rw [eq] at chars
      exact absurd chars (by simp)
    · intro eq
      rw [eq] at chars
      exact full (String.toList_inj.mp (List.cons.inj chars).2.symm)
    · intro eq
      rw [eq] at chars
      have rest : ['.'] = name.toList := (List.cons.inj chars).2
      rw [← rest] at first
      exact first rfl
    · rw [chars, List.mem_cons, not_or]
      exact ⟨by decide, slash⟩

theorem folderPath_own_iff (found : Root.folderPath name = .ok path) :
    (∃ own ∈ ownNames, path = [own]) ↔ name = Root.scriptFolder := by
  constructor
  · rintro ⟨own, kept, rfl⟩
    rcases Root.folderPath_cases found with ⟨-, empty⟩ | ⟨accepted, -, eq⟩
    · cases empty
    · refine own_eq_scriptFile kept (List.cons.inj eq).1 ?_
      rw [accepted]
      rfl
  · rintro rfl
    rw [folderPath_scriptFolder] at found
    exact ⟨scriptFile, by decide, (Except.ok.inj found).symm⟩

theorem folderPath_injective {a b : String} (found : Root.folderPath a = .ok path)
    (found' : Root.folderPath b = .ok path) : a = b ∨ isInbox a = true ∧ isInbox b = true := by
  rcases Root.folderPath_cases found with ⟨spelled, rfl⟩ | ⟨-, -, rfl⟩
  · rcases Root.folderPath_cases found' with ⟨spelled', -⟩ | ⟨-, -, eq⟩
    · exact .inr ⟨spelled, spelled'⟩
    · cases eq
  · rcases Root.folderPath_cases found' with ⟨-, eq⟩ | ⟨-, -, eq⟩
    · cases eq
    · have same : ("." ++ a).toList = ("." ++ b).toList := by rw [(List.cons.inj eq).1]
      rw [String.toList_append, String.toList_append] at same
      exact .inl (String.toList_inj.mp (List.append_cancel_left same))

theorem not_inFolder_of_own (own : Own path) : ¬Root.InFolder path := by
  rintro ⟨name, accepted, -, other, below⟩
  obtain ⟨kept, mem, above⟩ := own
  obtain ⟨rest, rfl⟩ := below
  obtain ⟨rest', eq⟩ := above
  refine other (own_eq_scriptFile mem (List.cons.inj eq).1 ?_)
  rw [accepted]
  rfl

section

variable {root root' : Root}

theorem entryAt_congr (here : root'.get path = root.get path)
    (above : path.length > 1 → root'.get path.dropLast = root.get path.dropLast) :
    entryAt root' path = entryAt root path := by
  unfold entryAt Root.isFile
  rw [here]
  by_cases deep : path.length > 1
  · rw [above deep]
  · simp [deep]

theorem lookup_scripts (name : String) : (scriptArea root).scripts.lookup name =
    if (root.get [scriptsDir, name]).isSome then entryAt root [scriptsDir, name] else none := by
  have listed : name ∈ FileTree.children [scriptsDir] root ↔
      (root.get [scriptsDir, name]).isSome = true := FileTree.mem_children
  have lookup (names : List String) :
      (names.filterMap fun n => (entryAt root [scriptsDir, n]).map fun e => (n, e)).lookup name =
        if name ∈ names then entryAt root [scriptsDir, name] else none := by
    induction names with
    | nil => rfl
    | cons first rest ih =>
      rw [List.filterMap_cons]
      by_cases same : name = first
      · subst same
        rw [if_pos List.mem_cons_self]
        cases found : entryAt root [scriptsDir, name] with
        | none => simp only [Option.map_none, ih, found, ite_self]
        | some entry => simp
      · have skip : name ∈ first :: rest ↔ name ∈ rest := by simp [same]
        cases entryAt root [scriptsDir, first] with
        | none => simp only [Option.map_none, ih, skip]
        | some entry =>
          show List.lookup name ((first, entry) :: _) = _
          rw [List.lookup_cons, beq_eq_false_iff_ne.mpr same, ih]
          simp only [skip]
  rw [scriptArea, lookup]
  simp only [listed]

theorem loadScript_congr {area area' : ScriptArea} (sieve : area'.sieve = area.sieve)
    (active : area'.active = area.active)
    (scripts : ∀ name, area'.scripts.lookup name = area.scripts.lookup name) :
    loadScript area' = loadScript area := by
  unfold loadScript activeScriptName loadNamed getScript loadSieve
  simp only [sieve, active, scripts]

end

/-- What calls on folders leave as it is: each entry that is kept in the root, but for what the
calls change there on purpose; so the script that is loaded, the limits, and the directories of
`INBOX`. -/
structure Undisturbed (calls : List RootCall) (root root' : Root) : Prop where
  own : ∀ path, Own path → (∀ call ∈ calls, ¬Root.Bookkeeping call path) →
    root'.get path = root.get path
  script : loadScript (scriptArea root') = loadScript (scriptArea root)
  limits : root'.quotaLimits = root.quotaLimits
  inbox : ∀ sub ∈ ["cur", "new", "tmp"], root'.get [sub] = root.get [sub]

theorem own_after (failing : Path → Path → Bool) {root : Root}
    (others : ∀ call ∈ calls, ¬Root.Names call Root.scriptFolder) (own : Own path)
    (left : ∀ call ∈ calls, ¬Root.Bookkeeping call path) :
    (root.after failing calls).get path = root.get path := by
  induction calls generalizing root with
  | nil => rfl
  | cons call calls ih =>
    have kept : Keeps (Root.Near (fun q => Root.InFolder q ∨ Root.Bookkeeping call q) root)
        (call.handler failing) := Root.keeps_handler (others call List.mem_cons_self)
    refine (ih (fun c mem => others c (List.mem_cons_of_mem _ mem))
      fun c mem => left c (List.mem_cons_of_mem _ mem)).trans ?_
    refine Keeps.finalState kept (FileTree.Same.refl _ _) path ?_
    rintro (inFolder | kept)
    · exact not_inFolder_of_own own inFolder
    · exact left call List.mem_cons_self kept

def changedNames : List String :=
  [Root.subscriptionsFile, Root.subscriptionsLock, Root.usageFile, Root.quotaLock] ++ Root.movedMeta

theorem not_bookkeeping (kept : name ∉ changedNames)
    (short : name ∈ ["cur", "new"] → rest = []) (call : RootCall) :
    ¬Root.Bookkeeping call (name :: rest) := by
  have first {other : String} {path : Path} (known : other ∈ changedNames)
      (eq : name :: rest = other :: path) : False :=
    kept ((List.cons.inj eq).1 ▸ known)
  cases call with
  | create folder => exact id
  | delete folder =>
    rintro (eq | eq | eq | eq)
    all_goals exact first (by decide) eq
  | rename old new =>
    rintro (eq | eq | ⟨-, ⟨sub, mem, file, tail, eq⟩ | ⟨file, mem, tail, eq⟩⟩)
    · exact first (by decide) eq
    · exact first (by decide) eq
    · obtain ⟨rfl, tails⟩ := List.cons.inj eq
      rw [short mem] at tails
      cases tails
    · exact first (List.mem_append_right _ mem) eq.symm

theorem get_after (failing : Path → Path → Bool) {root : Root}
    (others : ∀ call ∈ calls, ¬Root.Names call Root.scriptFolder)
    (own : name ∈ ownNames) (kept : name ∉ changedNames)
    (short : name ∈ ["cur", "new"] → rest = []) :
    (root.after failing calls).get (name :: rest) = root.get (name :: rest) :=
  own_after failing others ⟨name, own, rest, rfl⟩ fun call _ => not_bookkeeping kept short call

end MailStack.Sieve
