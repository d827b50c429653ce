import Mathlib
import MailStack.Lib.Utf8
import MailStack.Sieve.ScriptStore

/-! What the calls keep: the script area shows a library of scripts, and each call that succeeds
changes the library as its name says, where no operation fails after the first change of a call. -/

namespace MailStack.Sieve

open Lib Maildir

/-- The scripts that have been put and the name of the active one. -/
structure Library where
  scripts : String → Option String
  active : Option String

namespace Library

def empty : Library :=
  { scripts := fun _ => none
    active := none }

/-- What a call that succeeds does. -/
def after (library : Library) : ScriptCall → Library
  | .put name source _ _ =>
    { library with scripts := Function.update library.scripts name (some source) }
  | .setActive name => { library with active := name }
  | .delete name =>
    { scripts := Function.update library.scripts name none
      active := if library.active = some name then none else library.active }
  | .rename source target =>
    { scripts := Function.update (Function.update library.scripts source none) target
        (library.scripts source)
      active := if library.active = some source then some target else library.active }

end Library

namespace ScriptStore

def contents (store : ScriptStore) (name : String) : Option (List UInt8) :=
  match store.entries.get name with
  | some (.file data) => if validScriptName name then some data else none
  | _ => none

def listed (store : ScriptStore) : Table String Entry :=
  store.entries.retain fun name entry => entry.isFile && validScriptName name

/-- The files hold the scripts of the library. -/
structure Shows (store : ScriptStore) (library : Library) : Prop where
  contents : ∀ name, store.contents name = (library.scripts name).map bytes
  active : activeScriptName store.area = .ok library.active
  stored : ∀ name, library.active = some name → (library.scripts name).isSome = true
  few : store.listed.size ≤ maxScripts

/-- No operation fails after the first change that the call makes. -/
def Harmless (faults : Faults) (store : ScriptStore) : ScriptCall → Prop
  | .put .. => ∀ name, (store.contents name).isSome = true → faults.unseen name = false
  | .setActive (some _) => ∀ written, faults.write ≠ some (.stopped written)
  | .setActive none => True
  | .delete name => store.entries.get name ≠ none → faults.remove = false →
    faults.readActive = false ∧
      (activeScriptName store.area = .ok (some name) → faults.removeActive = false)
  | .rename source target => store.isFile faults.sourceStat source = true → faults.rename = false →
    (faults.targetStat = true → store.entries.get target = none) ∧
      faults.readActive = false ∧
        (activeScriptName store.area = .ok (some source) → faults.write = none)

/-! ### Entries -/

variable {store : ScriptStore} {library : Library} {faults : Faults} {name : String}
  {active : Option String} {entry : Option Entry} {other : ScriptStore}

theorem contents_eq_some {data : List UInt8} : store.contents name = some data ↔
    store.entries.get name = some (.file data) ∧ validScriptName name = true := by
  unfold contents
  split
  next data' found =>
    rw [found]
    split
    next valid => simp [valid]
    next invalid => simp [invalid]
  next other =>
    exact iff_of_false (fun h => by cases h) fun h => other data h.1

theorem mem_listed : name ∈ store.listed ↔ (store.contents name).isSome = true := by
  rw [← AList.lookup_isSome]
  show (store.listed.get name).isSome = true ↔ _
  rw [listed, Table.get_retain, contents]
  cases store.entries.get name with
  | none => rfl
  | some entry =>
    cases entry with
    | unreadable => rfl
    | file data =>
      by_cases valid : validScriptName name = true
      · simp [Entry.isFile, valid]
      · simp [Entry.isFile, valid]

theorem contents_congr
    (same : other.entries.get name = store.entries.get name) :
    other.contents name = store.contents name := by
  unfold contents
  rw [same]

theorem contents_put (entry : Entry) (key : String) :
    contents { store with entries := store.entries.put key entry } name =
      if name = key then
        match entry with
        | .file data => if validScriptName key then some data else none
        | .unreadable => none
      else store.contents name := by
  by_cases same : name = key
  · subst same
    rw [if_pos rfl, contents, Table.get_put]
    cases entry <;> rfl
  · rw [if_neg same]
    exact contents_congr (Table.get_put_ne same)

theorem contents_remove (key : String) :
    contents { store with entries := store.entries.remove key } name =
      if name = key then none else store.contents name := by
  by_cases same : name = key
  · subst same
    rw [if_pos rfl, contents, Table.get_remove]
  · rw [if_neg same]
    exact contents_congr (Table.get_remove_ne same)

theorem few_of_names (names : List String)
    (named : ∀ name, (store.contents name).isSome = true → name ∈ names)
    (short : names.length ≤ maxScripts) : store.listed.size ≤ maxScripts :=
  (Table.size_le_length fun name mem => named name (mem_listed.mp mem)).trans short

theorem mem_keys_listed : name ∈ store.listed.keys ↔ (store.contents name).isSome = true :=
  AList.mem_keys.symm.trans mem_listed

theorem length_keys_listed : store.listed.keys.length = store.listed.size :=
  Table.size_eq_length_keys.symm

/-! ### Reading -/

theorem readActive_eq (reads : faults.readActive = false) :
    store.readActive faults = activeScriptName store.area := by
  rw [readActive, reads]
  rfl

theorem seen_names (unseen : ∀ name, (store.contents name).isSome = true →
    faults.unseen name = false) :
    ((store.entries.entries.filter fun e => e.2.isFile && !faults.unseen e.1).map (·.1)).filter
      validScriptName = store.listed.keys := by
  have all : (store.entries.entries.filter fun e => e.2.isFile && !faults.unseen e.1).filter
      (fun e => validScriptName e.1) =
      store.entries.entries.filter fun e => e.2.isFile && validScriptName e.1 := by
    rw [List.filter_filter]
    refine List.filter_congr fun e mem => ?_
    by_cases script : (e.2.isFile && validScriptName e.1) = true
    · obtain ⟨file, valid⟩ := Bool.and_eq_true_iff.mp script
      have listed : e.1 ∈ store.listed := by
        have kept : e ∈ store.listed.entries := List.mem_filter.mpr ⟨mem, script⟩
        exact AList.mem_keys.mpr (List.mem_map_of_mem kept)
      rw [file, valid, unseen e.1 (mem_listed.mp listed)]
      rfl
    · rw [Bool.eq_false_iff.mpr script]
      cases valid : validScriptName e.1 with
      | false => rfl
      | true =>
        rw [valid, Bool.and_true] at script
        simp [script]
  rw [List.filter_map]
  exact congrArg (List.map (·.1)) all

theorem listScripts_eq (unseen : ∀ name, (store.contents name).isSome = true →
      faults.unseen name = false) {scripts : List (String × Bool)}
    (listed : store.listScripts faults = .ok scripts) :
    scripts.length = store.listed.size ∧
      (scripts.any (·.1 = name) = true ↔ (store.contents name).isSome = true) := by
  unfold listScripts at listed
  cases read : store.readActive faults with
  | error error =>
    rw [read] at listed
    cases listed
  | ok active =>
    rw [read] at listed
    simp only [bind, Except.bind] at listed
    split at listed
    · cases listed
    · obtain rfl := Except.ok.inj listed
      have names := seen_names unseen
      rw [List.length_mergeSort, List.length_map, names, length_keys_listed]
      refine ⟨rfl, ?_⟩
      rw [List.any_eq_true, ← mem_keys_listed]
      constructor
      · rintro ⟨pair, mem, same⟩
        obtain ⟨other, inside, rfl⟩ := List.mem_map.mp (List.mem_mergeSort.mp mem)
        obtain rfl : other = name := by simpa using same
        exact inside
      · intro mem
        refine ⟨_, List.mem_mergeSort.mpr (List.mem_map.mpr ⟨name, mem, rfl⟩), ?_⟩
        exact decide_eq_true rfl

/-! ### Names -/

theorem validScriptName_chars (valid : validScriptName name = true) :
    name ≠ "" ∧ name.toList.head? ≠ some '.' ∧ ∀ c ∈ name.toList, scriptNameByte c = true := by
  simp only [validScriptName, Bool.and_eq_true, Bool.not_eq_true', decide_eq_true_eq,
    List.all_eq_true] at valid
  obtain ⟨⟨⟨full, -⟩, dot⟩, chars⟩ := valid
  refine ⟨?_, dot, chars⟩
  rintro rfl
  exact absurd full (by decide)

theorem tempName_invalid (name : String) (process sequence : Nat) :
    validScriptName (tempName name process sequence) = false := by
  by_contra valid
  have dot := (validScriptName_chars (Bool.not_eq_false _ ▸ valid)).2.1
  exact dot (by simp [tempName])

theorem scriptNameByte_visible {c : Char} (byte : scriptNameByte c = true) :
    isWhitespace c = false := by
  have small : 45 ≤ c.toNat ∧ c.toNat ≤ 122 := by
    simp only [scriptNameByte, Char.isAlphanum, Char.isAlpha, Char.isUpper, Char.isLower,
      Char.isDigit, Bool.or_eq_true, Bool.and_eq_true, decide_eq_true_eq, ge_iff_le,
      UInt32.le_iff_toNat_le] at byte
    have letters : 'A'.val.toNat = 65 ∧ 'Z'.val.toNat = 90 ∧ 'a'.val.toNat = 97 ∧
        'z'.val.toNat = 122 ∧ '0'.val.toNat = 48 ∧ '9'.val.toNat = 57 := by decide
    have same : c.val.toNat = c.toNat := rfl
    rcases byte with ((alphanumeric | rfl) | rfl) | rfl
    · omega
    all_goals decide
  exact isWhitespace_eq_false (by omega)

theorem activeScriptName_written (valid : validScriptName name = true) (store : ScriptStore) :
    activeScriptName (area { store with active := some (.file (bytes name)) }) =
      .ok (some name) := by
  obtain ⟨full, -, chars⟩ := validScriptName_chars valid
  have same : trim name = name :=
    trim_visible fun c mem => scriptNameByte_visible (chars c mem)
  rw [@activeScriptName_file _ (bytes name) rfl, fromUtf8_bytes]
  simp only [same]
  rw [if_neg (by simpa using full)]

/-! ### Calls -/

theorem Shows.congr (shows : store.Shows library)
    (contents : ∀ name, other.contents name = store.contents name)
    (active : other.active = store.active) : other.Shows library := by
  constructor
  case contents => exact fun name => (contents name).trans (shows.contents name)
  case active =>
    rw [← shows.active]
    unfold activeScriptName area
    rw [active]
  case stored => exact shows.stored
  case few =>
    refine few_of_names store.listed.keys (fun name script => ?_) ?_
    · exact mem_keys_listed.mpr (contents name ▸ script)
    · exact length_keys_listed.symm ▸ shows.few

theorem Shows.putInvalid (shows : store.Shows library) {temp : String}
    (invalid : validScriptName temp = false) (data : List UInt8)
    (free : store.entries.get temp = none) :
    Shows { store with entries := store.entries.put temp (.file data) } library := by
  refine shows.congr (fun name => ?_) rfl
  rw [contents_put]
  by_cases same : name = temp
  · subst same
    rw [if_pos rfl, ScriptStore.contents, free]
    simp [invalid]
  · rw [if_neg same]

theorem Shows.put (shows : store.Shows library) (valid : validScriptName name = true)
    (room : store.listed.size < maxScripts ∨ (store.contents name).isSome = true) (source : String)
    (process sequence : Nat) :
    Shows { store with entries := store.entries.put name (.file (bytes source)) }
      (library.after (.put name source process sequence)) := by
  have contents (other : String) :
      ScriptStore.contents { store with entries := store.entries.put name (.file (bytes source)) }
        other =
        if other = name then some (bytes source) else store.contents other := by
    rw [contents_put]
    simp [valid]
  constructor
  case contents =>
    intro other
    rw [contents, Library.after]
    by_cases same : other = name
    · subst same
      simp
    · simp [same, shows.contents]
  case active => exact shows.active
  case stored =>
    intro other active
    have stored := shows.stored other active
    by_cases same : other = name
    · subst same
      simp [Library.after]
    · simp [Library.after, same, stored]
  case few =>
    rcases room with room | script
    · refine few_of_names (name :: store.listed.keys) (fun other script => ?_) ?_
      · rw [contents] at script
        split at script
        next same => exact same ▸ List.mem_cons_self
        · exact List.mem_cons_of_mem _ (mem_keys_listed.mpr script)
      · rw [List.length_cons, length_keys_listed]
        exact room
    · refine few_of_names store.listed.keys (fun other here => ?_) ?_
      · rw [contents] at here
        split at here
        next same => exact same ▸ mem_keys_listed.mpr script
        · exact mem_keys_listed.mpr here
      · exact length_keys_listed.symm ▸ shows.few

/-- A call that fails leaves the library as it was, and one that succeeds changes it. -/
def Keeps (library next : Library) (result : Except MailError Unit × ScriptStore) : Prop :=
  match result.1 with
  | .ok () => result.2.Shows next
  | .error _ => result.2.Shows library

theorem putScript_keeps (shows : store.Shows library) {name source : String}
    {process sequence : Nat}
    (harmless : store.Harmless faults (.put name source process sequence)) :
    Keeps library (library.after (.put name source process sequence))
      (store.putScript faults (tempName name process sequence) name source) := by
  unfold putScript
  by_cases invalid : (!validScriptName name) = true
  · rw [if_pos invalid]
    exact shows
  rw [if_neg invalid]
  have valid : validScriptName name = true := by simpa using invalid
  by_cases long : (bytes source).length > maxScriptBytes
  · rw [if_pos long]
    exact shows
  rw [if_neg long]
  by_cases noDir : faults.makeDir = true
  · rw [if_pos noDir]
    exact shows
  rw [if_neg noDir]
  cases listed : store.listScripts faults with
  | error error => exact shows
  | ok existing =>
    obtain ⟨length, member⟩ := @listScripts_eq store faults name harmless existing listed
    dsimp only
    by_cases full : existing.length ≥ maxScripts ∧ (!existing.any (·.1 = name)) = true
    · rw [if_pos full]
      exact shows
    rw [if_neg full]
    have room : store.listed.size < maxScripts ∨ (store.contents name).isSome = true := by
      rcases not_and_or.mp full with few | present
      · exact .inl (by omega)
      · rw [Bool.not_eq_true, Bool.not_eq_false'] at present
        exact .inr (member.mp present)
    unfold writeAtomic
    by_cases taken : store.entries.get (tempName name process sequence) ≠ none
    · rw [if_pos taken]
      exact shows
    rw [if_neg taken]
    have free := not_not.mp taken
    have left (data : List UInt8) :=
      shows.putInvalid (tempName_invalid name process sequence) data free
    cases faults.write with
    | some fault =>
      cases fault with
      | refused => exact shows
      | stopped written => exact left _
    | none =>
      dsimp only
      by_cases stays : faults.rename = true
      · rw [if_pos stays]
        show Shows _ library
        split
        · exact left _
        · exact shows
      · rw [if_neg stays]
        exact shows.put valid room source process sequence

theorem Shows.setActive (shows : store.Shows library)
    (reads : activeScriptName (area { store with active := entry }) = .ok active)
    (stored : ∀ name, active = some name → (store.contents name).isSome = true) :
    Shows { store with active := entry } (library.after (.setActive active)) := by
  constructor
  case contents => exact shows.contents
  case active => exact reads
  case stored =>
    intro name same
    have script := stored name same
    rw [shows.contents, Option.isSome_map] at script
    exact script
  case few => exact shows.few

theorem isFile_script {fails : Bool} (valid : validScriptName name = true)
    (file : store.isFile fails name = true) : (store.contents name).isSome = true := by
  have found := (Bool.and_eq_true_iff.mp file).2
  unfold contents
  cases entry : store.entries.get name with
  | none =>
    rw [entry] at found
    cases found
  | some entry' =>
    rw [entry] at found
    cases entry' with
    | file data => simp [valid]
    | unreadable => cases found

section

variable (shows : store.Shows library)

include shows

theorem setActive_keeps
    (harmless : store.Harmless faults (.setActive active)) :
    Keeps library (library.after (.setActive active)) (store.setActive faults active) := by
  unfold setActive
  by_cases noDir : faults.makeDir = true
  · rw [if_pos noDir]
    exact shows
  rw [if_neg noDir]
  cases active with
  | none =>
    dsimp only
    by_cases absent : store.active = none
    · rw [if_pos absent]
      have reads : activeScriptName (area { store with active := none }) = .ok none := rfl
      have same : store = { store with active := none } := by rw [← absent]
      show Shows store _
      rw [same]
      exact Shows.setActive (same ▸ shows) reads fun name h => by cases h
    rw [if_neg absent]
    by_cases stays : faults.removeActive = true
    · rw [if_pos stays]
      exact shows
    · rw [if_neg stays]
      exact shows.setActive rfl fun name h => by cases h
  | some name =>
    dsimp only
    by_cases invalid : (!validScriptName name) = true
    · rw [if_pos invalid]
      exact shows
    rw [if_neg invalid]
    have valid : validScriptName name = true := by simpa using invalid
    by_cases missing : (!store.isFile faults.sourceStat name) = true
    · rw [if_pos missing]
      exact shows
    rw [if_neg missing]
    have script := isFile_script valid (by simpa using missing)
    unfold writeActive
    cases write : faults.write with
    | none =>
      refine shows.setActive (activeScriptName_written valid store) fun other same => ?_
      obtain rfl := Option.some.inj same
      exact script
    | some fault =>
      cases fault with
      | refused => exact shows
      | stopped written => exact absurd write (harmless written)

theorem Shows.remove
    (reads : activeScriptName (area { store with active := entry }) =
      .ok (if library.active = some name then none else library.active)) :
    Shows { store with entries := store.entries.remove name, active := entry }
      (library.after (.delete name)) := by
  have contents (other : String) :
      ScriptStore.contents { store with entries := store.entries.remove name, active := entry } other =
        if other = name then none else store.contents other := contents_remove name
  constructor
  case contents =>
    intro other
    rw [contents, Library.after]
    by_cases same : other = name
    · subst same
      simp
    · simp [same, shows.contents]
  case active => exact reads
  case stored =>
    intro other active
    simp only [Library.after] at active ⊢
    split at active
    · cases active
    next kept =>
      have same : other ≠ name := fun same => kept (same ▸ active)
      rw [Function.update_of_ne same]
      exact shows.stored other active
  case few =>
    refine few_of_names store.listed.keys (fun other script => ?_) ?_
    · rw [contents] at script
      split at script
      · cases script
      · exact mem_keys_listed.mpr script
    · exact length_keys_listed.symm ▸ shows.few

theorem deleteScript_keeps {name : String}
    (harmless : store.Harmless faults (.delete name)) :
    Keeps library (library.after (.delete name)) (store.deleteScript faults name) := by
  unfold deleteScript
  by_cases invalid : (!validScriptName name) = true
  · rw [if_pos invalid]
    exact shows
  rw [if_neg invalid]
  by_cases missing : store.entries.get name = none
  · rw [if_pos missing]
    exact shows
  rw [if_neg missing]
  by_cases stays : faults.remove = true
  · rw [if_pos stays]
    exact shows
  rw [if_neg stays]
  obtain ⟨reads, removes⟩ := harmless missing (by simpa using stays)
  have active : readActive faults { store with entries := store.entries.remove name } =
      .ok library.active := (readActive_eq reads).trans shows.active
  dsimp only
  rw [active]
  dsimp only
  by_cases own : library.active = some name
  · have removed := removes (shows.active.trans (congrArg Except.ok own))
    rw [if_pos ⟨own, by simp [removed]⟩]
    refine shows.remove ?_
    rw [if_pos own]
    rfl
  · rw [if_neg fun h => own h.1]
    refine shows.remove ?_
    rw [if_neg own]
    exact shows.active

theorem Shows.rename {source target : String}
    (script : (store.contents source).isSome = true) (validTarget : validScriptName target = true)
    (free : store.entries.get target = none) {entry : Entry}
    (found : store.entries.get source = some entry) {active : Option Entry}
    (reads : activeScriptName (area { store with active }) =
      .ok (if library.active = some source then some target else library.active)) :
    Shows { store with entries := (store.entries.remove source).put target entry, active }
      (library.after (.rename source target)) := by
  have differ : source ≠ target := by
    rintro rfl
    rw [free] at found
    cases found
  have contents (other : String) : ScriptStore.contents
      { store with entries := (store.entries.remove source).put target entry, active } other =
        if other = target then store.contents source
        else if other = source then none else store.contents other := by
    by_cases same : other = target
    · subst same
      obtain ⟨data, own⟩ := Option.isSome_iff_exists.mp script
      obtain rfl := Option.some.inj (found.symm.trans (contents_eq_some.mp own).1)
      rw [if_pos rfl, own]
      exact contents_eq_some.mpr ⟨Table.get_put, validTarget⟩
    · rw [if_neg same, ← contents_remove source]
      exact contents_congr (Table.get_put_ne same)
  constructor
  case contents =>
    intro other
    rw [contents, Library.after]
    by_cases same : other = target
    · subst same
      simp [shows.contents]
    · by_cases old : other = source
      · subst old
        simp [differ]
      · simp [same, old, shows.contents]
  case active => exact reads
  case stored =>
    rw [shows.contents, Option.isSome_map] at script
    intro other active
    simp only [Library.after] at active ⊢
    split at active
    · obtain rfl := Option.some.inj active
      rw [Function.update_self]
      exact script
    next kept =>
      have stored := shows.stored other active
      have same : other ≠ source := fun same => kept (same ▸ active)
      by_cases new : other = target
      · subst new
        rw [Function.update_self]
        exact script
      · rw [Function.update_of_ne new, Function.update_of_ne same]
        exact stored
  case few =>
    have member : source ∈ store.listed := mem_listed.mpr script
    have fewer := Table.size_remove_of_mem member
    refine few_of_names (target :: (store.listed.remove source).keys)
      (fun other here => ?_) ?_
    · rw [contents] at here
      split at here
      next same => exact same ▸ List.mem_cons_self
      next =>
        split at here
        · cases here
        next other_ =>
          refine List.mem_cons_of_mem _ (AList.mem_keys.mp ?_)
          exact AList.mem_erase.mpr ⟨other_, mem_listed.mpr here⟩
    · rw [List.length_cons, ← Table.size_eq_length_keys, fewer]
      exact shows.few

theorem renameScript_keeps {source target : String}
    (harmless : store.Harmless faults (.rename source target)) :
    Keeps library (library.after (.rename source target))
      (store.renameScript faults source target) := by
  unfold renameScript
  by_cases invalid : (!validScriptName source || !validScriptName target) = true
  · rw [if_pos invalid]
    exact shows
  rw [if_neg invalid]
  obtain ⟨validSource, validTarget⟩ :
      validScriptName source = true ∧ validScriptName target = true := by simpa using invalid
  by_cases missing : (!store.isFile faults.sourceStat source) = true
  · rw [if_pos missing]
    exact shows
  rw [if_neg missing]
  have isFile : store.isFile faults.sourceStat source = true := by simpa using missing
  have script := isFile_script validSource isFile
  by_cases taken : (!faults.targetStat) = true ∧ store.entries.get target ≠ none
  · rw [if_pos taken]
    exact shows
  rw [if_neg taken]
  cases stays : faults.rename with
  | true => exact shows
  | false =>
    cases found : store.entries.get source with
    | none => exact shows
    | some entry =>
      obtain ⟨unseen, reads, writes⟩ := harmless isFile stays
      have free : store.entries.get target = none := by
        cases seen : faults.targetStat with
        | true => exact unseen seen
        | false =>
          by_contra there
          exact taken ⟨by rw [seen]; rfl, there⟩
      have active : readActive faults
          { store with entries := (store.entries.remove source).put target entry } =
          .ok library.active := (readActive_eq reads).trans shows.active
      dsimp only
      rw [active]
      dsimp only
      by_cases own : library.active = some source
      · rw [if_pos own, writeActive, writes (shows.active.trans (congrArg Except.ok own))]
        refine shows.rename script validTarget free found ?_
        rw [if_pos own]
        exact activeScriptName_written validTarget store
      · rw [if_neg own]
        refine shows.rename script validTarget free found ?_
        rw [if_neg own]
        exact shows.active

theorem run_keeps (call : ScriptCall)
    (harmless : store.Harmless faults call) :
    Keeps library (library.after call) (call.run faults store) := by
  cases call with
  | put name source process sequence => exact putScript_keeps shows harmless
  | setActive active => exact setActive_keeps shows harmless
  | delete name => exact deleteScript_keeps shows harmless
  | rename source target => exact renameScript_keeps shows harmless

end

/-! ### Loading -/

theorem lookup_area (store : ScriptStore) (name : String) :
    store.area.scripts.lookup name = store.entries.get name := by
  obtain ⟨⟨entries, nodup⟩, active, sieve⟩ := store
  show (entries.map fun e => (e.1, e.2)).lookup name = List.dlookup name entries
  clear nodup
  induction entries with
  | nil => rfl
  | cons e entries ih =>
    obtain ⟨key, entry⟩ := e
    by_cases same : name = key
    · subst same
      rw [List.map_cons, List.lookup_cons, List.dlookup_cons_eq]
      simp
    · rw [List.map_cons, List.lookup_cons, List.dlookup_cons_ne _ _ same, ← ih,
        beq_eq_false_iff_ne.mpr same]

theorem Shows.load (shows : store.Shows library) (active : library.active = some name) :
    loadScript store.area = .ok (library.scripts name) := by
  obtain ⟨source, put⟩ := Option.isSome_iff_exists.mp (shows.stored name active)
  have script : store.contents name = some (bytes source) := by
    rw [shows.contents, put]
    rfl
  obtain ⟨entry, valid⟩ := contents_eq_some.mp script
  have reads := shows.active
  rw [active] at reads
  have got : getScript store.area name = .ok (some source) := by
    rw [getScript_valid valid, lookup_area, entry]
    exact congrArg (fun text => Except.ok (some text)) (fromUtf8Lossy_bytes source)
  rw [put, loadScript, reads]
  show loadNamed store.area name = _
  rw [loadNamed, got]
  rfl

/-! ### Runs -/

/-- The calls that succeed, and the store after all calls. -/
def runCalls : List (ScriptCall × Faults) → ScriptStore → List ScriptCall × ScriptStore
  | [], store => ([], store)
  | (call, faults) :: rest, store =>
    let (result, store) := call.run faults store
    let (done, store) := runCalls rest store
    (if result.isOk then call :: done else done, store)

/-- No call of the run has an operation fail after its first change. -/
def HarmlessRun : List (ScriptCall × Faults) → ScriptStore → Prop
  | [], _ => True
  | (call, faults) :: rest, store =>
    store.Harmless faults call ∧ HarmlessRun rest (call.run faults store).2

theorem runCalls_shows (shows : store.Shows library) {calls : List (ScriptCall × Faults)}
    (harmless : HarmlessRun calls store) :
    (runCalls calls store).2.Shows ((runCalls calls store).1.foldl Library.after library) := by
  induction calls generalizing store library with
  | nil => exact shows
  | cons step rest ih =>
    obtain ⟨call, faults⟩ := step
    obtain ⟨here, later⟩ := harmless
    have kept := run_keeps shows call here
    unfold Keeps at kept
    cases result : (call.run faults store).1 with
    | ok done =>
      rw [result] at kept
      have all := ih kept later
      simpa [runCalls, result, Except.isOk, Except.toBool] using all
    | error error =>
      rw [result] at kept
      have all := ih kept later
      simpa [runCalls, result, Except.isOk, Except.toBool] using all

/-- The active name is one of a script, there are not too many scripts, a call that fails changes
nothing, and the script that is loaded is the last one that was put under the active name. -/
theorem script_store_kept (shows : store.Shows library) (calls : List (ScriptCall × Faults))
    (harmless : HarmlessRun calls store) :
    (∃ active, activeScriptName (runCalls calls store).2.area = .ok active ∧
      ∀ name, active = some name → ((runCalls calls store).2.contents name).isSome = true) ∧
    (∀ scripts, (runCalls calls store).2.listScripts .none = .ok scripts →
      scripts.length ≤ maxScripts) ∧
    (∀ call faults error, (runCalls calls store).2.Harmless faults call →
      (call.run faults (runCalls calls store).2).1 = .error error →
        (∀ name, (call.run faults (runCalls calls store).2).2.contents name =
          (runCalls calls store).2.contents name) ∧
        activeScriptName (call.run faults (runCalls calls store).2).2.area =
          activeScriptName (runCalls calls store).2.area) ∧
    ∀ name, ((runCalls calls store).1.foldl Library.after library).active = some name →
      loadScript (runCalls calls store).2.area =
        .ok (((runCalls calls store).1.foldl Library.after library).scripts name) := by
  have reached := runCalls_shows shows harmless
  generalize runCalls calls store = run at reached
  obtain ⟨done, after⟩ := run
  dsimp only at reached ⊢
  refine ⟨⟨_, reached.active, fun name active => ?_⟩, fun scripts listed => ?_,
    fun call faults error harmless failed => ?_, fun name active => reached.load active⟩
  · rw [reached.contents, Option.isSome_map]
    exact reached.stored name active
  · rw [(@listScripts_eq after .none "" (fun _ _ => rfl) scripts listed).1]
    exact reached.few
  · have kept := run_keeps reached call harmless
    rw [Keeps, failed] at kept
    exact ⟨fun name => (kept.contents name).trans (reached.contents name).symm,
      kept.active.trans reached.active.symm⟩

def emptyStore : ScriptStore :=
  { entries := ∅
    active := none
    sieve := none }

theorem emptyStore_shows : emptyStore.Shows .empty :=
  ⟨fun _ => rfl, rfl, fun _ active => (by cases active), Nat.zero_le _⟩

def renamedCalls : List (ScriptCall × Faults) :=
  [(.put "a" "keep;" 1 1, .none), (.setActive (some "a"), .none), (.rename "a" "b", .none)]

theorem script_store_kept_renamed : loadScript (runCalls renamedCalls emptyStore).2.area =
    .ok (((runCalls renamedCalls emptyStore).1.foldl Library.after .empty).scripts "b") :=
  have harmless : HarmlessRun renamedCalls emptyStore :=
    ⟨fun _ _ => rfl, fun _ h => (by cases h),
      fun _ _ => ⟨fun h => (by cases h), rfl, fun _ => rfl⟩, trivial⟩
  (script_store_kept emptyStore_shows renamedCalls harmless).2.2.2 "b" (by decide +kernel)

/-- The script has its new name, the name that is stored as active is the old one, and the call
reports an error. -/
theorem rename_leaves_active :
    ∃ store, store = (runCalls [(.put "a" "keep;" 1 1, .none), (.setActive (some "a"), .none)]
        emptyStore).2 ∧
      (ScriptCall.run { Faults.none with write := some .refused } (.rename "a" "b") store).1 =
        .error (.io "sieve/.active") ∧
      activeScriptName (ScriptCall.run { Faults.none with write := some .refused }
        (.rename "a" "b") store).2.area = .ok (some "a") ∧
      (ScriptCall.run { Faults.none with write := some .refused }
        (.rename "a" "b") store).2.contents "a" = none ∧
      store.contents "a" = some (bytes "keep;") := by
  refine ⟨_, rfl, ?_, ?_, ?_, ?_⟩
  · decide +kernel
  · decide +kernel
  · decide +kernel
  · decide +kernel

end ScriptStore

end MailStack.Sieve
