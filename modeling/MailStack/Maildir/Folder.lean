import MailStack.Maildir.Uidlist

/-! A Maildir folder: its message files and its list of UIDs, the scan of the files, and the
operations that change messages under the lock of the folder. -/

namespace MailStack.Maildir

open Lib

inductive MailError
  | io (path : String)
  | invalid (message : String)
  | protocol (message : String)
  | notFound (what : String)
  | alreadyExists (what : String)
  | storage (message : String)
  | quotaExceeded (message : String)
deriving DecidableEq

inductive Directory
  | new
  | cur
deriving DecidableEq

/-- A message file. The flags are what its name says after the base. -/
structure MessageFile where
  base : String
  directory : Directory
  flags : FlagSet
  size : Nat
deriving DecidableEq

/-- A line of the log of removed messages: a UID and the modification number of its removal. -/
abbrev Removal := Nat × Nat

/-- `expunged` are the lines of the log of removed messages, none where there is no such file;
`acl` are the rights that the owner of the folder has given to others. -/
structure Folder where
  files : List MessageFile
  uidFile : Option UidList
  expunged : List Removal
  acl : List (String × String)

def Folder.empty : Folder := { files := [], uidFile := none, expunged := [], acl := [] }

def maxScanEntries : Nat := 200000

/-- One directory as `scan_folder` reads it. -/
def scanDirectory (files : List MessageFile) (directory : Directory) : List MessageFile :=
  files.filter fun f => f.directory = directory && isValidBase f.base

/-- The scan by base: `new` is read first, and what is read later replaces what has the same
base. -/
def mergeScan (new cur : List MessageFile) : List MessageFile :=
  new.filter (fun f => !cur.any fun g => g.base = f.base) ++ cur

def Folder.scan (folder : Folder) : List MessageFile :=
  mergeScan (scanDirectory folder.files .new) (scanDirectory folder.files .cur)

def scanBases (scan : List MessageFile) : List String :=
  (scan.map (·.base)).dedup.mergeSort fun a b => decide (a ≤ b)

def findFile (files : List MessageFile) (base : String) : Option MessageFile :=
  (files.find? fun f => f.directory = .cur && f.base = base) <|>
    files.find? fun f => f.directory = .new && f.base = base

def UidList.baseOf (list : UidList) (uid : Nat) : Option String :=
  (list.byUid.find? (·.uid = uid)).map (·.base)

def uidMissing (uid : Nat) : MailError := .notFound ("uid " ++ toString uid)

def expungedMaxBytes : Nat := 8 * 1024 * 1024

def expungedKept : Nat := 50000

/-- The bytes of the log, where a line is two numbers with a blank between them. -/
def logBytes (log : List Removal) : Nat :=
  (log.map fun e => (bytes (toString e.1 ++ " " ++ toString e.2 ++ "\n")).length).sum

def trimmed (log : List Removal) : List Removal :=
  if logBytes log > expungedMaxBytes then log.drop (log.length - expungedKept) else log

def appendExpunged (log events : List Removal) : List Removal :=
  if events.isEmpty then log else trimmed log ++ events

/-- The removals of an expunge, each with a modification number of its own. -/
def removals : Nat → List Nat → List Removal
  | _, [] => []
  | modseq, uid :: rest =>
    (uid, satAdd u64Max modseq 1) :: removals (satAdd u64Max modseq 1) rest

def Folder.expungedSince (folder : Folder) (since : Nat) : List Nat :=
  ((folder.expunged.filter fun e => 0 < e.1 && e.2 > since).map (·.1)).dedup.mergeSort
    fun a b => decide (a ≤ b)

/-- The log once the list of UIDs was loaded: when that is built anew, the log is removed. -/
def Folder.history (folder : Folder) : List Removal :=
  if (loadUidlist folder.uidFile).isNone then [] else folder.expunged

/-- `set_flags` under the lock of the folder. The result is the file as it is now. -/
def Folder.setFlags (folder : Folder) (uid : Nat) (flags : FlagSet) :
    Except MailError (Folder × UidList × MessageFile) :=
  match loadUidlist folder.uidFile with
  | none => .error (.storage "uidlist is unavailable; reopen the mailbox")
  | some list =>
    match list.baseOf uid with
    | none => .error (uidMissing uid)
    | some base =>
      match findFile folder.files base with
      | none => .error (uidMissing uid)
      | some source =>
        let target := { source with directory := .cur, flags }
        let files := folder.files.map fun f => if f = source then target else f
        .ok ({ folder with files, uidFile := some (list.touch uid) }, list.touch uid, target)

/-- The loop of `expunge`: the files that are left, the UIDs that were removed and their bytes. -/
def expungeLoop (list : UidList) : List Nat → List MessageFile → List MessageFile × List Nat × Nat
  | [], files => (files, [], 0)
  | uid :: rest, files =>
    match list.baseOf uid with
    | none => expungeLoop list rest files
    | some base =>
      match findFile files base with
      | none => expungeLoop list rest files
      | some file =>
        let (left, removed, bytes) := expungeLoop list rest (files.erase file)
        (left, uid :: removed, satAdd u64Max file.size bytes)

/-- `expunge` under the lock of the folder. The list is written only when something was removed. -/
def Folder.expunge (folder : Folder) (uids : List Nat) : Folder × List Nat × Nat :=
  match loadUidlist folder.uidFile with
  | none => (folder, [], 0)
  | some list =>
    let (files, removed, bytes) := expungeLoop list uids folder.files
    if removed.isEmpty then ({ folder with files }, [], bytes)
    else
      ({ folder with
          files
          uidFile := some (list.drop removed)
          expunged :=
            appendExpunged folder.expunged (removals list.highestModseq removed) },
        removed, bytes)

/-- A scanned file as `open_folder` takes it to be after the promotion. -/
def promoted (f : MessageFile) : MessageFile := { f with directory := .cur }

def promoteScan (scan : List MessageFile) : List MessageFile :=
  scan.map fun f => if f.directory = .new then promoted f else f

/-- The files that are in `new` and in the scan move to `cur`. -/
def promoteFiles (scan files : List MessageFile) : List MessageFile :=
  files.map fun f => if f.directory = .new && scan.contains f then promoted f else f

def Present (files : List MessageFile) (base : String) : Prop := ∃ f ∈ files, f.base = base

variable {base : String} {removed : List Nat} {uids : List Nat} {bytes : Nat}

theorem mem_scanBases {scan : List MessageFile} :
    base ∈ scanBases scan ↔ ∃ f ∈ scan, f.base = base := by
  simp [scanBases]

variable {files : List MessageFile} {f : MessageFile}

theorem mem_scanDirectory {directory : Directory}
    (h : f ∈ scanDirectory files directory) : f ∈ files ∧ isValidBase f.base = true := by
  obtain ⟨mem, cond⟩ := List.mem_filter.mp h
  exact ⟨mem, (Bool.and_eq_true _ _ ▸ cond).2⟩

theorem mem_mergeScan {new cur : List MessageFile} (h : f ∈ mergeScan new cur) :
    f ∈ new ∨ f ∈ cur := by
  rcases List.mem_append.mp h with h | h
  · exact .inl (List.mem_of_mem_filter h)
  · exact .inr h

theorem findFile_some (h : findFile files base = some f) : f ∈ files ∧ f.base = base := by
  unfold findFile at h
  cases found : files.find? fun f => f.directory = .cur && f.base = base with
  | some g =>
    rw [found] at h
    cases h
    have := List.find?_some found
    exact ⟨List.mem_of_find?_eq_some found, by simp_all⟩
  | none =>
    rw [found] at h
    have other : files.find? (fun f => f.directory = .new && f.base = base) = some f := h
    have := List.find?_some other
    exact ⟨List.mem_of_find?_eq_some other, by simp_all⟩

variable {list : UidList}

theorem baseOf_some {uid : Nat} (h : list.baseOf uid = some base) :
    list.Lists uid base := by
  obtain ⟨e, found, rfl⟩ := Option.map_eq_some_iff.mp h
  exact ⟨e, List.mem_of_find?_eq_some found, by simpa using List.find?_some found, rfl⟩

theorem setFlags_ok {folder folder' : Folder} {uid : Nat} {flags : FlagSet} {list' : UidList}
    {target : MessageFile} (h : folder.setFlags uid flags = .ok (folder', list', target)) :
    ∃ list source, loadUidlist folder.uidFile = some list ∧ list.Lists uid target.base ∧
      list' = list.touch uid ∧ source ∈ folder.files ∧
      target = { source with directory := .cur, flags } ∧
      folder' =
        { folder with
          files := folder.files.map fun f => if f = source then target else f
          uidFile := some (list.touch uid) } := by
  unfold Folder.setFlags at h
  split at h
  · cases h
  rename_i list load
  split at h
  · cases h
  rename_i base hbase
  split at h
  · cases h
  rename_i source found
  obtain ⟨mem, same⟩ := findFile_some found
  cases h
  exact ⟨list, source, load, same ▸ baseOf_some hbase, rfl, mem, rfl, rfl⟩

/-- What an expunge did to the files: only files of removed UIDs are gone. -/
theorem expungeLoop_spec {files left : List MessageFile}
    (h : expungeLoop list uids files = (left, removed, bytes)) :
    left.Sublist files ∧
      (files.Nodup → ∀ uid ∈ removed, ∃ f ∈ files, f ∉ left ∧ list.Lists uid f.base) := by
  induction uids generalizing files removed bytes with
  | nil =>
    simp only [expungeLoop, Prod.mk.injEq] at h
    obtain ⟨rfl, rfl, rfl⟩ := h
    exact ⟨List.Sublist.refl _, by simp⟩
  | cons uid rest ih =>
    simp only [expungeLoop] at h
    split at h
    · exact ih h
    rename_i base hbase
    split at h
    · exact ih h
    rename_i file found
    generalize run : expungeLoop list rest (files.erase file) = result at h
    obtain ⟨l, us, bs⟩ := result
    simp only [Prod.mk.injEq] at h
    obtain ⟨rfl, rfl, rfl⟩ := h
    obtain ⟨sub, only⟩ := ih run
    refine ⟨sub.trans List.erase_sublist, fun nodup u hu => ?_⟩
    rcases List.mem_cons.mp hu with rfl | hu
    · have mine : list.Lists u file.base := (findFile_some found).2 ▸ baseOf_some hbase
      exact ⟨file, (findFile_some found).1, fun mem => nodup.not_mem_erase (sub.subset mem), mine⟩
    · obtain ⟨f, mem, out, lists⟩ := only (nodup.erase _) u hu
      exact ⟨f, List.mem_of_mem_erase mem, out, lists⟩

theorem expunge_of_load {folder : Folder}
    {left : List MessageFile}
    (load : loadUidlist folder.uidFile = some list)
    (run : expungeLoop list uids folder.files = (left, removed, bytes)) :
    folder.expunge uids =
      if removed.isEmpty then ({ folder with files := left }, [], bytes)
      else
        ({ folder with
            files := left
            uidFile := some (list.drop removed)
            expunged :=
              appendExpunged folder.expunged (removals list.highestModseq removed) },
          removed, bytes) := by
  simp only [Folder.expunge, load, run]

theorem expunge_files (folder : Folder) (uids : List Nat) :
    (folder.expunge uids).1.files.Sublist folder.files := by
  unfold Folder.expunge
  split
  · exact List.Sublist.refl _
  · simp only
    split <;> exact (expungeLoop_spec rfl).1

/-- What an expunge did: it took messages off the list and noted them in the log, or neither. -/
theorem expunge_cases {folder : Folder} (uids : List Nat) :
    (folder.expunge uids).2.1 = [] ∧ (folder.expunge uids).1.uidFile = folder.uidFile ∧
        (folder.expunge uids).1.expunged = folder.expunged ∨
      ∃ list removed, loadUidlist folder.uidFile = some list ∧ removed ≠ [] ∧
        (folder.expunge uids).2.1 = removed ∧
        (folder.expunge uids).1.uidFile = some (list.drop removed) ∧
        (folder.expunge uids).1.expunged =
          appendExpunged folder.expunged (removals list.highestModseq removed) := by
  cases load : loadUidlist folder.uidFile with
  | none =>
    simp only [Folder.expunge, load]
    exact .inl ⟨trivial, trivial, trivial⟩
  | some list =>
    obtain ⟨⟨left, removed, bytes⟩, run⟩ : ∃ result, expungeLoop list uids folder.files = result :=
      ⟨_, rfl⟩
    rw [expunge_of_load load run]
    split_ifs with nothing
    · exact .inl ⟨rfl, rfl, rfl⟩
    · exact .inr ⟨list, removed, rfl, by simpa using nothing, rfl, rfl, rfl⟩

theorem base_mem_scan {files : List MessageFile} {f : MessageFile} (mem : f ∈ files)
    (valid : isValidBase f.base = true) :
    f.base ∈ scanBases (mergeScan (scanDirectory files .new) (scanDirectory files .cur)) := by
  rw [mem_scanBases]
  have here : f ∈ scanDirectory files f.directory := by simp [scanDirectory, mem, valid]
  cases dir : f.directory with
  | cur => exact ⟨f, List.mem_append_right _ (dir ▸ here), rfl⟩
  | new =>
    rw [dir] at here
    by_cases twice : (scanDirectory files .cur).any fun g => g.base = f.base
    · obtain ⟨g, hg, same⟩ := List.any_eq_true.mp twice
      exact ⟨g, List.mem_append_right _ hg, of_decide_eq_true same⟩
    · refine ⟨f, List.mem_append_left _ (List.mem_filter.mpr ⟨here, ?_⟩), rfl⟩
      simpa using twice

theorem scanBases_valid :
    ∀ b ∈ scanBases (mergeScan (scanDirectory files .new) (scanDirectory files .cur)),
      isValidBase b = true := by
  intro b mem
  obtain ⟨f, hf, rfl⟩ := mem_scanBases.mp mem
  rcases mem_mergeScan hf with h | h <;> exact (mem_scanDirectory h).2

end MailStack.Maildir
