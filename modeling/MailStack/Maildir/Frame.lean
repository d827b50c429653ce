import MailStack.Maildir.Vanished

/-! What the operations of a store leave alone: the folders that they do not name, and of a folder
that is opened its files and what is listed of its messages. -/

namespace MailStack.Maildir

open Lib

/-- `after` has the files of `before`, with their flags, and what is listed of a message that has a
file stays: its UID and its modification number. -/
structure Folder.Same (before after : Folder) : Prop where
  files : after.files = before.files
  listed : ∀ list, loadUidlist before.uidFile = some list →
    ∃ list', loadUidlist after.uidFile = some list' ∧ list'.uidvalidity = list.uidvalidity ∧
      ∀ e ∈ list.byUid, Present before.files e.base → e ∈ list'.byUid

theorem Folder.Same.refl (folder : Folder) : folder.Same folder :=
  ⟨rfl, fun list load => ⟨list, load, rfl, fun _ mem _ => mem⟩⟩

theorem Folder.Same.trans {a b c : Folder} (h : a.Same b) (h' : b.Same c) : a.Same c := by
  refine ⟨h'.files.trans h.files, fun list load => ?_⟩
  obtain ⟨list', load', validity, kept⟩ := h.listed list load
  obtain ⟨list'', load'', validity', kept'⟩ := h'.listed list' load'
  refine ⟨list'', load'', validity'.trans validity, fun e mem present => ?_⟩
  exact kept' e (kept e mem present) (h.files ▸ present)

theorem Folder.Same.acl (folder : Folder) (acl : List (String × String)) :
    folder.Same { folder with acl } :=
  ⟨rfl, fun list load => ⟨list, load, rfl, fun _ mem _ => mem⟩⟩

theorem loadOrRebuild_of_load {file : Option UidList} {list : UidList} (fresh : Nat)
    (load : loadUidlist file = some list) : loadOrRebuild file fresh = list := by
  rw [loadOrRebuild, load, Option.getD_some]

theorem syncUidlist_keeps {file : Option UidList} {bases : List String} {fresh : Nat}
    {list new : UidList} (load : loadUidlist file = some list)
    (valid : ∀ b ∈ bases, isValidBase b = true) (run : syncUidlist file bases fresh = some new) :
    new.Accepted ∧ new.uidvalidity = list.uidvalidity ∧
      ∀ e ∈ list.byUid, e.base ∈ bases → e ∈ new.byUid := by
  have one : IsUidvalidity 1 := ⟨Nat.one_pos, by decide⟩
  have same : syncUidlist file bases 1 = syncUidlist file bases fresh := by
    simp only [syncUidlist, loadOrRebuild_of_load _ load]
  have grown := (syncUidlist_spec one valid (same.trans run)).1
  rw [loadOrRebuild_of_load _ load] at grown
  refine ⟨grown.accepted, grown.uidvalidity, fun e mem scanned => ?_⟩
  simp only [syncUidlist, loadOrRebuild_of_load _ load] at run
  obtain ⟨⟨l, next, uids⟩, assigned, rfl⟩ := Option.map_eq_some_iff.mp run
  obtain ⟨added, appended⟩ := assign_appended assigned
  show e ∈ l.byUid
  rw [appended.byUid]
  exact List.mem_append_left _ (List.mem_filter.mpr ⟨mem, by simpa using scanned⟩)

theorem Folder.Same.sync {folder : Folder} {fresh : Nat} {new : UidList}
    (run : syncUidlist folder.uidFile (scanBases folder.scan) fresh = some new) :
    folder.Same { folder with uidFile := some new, expunged := folder.history } := by
  refine ⟨rfl, fun list load => ?_⟩
  obtain ⟨accepted, validity, kept⟩ := syncUidlist_keeps load scanBases_valid run
  refine ⟨new, loadUidlist_of_accepted accepted, validity, fun e mem present => ?_⟩
  obtain ⟨f, inFiles, same⟩ := present
  have valid := (loadUidlist_some load).2.valid e mem
  exact kept e mem (same ▸ base_mem_scan inFiles (same ▸ valid))

namespace MailStore

variable {s t u : MailStore} {name : String}

/-- The folder stays as it is. -/
def Spares (name : String) (s t : MailStore) : Prop :=
  ∀ folder, s.find name = some folder → ∃ after, t.find name = some after ∧ folder.Same after

theorem Spares.refl (name : String) (s : MailStore) : Spares name s s :=
  fun folder found => ⟨folder, found, .refl folder⟩

theorem Spares.trans (h : Spares name s t) (h' : Spares name t u) : Spares name s u := by
  intro folder found
  obtain ⟨middle, found', same⟩ := h folder found
  obtain ⟨after, found'', same'⟩ := h' middle found'
  exact ⟨after, found'', same.trans same'⟩

theorem Spares.of_lookup (same : t.find name = s.find name) : Spares name s t :=
  fun folder found => ⟨folder, same.trans found, .refl folder⟩

theorem Spares.of_folders (same : t.folders = s.folders) : Spares name s t :=
  .of_lookup (by rw [find, find, same])

theorem Spares.modify {key : String} {f : Folder → Folder}
    (changed : t.folders = Assoc.modify key f s.folders)
    (same : key = name → ∀ folder, s.find name = some folder → folder.Same (f folder)) :
    Spares name s t := by
  intro folder found
  have after : t.find name = if name = key then (s.find name).map f else s.find name := by
    rw [find, changed, Assoc.lookup_modify]
    rfl
  rw [found] at after
  split_ifs at after with here
  · exact ⟨f folder, after, same here.symm folder found⟩
  · exact ⟨folder, after, .refl folder⟩

theorem openFolder_spares (s : MailStore) (name n : String) (fresh : Nat) :
    Spares name s (s.openFolder n false fresh).1 := by
  rcases openFolder_cases s n false fresh with ⟨error, run⟩ | ⟨t, state, _, folder, list, run, o⟩
  · rw [run]
    exact .refl name s
  · rw [run]
    obtain ⟨change, changed, opened⟩ := o.after
    refine .modify changed fun here other found => ?_
    subst here
    obtain rfl := Option.some.inj (o.found.symm.trans found)
    rw [opened]
    exact .sync o.sync

theorem releaseQuota_spares (s : MailStore) (name : String) (reservation : Option Usage) :
    Spares name s (s.releaseQuota reservation) :=
  .of_folders (releaseQuota_folders reservation)

theorem quotaStatus_spares (s : MailStore) (name : String) : Spares name s s.quotaStatus.2 := by
  refine .of_folders ?_
  simp only [quotaStatus, cachedOrRecomputeUsage, recomputeUsage]
  cases s.usage <;> rfl

theorem setQuota_spares (s : MailStore) (name : String) (messages storageBytes : Option Nat) :
    Spares name s (s.setQuota messages storageBytes) :=
  .of_folders rfl

theorem create_spares (s : MailStore) (name n : String) : Spares name s (s.create n).1 := by
  unfold create
  split
  · exact .refl name s
  split_ifs
  · exact .refl name s
  · exact .refl name s
  · intro folder found
    refine ⟨folder, ?_, .refl folder⟩
    have lookup : s.folders.lookup name = some folder := found
    simp only [find, List.lookup_append, lookup, Option.some_or]

variable {n : String}

section

variable (away : normalizeFolderName n ≠ .ok name)

include away

theorem appendCounted_spares (messages size : Nat)
    (staged : List MessageFile) (fresh : Nat) :
    Spares name s (s.appendCounted n messages size staged fresh).1 := by
  rcases appendCounted_cases s n messages size staged fresh with ⟨t, error, run, same⟩ |
    ⟨t, normalized, folder, list, uids, run, opened, -, changed⟩
  · rw [run]
    exact .of_folders same
  · rw [run]
    exact .modify changed fun here => absurd (here ▸ (openDir_normal opened).1) away

theorem appendMany_spares
    (messages : List (String × NewMessage)) (fresh : Nat) :
    Spares name s (s.appendMany n messages fresh).1 := by
  unfold appendMany
  split_ifs
  · exact .refl name s
  · exact appendCounted_spares away _ _ _ _

theorem copyLoop_spares (fresh uidvalidity : Nat)
    (copies : List (MessageMeta × String)) :
    Spares name s (s.copyLoop n fresh uidvalidity copies).1 := by
  induction copies generalizing s uidvalidity with
  | nil => exact .refl name s
  | cons copy rest ih =>
    obtain ⟨message, base⟩ := copy
    unfold copyLoop
    have first := appendCounted_spares (s := s) away 1 message.size
      [{ base, directory := .cur, flags := message.flags, size := message.size }] fresh
    simp only
    split
    · rename_i left error run
      rwa [run] at first
    rename_i left validity uids run
    rw [run] at first
    have later := ih (s := left) validity
    split
    · rename_i last error more
      rw [more] at later
      exact first.trans later
    · rename_i last validity' copied more
      rw [more] at later
      exact first.trans later

theorem copyMany_spares (source : String)
    (uids : List Nat) (drawn : Nat → String) (fresh : Nat) :
    Spares name s (s.copyMany source uids n drawn fresh).1 := by
  unfold copyMany
  split_ifs
  · exact .refl name s
  have first := openFolder_spares s name source fresh
  split
  · rename_i opened error run
    rwa [run] at first
  rename_i opened state run
  rw [run] at first
  split
  · exact first
  · exact first.trans (copyLoop_spares away _ _ _)

theorem delete_spares :
    Spares name s (s.delete n).1 := by
  unfold delete
  split
  · exact .refl name s
  rename_i normalized normal
  split
  · exact .refl name s
  split
  · exact .refl name s
  rename_i folder found
  split
  · exact .refl name s
  refine Spares.trans (t := { s with folders := Assoc.remove normalized s.folders }) ?_
    (releaseQuota_spares _ name _)
  exact .of_lookup (Assoc.lookup_remove fun same => away (same ▸ normal))

end

def Below (name above : String) : Prop := (above ++ ".").toList.isPrefixOf name.toList = true

theorem renameChildren_find {before folders : List (String × Folder)}
    {moves : List (String × String)} {folder : Folder}
    (kept : before.lookup name = some folder) (found : folders.lookup name = some folder)
    (away : ∀ move ∈ moves, move.1 ≠ name) :
    (renameChildren before folders moves).1.lookup name = some folder := by
  induction moves generalizing folders with
  | nil => exact found
  | cons move rest ih =>
    obtain ⟨source, target⟩ := move
    unfold renameChildren
    split
    · exact found
    rename_i normalized normal
    split_ifs with taken
    · exact kept
    · refine ih ?_ fun move mem => away move (List.mem_cons_of_mem _ mem)
      rw [Assoc.lookup_rekey (away (source, target) List.mem_cons_self)]
      · exact found
      · rintro rfl
        rw [found] at taken
        exact taken rfl

/-- RENAME moves the folder that it names and those below it. -/
theorem rename_spares {source target : String} (away : normalizeFolderName source ≠ .ok name)
    (apart : ∀ old, normalizeFolderName source = .ok old → old ≠ inbox → ¬Below name old) :
    Spares name s (s.rename source target).1 := by
  unfold rename
  split
  · exact .refl name s
  · exact .refl name s
  rename_i old new normal normal'
  have other : old ≠ name := fun same => away (same ▸ normal)
  split
  · exact .refl name s
  split
  · exact .refl name s
  split_ifs with taken isInbox
  · exact .refl name s
  · -- the messages of INBOX move to a new folder
    intro folder found
    refine ⟨folder, ?_, .refl folder⟩
    have lookup : s.folders.lookup name = some folder := found
    have elsewhere : name ≠ inbox := fun here => other (isInbox.trans here.symm)
    simp only [find, List.lookup_append, Assoc.lookup_modify, if_neg elsewhere, lookup,
      Option.some_or]
  · intro folder found
    refine ⟨folder, ?_, .refl folder⟩
    have free : new ≠ name := by
      rintro rfl
      rw [found] at taken
      exact taken rfl
    refine renameChildren_find found ?_ fun move mem => ?_
    · rw [Assoc.lookup_rekey other free]
      exact found
    · obtain ⟨child, inChildren, rfl⟩ := List.mem_map.mp mem
      rw [List.mem_mergeSort] at inChildren
      rintro rfl
      exact apart old normal isInbox (List.mem_filter.mp inChildren).2

end MailStore

end MailStack.Maildir
