import MailStack.Maildir.Store

/-! The flags and the modification number that are stored for a message, and what the change of
flags and the opening of a folder do to them. -/

namespace MailStack.Maildir

open Lib

def UidList.entry (list : UidList) (uid : Nat) : Option UidEntry := list.byUid.find? (·.uid = uid)

/-- What is stored for a UID: the flags of its file and the modification number in the list. -/
def Folder.stored (folder : Folder) (uid : Nat) : Option (FlagSet × Nat) :=
  (loadUidlist folder.uidFile).bind fun list =>
    (list.entry uid).bind fun e =>
      (findFile folder.files e.base).map fun f => (f.flags, e.modseq)

def MailStore.stored (s : MailStore) (name : String) (uid : Nat) : Option (FlagSet × Nat) :=
  match s.openDir name with
  | .ok (_, folder) => folder.stored uid
  | .error _ => none

variable {uid : Nat} {modseq : Nat} {e : UidEntry}

theorem Folder.stored_eq_some {folder : Folder} {flags : FlagSet} :
    folder.stored uid = some (flags, modseq) ↔
      ∃ list e f, loadUidlist folder.uidFile = some list ∧ list.entry uid = some e ∧
        findFile folder.files e.base = some f ∧ f.flags = flags ∧ e.modseq = modseq := by
  simp only [Folder.stored, Option.bind_eq_some_iff, Option.map_eq_some_iff, Prod.mk.injEq]
  constructor
  · rintro ⟨list, load, e, entry, f, found, rfl, rfl⟩
    exact ⟨list, e, f, load, entry, found, rfl, rfl⟩
  · rintro ⟨list, e, f, load, entry, found, rfl, rfl⟩
    exact ⟨list, load, e, entry, f, found, rfl, rfl⟩

variable {list : UidList}

theorem UidList.Accepted.entry_eq (h : list.Accepted)
    (mem : e ∈ list.byUid) : list.entry e.uid = some e := by
  cases found : list.entry e.uid with
  | none =>
    have none_has : ∀ o ∈ list.byUid, o.uid ≠ e.uid := by
      simpa using List.find?_eq_none.mp found
    exact absurd rfl (none_has e mem)
  | some o =>
    have same : o.uid = e.uid := by simpa using List.find?_some found
    rw [List.inj_on_of_nodup_map h.uids (List.mem_of_find?_eq_some found) mem same]

theorem UidList.entry_some
    (h : list.entry uid = some e) : e ∈ list.byUid ∧ e.uid = uid :=
  ⟨List.mem_of_find?_eq_some h, by simpa using List.find?_some h⟩

theorem baseOf_eq_entry (list : UidList) (uid : Nat) :
    list.baseOf uid = (list.entry uid).map (·.base) := rfl

theorem touch_entry (list : UidList) (uid u : Nat) :
    (list.touch uid).entry u =
      (list.entry u).map fun e =>
        if e.uid = uid then { e with modseq := satAdd u64Max list.highestModseq 1 } else e := by
  simp only [UidList.entry, UidList.touch, List.find?_map]
  congr 1
  refine congrArg (List.find? · list.byUid) (funext fun e => ?_)
  simp only [Function.comp]
  split_ifs <;> rfl

section Renaming

variable {files : List MessageFile} {base : String} {source : MessageFile} {flags : FlagSet}

def renamed (files : List MessageFile) (source target : MessageFile) : List MessageFile :=
  files.map fun f => if f = source then target else f

variable {target : MessageFile}

theorem find_renamed_other (same : target.base = source.base)
    (other : base ≠ source.base) (directory : Directory) :
    (renamed files source target).find? (fun f => f.directory = directory && f.base = base) =
      files.find? fun f => f.directory = directory && f.base = base := by
  induction files with
  | nil => rfl
  | cons f rest ih =>
    simp only [renamed, List.map_cons, List.find?_cons] at ih ⊢
    by_cases here : f = source
    · subst here
      simp [same, Ne.symm other, ih]
    · simp [here, ih]

theorem findFile_renamed_other (same : target.base = source.base) (other : base ≠ source.base) :
    findFile (renamed files source target) base = findFile files base := by
  simp only [findFile, find_renamed_other same other]

theorem findFile_renamed (found : findFile files base = some source) :
    findFile (renamed files source { source with directory := .cur, flags }) base =
      some { source with directory := .cur, flags } := by
  have same : source.base = base := (findFile_some found).2
  suffices h : (renamed files source { source with directory := .cur, flags }).find?
      (fun f => f.directory = .cur && f.base = base) =
        some { source with directory := .cur, flags } by
    rw [findFile, h]
    rfl
  unfold findFile at found
  induction files with
  | nil => cases found
  | cons f rest ih =>
    simp only [renamed, List.map_cons, List.find?_cons] at ih ⊢
    by_cases here : f = source
    · subst here
      simp [same]
    · -- the file is further on, so this one is not in `cur` under the base
      have out : (decide (f.directory = .cur) && decide (f.base = base)) = false := by
        by_contra is
        rw [List.find?_cons, Bool.not_eq_false _ |>.mp is] at found
        exact here (Option.some.inj found)
      simp only [if_neg here, out]
      refine ih ?_
      rw [List.find?_cons, out] at found
      cases later : rest.find? (fun g => g.directory = .cur && g.base = base) with
      | some g => simpa [later] using found
      | none =>
        rw [later] at found
        rw [List.find?_cons] at found
        cases new : (decide (f.directory = .new) && decide (f.base = base)) with
        | true =>
          rw [new] at found
          exact absurd (Option.some.inj found) here
        | false =>
          rw [new] at found
          exact found

end Renaming

theorem Folder.setFlags_stored {folder folder' : Folder} {flags : FlagSet}
    (h : folder.setFlags uid flags = .ok (folder', list, target)) :
    (folder.stored uid).isSome ∧ folder'.stored uid = some (flags, list.highestModseq) ∧
      ∀ u, u ≠ uid → folder'.stored u = folder.stored u := by
  unfold Folder.setFlags at h
  split at h
  · cases h
  rename_i old load
  split at h
  · cases h
  rename_i base hbase
  split at h
  · cases h
  rename_i source found
  cases h
  have accepted := (loadUidlist_some load).2
  have load' := loadUidlist_of_accepted (accepted.touch uid)
  obtain ⟨e, entry, rfl⟩ := Option.map_eq_some_iff.mp (baseOf_eq_entry old uid ▸ hbase)
  obtain ⟨mem, own⟩ := UidList.entry_some entry
  refine ⟨by simp [Folder.stored, load, entry, found], ?_, ?_⟩
  · let e' : UidEntry := { e with modseq := satAdd u64Max old.highestModseq 1 }
    have entry' : (old.touch uid).entry uid = some e' := by
      rw [touch_entry, entry, Option.map_some, if_pos own]
    exact Folder.stored_eq_some.mpr
      ⟨old.touch uid, e', _, load', entry', findFile_renamed found, rfl, rfl⟩
  · intro u other
    have same : source.base = e.base := (findFile_some found).2
    simp only [Folder.stored, load', load, Option.bind_some, touch_entry, Option.bind_map]
    refine Option.bind_congr fun o ho => ?_
    obtain ⟨memo, ownu⟩ := UidList.entry_some ho
    have apart : o.base ≠ source.base := by
      intro eq
      rw [List.inj_on_of_nodup_map accepted.bases memo mem (eq.trans same)] at ownu
      exact other (ownu.symm.trans own)
    simp only [Function.comp, if_neg (ownu ▸ other : ¬o.uid = uid)]
    exact congrArg _ (findFile_renamed_other rfl apart)

variable {s s' : MailStore} {name : String}

/-- A change of flags is what is stored afterwards, and nothing else is changed. -/
theorem MailStore.setFlags_stored {flags : FlagSet}
    {updated : MessageMeta} (h : s.setFlags name uid flags = (s', .ok updated)) :
    (s.stored name uid).isSome ∧ s'.stored name uid = some (flags, updated.modseq) ∧
      ∀ u, u ≠ uid → s'.stored name u = s.stored name u := by
  unfold MailStore.setFlags at h
  split at h
  · cases h
  rename_i normalized folder opened
  split at h
  · cases h
  rename_i changed list target set
  cases h
  obtain ⟨old, own, others⟩ := Folder.setFlags_stored set
  have opened' : MailStore.openDir
      { s with folders := Assoc.modify normalized (fun _ => changed) s.folders } name =
        .ok (normalized, changed) := by
    unfold MailStore.openDir MailStore.find at opened ⊢
    split at opened
    · cases opened
    split at opened
    · rename_i found
      cases opened
      simp [Assoc.lookup_modify, found]
    · cases opened
  refine ⟨?_, ?_, fun u other => ?_⟩
  · simpa only [MailStore.stored, opened] using old
  · simpa only [MailStore.stored, opened'] using own
  · simpa only [MailStore.stored, opened, opened'] using others u other

theorem MailStore.setFlags_error {flags : FlagSet}
    {error : MailError} (h : s.setFlags name uid flags = (s', .error error)) : s' = s := by
  unfold MailStore.setFlags at h
  split at h
  · cases h; rfl
  split at h
  · cases h; rfl
  · cases h

theorem syncUidlist_loaded {file : Option UidList}
    (load : loadUidlist file = some list) (bases : List String) (fresh fresh' : Nat) :
    syncUidlist file bases fresh = syncUidlist file bases fresh' := by
  simp only [syncUidlist, loadOrRebuild, load, Option.getD_some]

/-- Opening a folder keeps the flags of every message that is stored. -/
theorem MailStore.openFolder_stored {fresh : Nat}
    {result : Except MailError FolderState} (h : s.openFolder name false fresh = (s', result))
    {flags : FlagSet} (stored : s.stored name uid = some (flags, modseq)) :
    ∃ modseq', s'.stored name uid = some (flags, modseq') := by
  rcases s.openFolder_cases name false fresh with ⟨error, run⟩ |
    ⟨t, state, normalized, folder, list, run, o⟩
  · cases h.symm.trans run
    exact ⟨modseq, stored⟩
  cases h.symm.trans run
  have sync := o.sync
  have opened : s.openDir name = .ok (normalized, folder) := by
    simp only [MailStore.openDir, o.normal, o.found]
  have opened' : s'.openDir name = .ok (normalized, folder.opened false list) := by
    simp only [MailStore.openDir, o.normal, o.find, if_true]
  simp only [MailStore.stored, opened, opened'] at stored ⊢
  obtain ⟨old, e, f, load, entry, file, rfl, rfl⟩ := Folder.stored_eq_some.mp stored
  have accepted := (loadUidlist_some load).2
  obtain ⟨mem, rfl⟩ := UidList.entry_some entry
  obtain ⟨fmem, fbase⟩ := findFile_some file
  -- the message has a file, so its entry is kept
  rw [syncUidlist_loaded load _ _ 1] at sync
  obtain ⟨grown, kept⟩ := syncUidlist_spec ⟨Nat.one_pos, by decide⟩ scanBases_valid sync
  have lists : list.Lists e.uid e.base := by
    refine kept _ _ ?_ (fbase ▸ base_mem_scan fmem (fbase ▸ accepted.valid e mem))
    simp only [loadOrRebuild, load, Option.getD_some]
    exact ⟨e, mem, rfl, rfl⟩
  obtain ⟨o, omem, ouid, obase⟩ := lists
  exact ⟨o.modseq, Folder.stored_eq_some.mpr ⟨list, o, f, loadUidlist_of_accepted grown.accepted,
    ouid ▸ grown.accepted.entry_eq omem, by simpa [obase, Folder.opened] using file, rfl, rfl⟩⟩

end MailStack.Maildir
