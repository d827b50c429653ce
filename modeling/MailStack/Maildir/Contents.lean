import MailStack.Maildir.Frame

/-! What the operations of a store do to the messages in its folders, wherever the files of these
are, and to the UIDs of the messages of a folder that was opened. -/

namespace MailStack.Maildir

open Lib

/-- A message with the name, the flags and the size of its file. -/
abbrev Content := String × FlagSet × Nat

def MessageFile.content (f : MessageFile) : Content := (f.base, f.flags, f.size)

namespace MailStore

variable {s t : MailStore} {name target : String}

def contents (s : MailStore) (name : String) : Option (List Content) :=
  (s.find name).map fun folder => folder.files.map MessageFile.content

theorem contents_congr (same : t.folders = s.folders) (name : String) :
    t.contents name = s.contents name := by
  rw [contents, contents, find, find, same]

theorem contents_modify {key : String} {g : Folder → Folder} {h : List Content → List Content}
    (changed : t.folders = Assoc.modify key g s.folders)
    (does : ∀ folder, s.find key = some folder →
      (g folder).files.map MessageFile.content = h (folder.files.map MessageFile.content))
    (name : String) :
    t.contents name =
      (s.contents name).map fun before => if name = key then h before else before := by
  have after : t.find name = if name = key then (s.find name).map g else s.find name := by
    rw [find, changed, Assoc.lookup_modify]
    rfl
  rw [contents, contents, after]
  by_cases here : name = key
  · subst here
    cases found : s.find name with
    | none => simp
    | some folder => simp [does folder found]
  · simp only [if_neg here, Option.map_map]
    rfl

theorem normalizeFolderName_normal {given normalized : String}
    (h : normalizeFolderName given = .ok normalized) :
      normalizeFolderName normalized = .ok normalized := by
  rcases normal_cases h with ⟨-, rfl⟩ | ⟨rfl, accepted, -⟩
  · rw [normalizeFolderName, if_pos isInbox_inbox]
  · exact accepted

theorem openDir_ok_iff (normal : normalizeFolderName name = .ok name) {found : String × Folder} :
    s.openDir name = .ok found ↔ found.1 = name ∧ s.find name = some found.2 := by
  obtain ⟨normalized, folder⟩ := found
  simp only [openDir, normal]
  cases s.find name with
  | none => simp
  | some other => simp [eq_comm]

theorem openFolder_contents (s : MailStore) (given : String) (fresh : Nat) (name : String) :
    (s.openFolder given false fresh).1.contents name = s.contents name := by
  rcases openFolder_cases s given false fresh with ⟨error, run⟩ | ⟨t, _, _, folder, _, run, o⟩
  · rw [run]
  rw [run]
  obtain ⟨change, changed, opened⟩ := o.after
  refine (contents_modify (h := id) changed (fun other found => ?_) name).trans ?_
  · obtain rfl := Option.some.inj (o.found.symm.trans found)
    rw [opened]
    rfl
  · simp

variable {fresh : Nat} {staged : List MessageFile} {result : Nat × List Nat}

theorem appendCounted_contents (normal : normalizeFolderName target = .ok target)
    {messages size : Nat}
    (ran : s.appendCounted target messages size staged fresh = (t, .ok result)) (name : String) :
    t.contents name = (s.contents name).map fun before =>
      if name = target then before ++ staged.map MessageFile.content else before := by
  rcases appendCounted_cases s target messages size staged fresh with ⟨_, error, run, -⟩ |
    ⟨_, normalized, folder, list, uids, run, opened, -, changed⟩
  · cases ran.symm.trans run
  · cases ran.symm.trans run
    obtain ⟨rfl, -⟩ := (openDir_ok_iff normal).mp opened
    exact contents_modify changed (fun folder _ => List.map_append) name

theorem copyLoop_contents (normal : normalizeFolderName target = .ok target)
    {fresh uidvalidity : Nat}
    {copies : List (MessageMeta × String)}
    (ran : s.copyLoop target fresh uidvalidity copies = (t, .ok result)) (name : String) :
    t.contents name = (s.contents name).map fun before =>
      if name = target then before ++ copies.map fun (m, base) => (base, m.flags, m.size) else before := by
  induction copies generalizing s uidvalidity result with
  | nil =>
    cases ran
    simp
  | cons copy rest ih =>
    obtain ⟨message, base⟩ := copy
    unfold copyLoop at ran
    simp only at ran
    split at ran
    · cases ran
    rename_i left validity uids first
    split at ran
    · cases ran
    rename_i last validity' copied more
    cases ran
    rw [ih more, appendCounted_contents normal first, Option.map_map]
    refine congrArg (Option.map · _) (funext fun before => ?_)
    by_cases here : name = target
    · simp [here, MessageFile.content]
    · simp [here]

end MailStore

variable {uids : List Nat} {state : FolderState} {flags : FlagSet}

theorem assignUidsMany_keeps {file : Option UidList} {bases : List String}
    {list new : UidList} (load : loadUidlist file = some list)
    (valid : ∀ b ∈ bases, isValidBase b = true)
    (run : assignUidsMany file bases fresh = some (new, uids)) :
    loadUidlist (some new) = some new ∧ ∀ uid base, list.Lists uid base → new.Lists uid base := by
  have one : IsUidvalidity 1 := ⟨Nat.one_pos, by decide⟩
  have same : assignUidsMany file bases 1 = assignUidsMany file bases fresh := by
    simp only [assignUidsMany, loadOrRebuild_of_load _ load]
  obtain ⟨grown, kept, -⟩ := assignUidsMany_spec one valid (same.trans run)
  rw [loadOrRebuild_of_load _ load] at kept
  exact ⟨loadUidlist_of_accepted grown.accepted, kept⟩

/-- The messages have files in the folder, and its list has them under their UIDs. -/
structure Folder.Has (shown : List MessageMeta) (folder : Folder) (list : UidList) : Prop where
  load : loadUidlist folder.uidFile = some list
  lists : ∀ m ∈ shown, list.Lists m.uid m.base
  present : ∀ m ∈ shown, Present folder.files m.base

variable {list : UidList}

theorem Folder.Has.same {shown : List MessageMeta} {folder after : Folder}
    (has : folder.Has shown list) (same : folder.Same after) : ∃ list', after.Has shown list' := by
  obtain ⟨list', load, -, kept⟩ := same.listed list has.load
  refine ⟨list', load, fun m mem => ?_, fun m mem => ?_⟩
  · obtain ⟨e, listed, uid, own⟩ := has.lists m mem
    exact ⟨e, kept e listed (own ▸ has.present m mem), uid, own⟩
  · exact same.files ▸ has.present m mem

variable {folder : Folder}

theorem Folder.Has.append {shown : List MessageMeta} {list new : UidList}
    (has : folder.Has shown list)
    (valid : ∀ f ∈ staged, isValidBase f.base = true) (expunged : List Removal)
    (run : assignUidsMany folder.uidFile (staged.map (·.base)) fresh = some (new, uids)) :
    Folder.Has shown
      { folder with files := folder.files ++ staged, uidFile := some new, expunged } new := by
  obtain ⟨load, kept⟩ := assignUidsMany_keeps has.load (by simpa using valid) run
  refine ⟨load, fun m mem => kept _ _ (has.lists m mem), fun m mem => ?_⟩
  obtain ⟨f, inFiles, own⟩ := has.present m mem
  exact ⟨f, List.mem_append_left _ inFiles, own⟩

theorem Folder.Has.setFlags {shown : List MessageMeta} {folder changed : Folder}
    {list new : UidList}
    (has : folder.Has shown list) {uid : Nat} {flags : FlagSet} {target : MessageFile}
    (run : folder.setFlags uid flags = .ok (changed, new, target)) : changed.Has shown new := by
  obtain ⟨list', source, load, -, rfl, -, rfl, rfl⟩ := setFlags_ok run
  obtain rfl := Option.some.inj (has.load.symm.trans load)
  have accepted := (loadUidlist_some load).2
  refine ⟨loadUidlist_of_accepted (accepted.touch uid), fun m mem => ?_, fun m mem => ?_⟩
  · exact touch_lists.mpr (has.lists m mem)
  · obtain ⟨f, inFiles, own⟩ := has.present m mem
    refine ⟨_, List.mem_map_of_mem inFiles, ?_⟩
    split
    · next same => rw [← own, same]
    · exact own

theorem Folder.has_messages (accepted : list.Accepted)
    (expunged : List Removal) : Folder.Has (list.messages folder.scan)
      { folder with uidFile := some list, expunged } list := by
  have own : ∀ m ∈ list.messages folder.scan,
      m.base ∈ scanBases folder.scan ∧ list.Lists m.uid m.base :=
    fun m mem => (shown_iff accepted).mp ⟨m, mem, rfl, rfl⟩
  refine ⟨loadUidlist_of_accepted accepted, fun m mem => (own m mem).2, fun m mem => ?_⟩
  obtain ⟨f, scanned, same⟩ := mem_scanBases.mp (own m mem).1
  refine ⟨f, ?_, same⟩
  rcases mem_mergeScan scanned with inDirectory | inDirectory
  · exact (mem_scanDirectory inDirectory).1
  · exact (mem_scanDirectory inDirectory).1

def Single (files : List MessageFile) (base : String) : Prop := (files.map (·.base)).count base ≤ 1

variable {base : String} {files : List MessageFile}

theorem Single.eq (single : Single files base)
    {f g : MessageFile} (inFiles : f ∈ files) (inFiles' : g ∈ files) (own : f.base = base)
    (own' : g.base = base) : f = g := by
  induction files with
  | nil => cases inFiles
  | cons first rest ih =>
    rw [Single, List.map_cons, List.count_cons] at single
    have none_ (here : first.base = base) : ∀ h ∈ rest, h.base ≠ base := by
      intro h mem same
      have some : 0 < (rest.map (·.base)).count base :=
        List.count_pos_iff.mpr (List.mem_map.mpr ⟨h, mem, same⟩)
      rw [if_pos (by simpa using here)] at single
      omega
    rcases List.mem_cons.mp inFiles with rfl | later
    · rcases List.mem_cons.mp inFiles' with rfl | later'
      · rfl
      · exact absurd own' (none_ own g later')
    · rcases List.mem_cons.mp inFiles' with rfl | later'
      · exact absurd own (none_ own' f later)
      · exact ih (Nat.le_trans (Nat.le_add_right _ _) single) later later'

theorem Single.erase {file : MessageFile} (single : Single files file.base) (mem : file ∈ files) :
    files.erase file = files.filter (·.base ≠ file.base) := by
  obtain ⟨front, back, -, rfl, erased⟩ := List.exists_erase_eq mem
  rw [Single, List.map_append, List.count_append, List.map_cons, List.count_cons_self] at single
  have none_ {part : List MessageFile} (few : (part.map (·.base)).count file.base = 0) :
      part.filter (·.base ≠ file.base) = part := by
    refine List.filter_eq_self.mpr fun f inPart => decide_eq_true fun same => ?_
    exact List.count_eq_zero.mp few (List.mem_map.mpr ⟨f, inPart, same⟩)
  rw [erased, List.filter_append, List.filter_cons_of_neg (by simp), none_ (by omega),
    none_ (by omega)]

theorem findFile_eq_none (h : findFile files base = none) :
    ∀ f ∈ files, f.base ≠ base := by
  intro f mem same
  unfold findFile at h
  cases found : files.find? fun f => f.directory = .cur && f.base = base with
  | some g =>
    rw [found] at h
    cases h
  | none =>
    rw [found] at h
    have inCur := List.find?_eq_none.mp found f mem
    have inNew := List.find?_eq_none.mp h f mem
    cases directory : f.directory with
    | cur => simp [directory, same] at inCur
    | new => simp [directory, same] at inNew

theorem Single.filter (single : Single files base)
    (p : MessageFile → Bool) : Single (files.filter p) base :=
  Nat.le_trans ((List.filter_sublist.map _).count_le base) single

theorem expungeLoop_left
    (single : ∀ uid ∈ uids, ∀ base, list.baseOf uid = some base → Single files base) :
    (expungeLoop list uids files).1 =
      files.filter fun f => uids.all fun uid => list.baseOf uid ≠ some f.base := by
  induction uids generalizing files with
  | nil => simp [expungeLoop]
  | cons uid rest ih =>
    have later := fun u mem => single u (List.mem_cons_of_mem _ mem)
    simp only [expungeLoop, List.all_cons]
    split
    · next none_ =>
      rw [ih later]
      simp [none_]
    next base listed =>
    have own := single uid List.mem_cons_self base listed
    have step : files.filter (fun f => decide (list.baseOf uid ≠ some f.base) &&
          rest.all fun uid => decide (list.baseOf uid ≠ some f.base)) =
        (files.filter (·.base ≠ base)).filter fun f =>
          rest.all fun uid => list.baseOf uid ≠ some f.base := by
      rw [List.filter_filter]
      refine List.filter_congr fun f _ => ?_
      simp [listed, eq_comm, Bool.and_comm]
    rw [step]
    split
    · next missing =>
      rw [ih later, List.filter_eq_self.mpr fun f mem =>
        decide_eq_true (findFile_eq_none missing f mem)]
    · next file found =>
      obtain ⟨mem, rfl⟩ := findFile_some found
      rw [← own.erase mem]
      refine ih fun u inRest b listed' => ?_
      rw [own.erase mem]
      exact (later u inRest b listed').filter _

theorem Folder.setFlags_content {folder changed : Folder} {list new : UidList} {uid : Nat}
    {target : MessageFile}
    (load : loadUidlist folder.uidFile = some list) (listed : list.Lists uid base)
    (single : Single folder.files base)
    (run : folder.setFlags uid flags = .ok (changed, new, target)) :
    changed.files.map MessageFile.content =
      (folder.files.map MessageFile.content).map fun c =>
        if c.1 = base then (c.1, flags, c.2.2) else c := by
  obtain ⟨list', source, load', listed', -, mem, rfl, rfl⟩ := setFlags_ok run
  obtain rfl := Option.some.inj (load.symm.trans load')
  have own : source.base = base := (loadUidlist_some load).2.base_eq listed' listed
  rw [List.map_map, List.map_map]
  refine List.map_congr_left fun f inFiles => ?_
  by_cases here : f = source
  · subst here
    simp [MessageFile.content, own]
  · have other : f.base ≠ base := fun same => here (single.eq inFiles mem same own)
    simp [MessageFile.content, here, other]

theorem baseOf_eq (accepted : list.Accepted) {uid : Nat}
    (listed : list.Lists uid base) : list.baseOf uid = some base := by
  cases found : list.baseOf uid with
  | none =>
    obtain ⟨e, mem, own, -⟩ := listed
    have missing := List.find?_eq_none.mp (Option.map_eq_none_iff.mp found) e mem
    exact absurd own (by simpa using missing)
  | some other => rw [accepted.base_eq (baseOf_some found) listed]

def namedBases (shown : List MessageMeta) (uids : List Nat) : List String :=
  (shown.filter fun m => uids.contains m.uid).map (·.base)

theorem mem_namedBases {shown : List MessageMeta} :
    base ∈ namedBases shown uids ↔ ∃ m ∈ shown, m.uid ∈ uids ∧ m.base = base := by
  simp [namedBases, and_assoc]

theorem Folder.Has.expunge_files {shown : List MessageMeta}
    (has : folder.Has shown list) (known : ∀ uid ∈ uids, ∃ m ∈ shown, m.uid = uid)
    (single : ∀ m ∈ shown, Single folder.files m.base) :
    (folder.expunge uids).1.files =
      folder.files.filter fun f => f.base ∉ namedBases shown uids := by
  have accepted := (loadUidlist_some has.load).2
  have lone : ∀ uid ∈ uids, ∀ base, list.baseOf uid = some base → Single folder.files base := by
    intro uid mem base listed
    obtain ⟨m, inShown, rfl⟩ := known uid mem
    rw [accepted.base_eq (baseOf_some listed) (has.lists m inShown)]
    exact single m inShown
  have files : (folder.expunge uids).1.files = (expungeLoop list uids folder.files).1 := by
    rw [expunge_of_load has.load rfl]
    split <;> rfl
  rw [files, expungeLoop_left lone]
  refine List.filter_congr fun f _ => ?_
  rw [Bool.eq_iff_iff, List.all_eq_true, decide_eq_true_iff, mem_namedBases]
  constructor
  · rintro none_ ⟨m, inShown, asked, own⟩
    have other := of_decide_eq_true (none_ m.uid asked)
    exact other (own ▸ baseOf_eq accepted (has.lists m inShown))
  · intro other uid asked
    obtain ⟨m, inShown, rfl⟩ := known uid asked
    refine decide_eq_true fun own => other ⟨m, inShown, asked, ?_⟩
    exact accepted.base_eq (has.lists m inShown) (baseOf_some own)

namespace MailStore

variable {s t : MailStore} {name target : String} {shown : List MessageMeta}

def Has (name : String) (shown : List MessageMeta) (s : MailStore) : Prop :=
  ∃ folder list, s.find name = some folder ∧ folder.Has shown list

theorem Has.spares (has : Has name shown s) (spares : Spares name s t) : Has name shown t := by
  obtain ⟨folder, list, found, own⟩ := has
  obtain ⟨after, found', same⟩ := spares folder found
  obtain ⟨list', own'⟩ := own.same same
  exact ⟨after, list', found', own'⟩

def Lone (base : String) (cs : List Content) : Prop := (cs.map (·.1)).count base ≤ 1

theorem single_of_contents {cs : List Content} (found : s.find name = some folder)
    (contents : s.contents name = some cs) (lone : Lone base cs) :
    Single folder.files base := by
  rw [MailStore.contents, found, Option.map_some] at contents
  obtain rfl := Option.some.inj contents
  rw [Lone, List.map_map] at lone
  exact lone

theorem expunge_contents (normal : normalizeFolderName name = .ok name) (has : Has name shown s)
    (known : ∀ uid ∈ uids, ∃ m ∈ shown, m.uid = uid)
    (lone : ∀ m ∈ shown, ∀ cs ∈ s.contents name, Lone m.base cs) (n : String) :
    (s.expunge name uids).1.contents n = (s.contents n).map fun before =>
      if n = name then before.filter fun c => c.1 ∉ namedBases shown uids else before := by
  obtain ⟨folder, list, found, own⟩ := has
  have opened : s.openDir name = .ok (name, folder) := (openDir_ok_iff normal).mpr ⟨rfl, found⟩
  have files := own.expunge_files known fun m mem => by
    have here : s.contents name = some (folder.files.map MessageFile.content) := by
      rw [contents, found, Option.map_some]
    exact single_of_contents found here (lone m mem _ here)
  have left : ({ s with
      folders := Assoc.modify name (fun _ => (folder.expunge uids).1) s.folders } :
      MailStore).contents n = (s.contents n).map fun before =>
        if n = name then before.filter fun c => c.1 ∉ namedBases shown uids else before := by
    refine contents_modify rfl (fun other found' => ?_) n
    obtain rfl := Option.some.inj (found.symm.trans found')
    rw [files, List.filter_map]
    rfl
  unfold expunge
  rw [opened]
  simp only
  split
  · exact left
  · rw [contents_congr (releaseQuota_folders _)]
    exact left

variable {m : MessageMeta}

theorem setFlags_contents (normal : normalizeFolderName name = .ok name) (has : Has name shown s)
    (mem : m ∈ shown) (lone : ∀ cs ∈ s.contents name, Lone m.base cs)
    {result : MessageMeta} (ran : s.setFlags name m.uid flags = (t, .ok result)) :
    Has name shown t ∧ ∀ n, t.contents n = (s.contents n).map fun before =>
      if n = name then before.map fun c => if c.1 = m.base then (c.1, flags, c.2.2) else c
      else before := by
  obtain ⟨folder, list, found, own⟩ := has
  have opened : s.openDir name = .ok (name, folder) := (openDir_ok_iff normal).mpr ⟨rfl, found⟩
  have here : s.contents name = some (folder.files.map MessageFile.content) := by
    rw [contents, found, Option.map_some]
  unfold setFlags at ran
  rw [opened] at ran
  simp only at ran
  split at ran
  · cases ran
  rename_i changed list' target run
  cases ran
  have content := Folder.setFlags_content own.load (own.lists m mem)
    (single_of_contents found here (lone _ here)) run
  refine ⟨⟨changed, list', ?_, own.setFlags run⟩, fun n => ?_⟩
  · rw [find, Assoc.lookup_modify, if_pos rfl]
    exact congrArg (Option.map _) found
  · refine contents_modify rfl (fun other found' => ?_) n
    obtain rfl := Option.some.inj (found.symm.trans found')
    exact content

theorem openFolder_ok (normal : normalizeFolderName name = .ok name)
    (drawn : IsUidvalidity fresh)
    (ran : s.openFolder name false fresh = (t, .ok state)) :
    ∃ folder list, s.find name = some folder ∧ list.Accepted ∧
      t.find name = some { folder with uidFile := some list, expunged := folder.history } ∧
      state.messages = list.messages folder.scan := by
  obtain ⟨normalized, folder, list, o⟩ := opened_of_ok ran
  cases normal.symm.trans o.normal
  refine ⟨folder, list, o.found, (syncUidlist_spec drawn scanBases_valid o.sync).1.accepted, ?_,
    o.messages⟩
  rw [o.find, if_pos rfl]
  rfl

theorem openFolder_has (normal : normalizeFolderName name = .ok name)
    (drawn : IsUidvalidity fresh)
    (ran : s.openFolder name false fresh = (t, .ok state)) : Has name state.messages t := by
  obtain ⟨folder, list, -, accepted, after, messages⟩ := openFolder_ok normal drawn ran
  exact ⟨_, list, after, messages ▸ Folder.has_messages accepted _⟩

theorem shown_content (mem : m ∈ list.messages folder.scan) :
    list.Lists m.uid m.base ∧ (m.base, m.flags, m.size) ∈ folder.files.map MessageFile.content := by
  rw [UidList.messages, List.mem_mergeSort, List.mem_filterMap] at mem
  obtain ⟨f, scanned, eq⟩ := mem
  obtain ⟨e, found, rfl⟩ := Option.map_eq_some_iff.mp eq
  have own : e.base = f.base := by simpa using List.find?_some found
  refine ⟨⟨e, List.mem_of_find?_eq_some found, rfl, own⟩, List.mem_map.mpr ⟨f, ?_, rfl⟩⟩
  rcases mem_mergeScan scanned with inDirectory | inDirectory
  · exact (mem_scanDirectory inDirectory).1
  · exact (mem_scanDirectory inDirectory).1

/-- No UID is shown twice, where no two files have one base. -/
theorem nodup_shown (distinct : (folder.files.map (·.base)).Nodup)
    (accepted : list.Accepted) : ((list.messages folder.scan).map (·.uid)).Nodup := by
  have apart : folder.scan.Pairwise fun f g => f.base ≠ g.base := by
    have parts (directory : Directory) :
        (scanDirectory folder.files directory).Pairwise fun f g => f.base ≠ g.base :=
      (List.pairwise_map.mp distinct).sublist List.filter_sublist
    refine List.pairwise_append.mpr ⟨(parts .new).sublist List.filter_sublist, parts .cur, ?_⟩
    intro f inNew g inCur same
    have alone := (List.mem_filter.mp inNew).2
    simp only [Bool.not_eq_true', List.any_eq_false, decide_eq_true_eq] at alone
    exact alone g inCur same.symm
  have perm := (List.mergeSort_perm (folder.scan.filterMap fun f =>
    (list.byUid.find? (·.base = f.base)).map fun e => ({
      uid := e.uid, base := f.base, size := f.size, modseq := e.modseq, flags := f.flags
      recent := f.directory = .new } : MessageMeta)) fun a b => a.uid ≤ b.uid).map (·.uid)
  refine perm.nodup_iff.mpr (List.pairwise_map.mpr (apart.filterMap _ ?_))
  intro f g other a fromF b fromG same
  obtain ⟨e, found, rfl⟩ := Option.map_eq_some_iff.mp fromF
  obtain ⟨e', found', rfl⟩ := Option.map_eq_some_iff.mp fromG
  have own : e.base = f.base := by simpa using List.find?_some found
  have own' : e'.base = g.base := by simpa using List.find?_some found'
  have entry := List.inj_on_of_nodup_map accepted.uids (List.mem_of_find?_eq_some found)
    (List.mem_of_find?_eq_some found') same
  exact other (own.symm.trans ((congrArg UidEntry.base entry).trans own'))

/-- An opened folder shows its messages in the order of their UIDs. -/
theorem openFolder_ascending (normal : normalizeFolderName name = .ok name)
    (drawn : IsUidvalidity fresh)
    (distinct : ∀ folder, s.find name = some folder → (folder.files.map (·.base)).Nodup)
    (ran : s.openFolder name false fresh = (t, .ok state)) :
    state.messages.Pairwise fun a b => a.uid < b.uid := by
  obtain ⟨folder, list, found, accepted, -, messages⟩ := openFolder_ok normal drawn ran
  have sorted : (list.messages folder.scan).Pairwise fun a b => decide (a.uid ≤ b.uid) = true :=
    List.pairwise_mergeSort (fun a b c => by simpa using Nat.le_trans)
      (fun a b => by simpa using Nat.le_total a.uid b.uid) _
  have apart := List.pairwise_map.mp (nodup_shown (distinct folder found) accepted)
  rw [messages]
  exact (sorted.and apart).imp fun both => Nat.lt_of_le_of_ne (of_decide_eq_true both.1) both.2

theorem sources_contents {messages found : List MessageMeta}
    (h : sources messages uids = .ok found) {g : Nat → FlagSet × Nat}
    (same : ∀ uid ∈ uids, ∀ m ∈ messages, m.uid = uid → (m.flags, m.size) = g uid) :
    found.map (fun m => (m.flags, m.size)) = uids.map g := by
  induction uids generalizing found with
  | nil =>
    cases h
    rfl
  | cons uid rest ih =>
    unfold sources at h
    split at h
    · cases h
    rename_i message here
    have own := same uid List.mem_cons_self message (List.mem_of_find?_eq_some here)
      (by simpa using List.find?_some here)
    cases later : sources messages rest with
    | error error =>
      rw [later] at h
      cases h
    | ok more =>
      rw [later] at h
      cases h
      rw [List.map_cons, List.map_cons, own,
        ih later fun u mem => same u (List.mem_cons_of_mem _ mem)]

theorem folder_eq_find
    (normal : normalizeFolderName name = .ok name) : s.folder name = s.find name := by
  simp only [MailStore.folder, openDir, normal]
  cases s.find name with
  | none => rfl
  | some folder => rfl

theorem Has.appendCounted (normal : normalizeFolderName name = .ok name) (has : Has name shown s)
    (normal' : normalizeFolderName target = .ok target) {messages size : Nat}
    (valid : ∀ f ∈ staged, isValidBase f.base = true) (fresh : Nat) :
    Has name shown (s.appendCounted target messages size staged fresh).1 := by
  by_cases same : target = name
  · subst same
    obtain ⟨folder, list, found, own⟩ := has
    have here : s.folder target = some folder := (folder_eq_find normal).trans found
    obtain ⟨after, found', list', own'⟩ : ∃ after,
        (s.appendCounted target messages size staged fresh).1.folder target = some after ∧
          ∃ list, after.Has shown list :=
      appendCounted_folder here ⟨list, own⟩ fun new uids run => ⟨new, own.append valid _ run⟩
    exact ⟨after, list', (folder_eq_find normal).symm.trans found', own'⟩
  · refine has.spares (appendCounted_spares (fun eq => same ?_) _ _ _ _)
    exact Except.ok.inj (normal'.symm.trans eq)

theorem Has.copyLoop (normal : normalizeFolderName name = .ok name)
    (normal' : normalizeFolderName target = .ok target) {copies : List (MessageMeta × String)}
    (valid : ∀ copy ∈ copies, isValidBase copy.2 = true) (has : Has name shown s)
    (fresh uidvalidity : Nat) : Has name shown (s.copyLoop target fresh uidvalidity copies).1 := by
  induction copies generalizing s uidvalidity with
  | nil => exact has
  | cons copy rest ih =>
    obtain ⟨message, base⟩ := copy
    unfold MailStore.copyLoop
    have first : Has name shown (s.appendCounted target 1 message.size
        [{ base, directory := .cur, flags := message.flags, size := message.size }] fresh).1 :=
      has.appendCounted normal normal' (by simpa using valid _ List.mem_cons_self) fresh
    simp only
    split
    · rename_i left error run
      rwa [run] at first
    rename_i left validity uids run
    rw [run] at first
    have later := ih (fun copy mem => valid copy (List.mem_cons_of_mem _ mem)) first validity
    split
    · rename_i last error more
      rwa [more] at later
    · rename_i last validity' copied more
      rwa [more] at later

def Depicts (shown : List MessageMeta) (cs : List Content) : Prop :=
  ∀ m ∈ shown, ∀ c ∈ cs, c.1 = m.base → c.2 = (m.flags, m.size)

/-- The flags and the size of the message that is shown under the UID. -/
def contentOf (shown : List MessageMeta) (uid : Nat) : FlagSet × Nat :=
  ((shown.find? (·.uid = uid)).map fun m => (m.flags, m.size)).getD (∅, 0)

theorem contentOf_eq (nodup : (shown.map (·.uid)).Nodup) (mem : m ∈ shown) :
    contentOf shown m.uid = (m.flags, m.size) := by
  unfold contentOf
  cases found : shown.find? (·.uid = m.uid) with
  | none => exact absurd (List.find?_eq_none.mp found m mem) (by simp)
  | some other =>
    have own : other.uid = m.uid := by simpa using List.find?_some found
    rw [List.inj_on_of_nodup_map nodup (List.mem_of_find?_eq_some found) mem own]
    rfl

/-- What the copying of shown messages does: each UID gets its own copy, at the end of the
target. -/
theorem copyMany_contents (normal : normalizeFolderName name = .ok name)
    (normal' : normalizeFolderName target = .ok target) (has : Has name shown s)
    (nodup : (shown.map (·.uid)).Nodup) (depicts : ∀ cs ∈ s.contents name, Depicts shown cs)
    (known : ∀ uid ∈ uids, ∃ m ∈ shown, m.uid = uid) (some_ : uids ≠ [])
    {drawn : Nat → String} (valid : ∀ i, isValidBase (drawn i) = true)
    (hfresh : IsUidvalidity fresh)
    (ran : s.copyMany name uids target drawn fresh = (t, .ok result)) :
    Has name shown t ∧ ∃ copies : List Content,
      copies.map (·.2) = uids.map (contentOf shown) ∧ (∀ c ∈ copies, ∃ i, c.1 = drawn i) ∧
      ∀ n, t.contents n = (s.contents n).map fun before =>
        if n = target then before ++ copies else before := by
  unfold copyMany at ran
  rw [if_neg (by simpa using some_)] at ran
  split at ran
  · cases ran
  rename_i opened state first
  split at ran
  · cases ran
  rename_i messages found
  obtain ⟨folder, list, here, accepted, now, messages_eq⟩ := openFolder_ok normal hfresh first
  have contents := openFolder_contents s name fresh
  have kept := has.spares (openFolder_spares s name name fresh)
  rw [first] at contents kept
  have copied := copyLoop_contents normal' ran
  have names : ∀ copy ∈ messages.zipIdx.map fun p => (p.1, drawn p.2),
      isValidBase copy.2 = true := by
    intro copy mem
    obtain ⟨⟨m, i⟩, -, rfl⟩ := List.mem_map.mp mem
    exact valid i
  have after : Has name shown t := Eq.subst (motive := fun copied => Has name shown copied.1) ran
    (kept.copyLoop normal normal' names fresh 0)
  -- a message of the second opening is the one that is shown under its UID
  have same : ∀ uid ∈ uids, ∀ m' ∈ state.messages, m'.uid = uid →
      (m'.flags, m'.size) = contentOf shown uid := by
    rintro uid asked m' inState rfl
    obtain ⟨m, inShown, own⟩ := known _ asked
    obtain ⟨listed, inside⟩ := shown_content (messages_eq ▸ inState)
    obtain ⟨folder', list', found', has'⟩ := kept
    obtain rfl := Option.some.inj (now.symm.trans found')
    obtain rfl := Option.some.inj ((loadUidlist_of_accepted accepted).symm.trans has'.load)
    have base : m'.base = m.base := accepted.base_eq (own ▸ listed) (has'.lists m inShown)
    have cs : s.contents name = some (folder.files.map MessageFile.content) := by
      rw [MailStore.contents, here, Option.map_some]
    rw [← own, contentOf_eq nodup inShown]
    exact depicts _ cs m inShown _ inside base
  refine ⟨after, messages.zipIdx.map fun p => (drawn p.2, p.1.flags, p.1.size), ?_, ?_, fun n => ?_⟩
  · rw [← sources_contents found same, List.map_map]
    calc messages.zipIdx.map _
      _ = (messages.zipIdx.map Prod.fst).map fun m => (m.flags, m.size) := by
        rw [List.map_map]
        rfl
      _ = messages.map fun m => (m.flags, m.size) := by rw [List.zipIdx_map_fst]
  · intro c mem
    obtain ⟨⟨m, i⟩, -, rfl⟩ := List.mem_map.mp mem
    exact ⟨i, rfl⟩
  · rw [copied n, contents n, List.map_map]
    rfl

end MailStore

end MailStack.Maildir
