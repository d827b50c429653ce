import MailStack.Maildir.Quota
import MailStack.Maildir.UidOperations

/-! What a client that comes back is told of the messages that are gone. The log of removals has
every message that was expunged; it has none of those that are dropped from the list because their
files are missing, and when it has grown too long its older lines are lost. -/

namespace MailStack.Maildir

open Lib

@[grind =] def MailStore.folder (s : MailStore) (name : String) : Option Folder :=
  match s.openDir name with
  | .ok (_, folder) => some folder
  | .error _ => none

/-- Message files are removed behind the store's back. -/
def MailStore.vanish (s : MailStore) (name : String) (lost : List MessageFile) : MailStore :=
  match s.openDir name with
  | .ok (normalized, _) =>
    let without (f : Folder) : Folder :=
      { f with files := f.files.filter fun m => !lost.contains m }
    { s with folders := Assoc.modify normalized without s.folders }
  | .error _ => s

inductive FolderAct
  | append (base : Base) (message : NewMessage) (fresh : Uidvalidity)
  | appendMany (messages : List (Base × NewMessage)) (fresh : Uidvalidity)
  | setFlags (uid : Nat) (flags : FlagSet)
  | expunge (uids : List Nat)
  | openFolder (promote : Bool) (fresh : Uidvalidity)
  | vanish (lost : List MessageFile)

namespace FolderAct

def apply (name : String) (s : MailStore) : FolderAct → MailStore
  | .append base message fresh => (s.append name base message fresh).1
  | .appendMany messages fresh => (s.appendMany name (messages.map fun m => (m.1, m.2)) fresh).1
  | .setFlags uid flags => (s.setFlags name uid flags).1
  | .expunge uids => (s.expunge name uids).1
  | .openFolder promote fresh => (s.openFolder name promote fresh).1
  | .vanish lost => s.vanish name lost

def step (name : String) (s : MailStore) (act : FolderAct) : Option MailStore :=
  some (act.apply name s)

/-- Whatever leaves the list is noted, and what was noted stays: a folder is opened only while every
listed message has its file, and an expunge that removes something finds a log that is not too long
and a modification number that can still grow. -/
def Noted (name : String) (s : MailStore) : FolderAct → Prop
  | .openFolder _ _ =>
    ∀ folder list, s.folder name = some folder → loadUidlist folder.uidFile = some list →
      folder.scan.length ≤ maxScanEntries → ∀ e ∈ list.byUid, Present folder.files e.base
  | .expunge uids =>
    ∀ folder list, s.folder name = some folder → loadUidlist folder.uidFile = some list →
      (∃ uid ∈ uids, ∃ base, list.Lists uid base ∧ Present folder.files base) →
      logBytes folder.expunged ≤ expungedMaxBytes ∧ list.highestModseq < u64Max
  | _ => True

end FolderAct

theorem shown_iff {list : UidList} (accepted : list.Accepted) {scan : List MessageFile} {uid : Nat}
    {base : String} :
    (∃ m ∈ list.messages scan, m.uid = uid ∧ m.base = base) ↔
      base ∈ scanBases scan ∧ list.Lists uid base := by
  constructor
  · rintro ⟨m, shown, rfl, rfl⟩
    rw [UidList.messages, List.mem_mergeSort, List.mem_filterMap] at shown
    obtain ⟨f, inScan, eq⟩ := shown
    obtain ⟨e, found, rfl⟩ := Option.map_eq_some_iff.mp eq
    have base : e.base = f.base := by simpa using List.find?_some found
    exact ⟨mem_scanBases.mpr ⟨f, inScan, rfl⟩, e, List.mem_of_find?_eq_some found, rfl, base⟩
  · rintro ⟨inScan, e, mem, rfl, rfl⟩
    obtain ⟨f, scanned, same⟩ := mem_scanBases.mp inScan
    have found : list.byUid.find? (·.base = f.base) = some e := by
      cases eq : list.byUid.find? (·.base = f.base) with
      | none => exact absurd same.symm (by simpa using List.find?_eq_none.mp eq e mem)
      | some o =>
        have base : o.base = f.base := by simpa using List.find?_some eq
        rw [List.inj_on_of_nodup_map accepted.bases (List.mem_of_find?_eq_some eq) mem
          (base.trans same)]
    simp only [UidList.messages, List.mem_mergeSort, List.mem_filterMap]
    exact ⟨_, ⟨f, scanned, congrArg (Option.map _) found⟩, rfl, same⟩

theorem mem_messages {list : UidList} (accepted : list.Accepted) {scan : List MessageFile}
    {uid : Nat} :
    uid ∈ (list.messages scan).map (·.uid) ↔ ∃ base ∈ scanBases scan, list.Lists uid base := by
  constructor
  · intro mem
    obtain ⟨m, shown, rfl⟩ := List.mem_map.mp mem
    exact ⟨m.base, (shown_iff accepted).mp ⟨m, shown, rfl, rfl⟩⟩
  · rintro ⟨base, listed⟩
    obtain ⟨m, shown, same, -⟩ := (shown_iff accepted).mpr listed
    exact List.mem_map.mpr ⟨m, shown, same⟩

theorem mem_expungedSince {folder : Folder} {since uid : Nat} :
    uid ∈ folder.expungedSince since ↔ ∃ modseq, (uid, modseq) ∈ folder.expunged ∧ 0 < uid ∧
      since < modseq := by
  simp only [Folder.expungedSince, List.mem_mergeSort, List.mem_dedup, List.mem_map,
    List.mem_filter, Bool.and_eq_true, decide_eq_true_eq]
  constructor
  · rintro ⟨⟨_, modseq⟩, ⟨mem, positive, later⟩, rfl⟩
    exact ⟨modseq, mem, positive, later⟩
  · rintro ⟨modseq, mem, positive, later⟩
    exact ⟨(uid, modseq), ⟨mem, positive, later⟩, rfl⟩

variable {uids : List Nat}

theorem mem_removals {modseq uid : Nat} (room : modseq < u64Max)
    (mem : uid ∈ uids) : ∃ noted, (uid, noted) ∈ removals modseq uids ∧ modseq < noted := by
  have later : ∀ (m : Nat) (us : List Nat), uid ∈ us → m ≤ u64Max → modseq ≤ m →
      ∃ noted, (uid, noted) ∈ removals m us ∧ satAdd u64Max m 1 ≤ noted := by
    intro m us
    induction us generalizing m with
    | nil => exact fun mem => absurd mem List.not_mem_nil
    | cons u rest ih =>
      intro mem range above
      rcases List.mem_cons.mp mem with rfl | mem
      · exact ⟨_, List.mem_cons_self, le_refl _⟩
      · have up := satAdd_mono range
        obtain ⟨noted, inRest, le⟩ := ih (satAdd u64Max m 1) mem up.2.1 (above.trans up.1)
        exact ⟨noted, List.mem_cons_of_mem _ inRest, (satAdd_mono up.2.1).1.trans le⟩
  obtain ⟨noted, inLog, le⟩ := later modseq uids mem room.le (le_refl _)
  exact ⟨noted, inLog, (lt_satAdd_iterate room (n := 1) Nat.one_pos).trans_le le⟩

theorem mem_of_removed {list : UidList} {files left : List MessageFile}
    {removed : List Nat} {bytes : Nat} (h : expungeLoop list uids files = (left, removed, bytes)) :
    ∀ uid ∈ removed, uid ∈ uids ∧ ∃ base, list.Lists uid base ∧ Present files base := by
  induction uids generalizing files removed bytes with
  | nil =>
    cases h
    nofun
  | cons u rest ih =>
    simp only [expungeLoop] at h
    split at h
    · exact fun uid mem => (ih h uid mem).imp_left (List.mem_cons_of_mem _)
    rename_i base hbase
    split at h
    · exact fun uid mem => (ih h uid mem).imp_left (List.mem_cons_of_mem _)
    rename_i file found
    generalize run : expungeLoop list rest (files.erase file) = result at h
    obtain ⟨l, us, bs⟩ := result
    cases h
    intro uid mem
    rcases List.mem_cons.mp mem with rfl | mem
    · exact ⟨List.mem_cons_self, base, baseOf_some hbase, file, (findFile_some found).1,
        (findFile_some found).2⟩
    · obtain ⟨asked, b, lists, f, inFiles, same⟩ := ih run uid mem
      exact ⟨List.mem_cons_of_mem _ asked, b, lists, f, List.mem_of_mem_erase inFiles, same⟩

/-- A message that was shown under the number `h` is on the list, or was removed under a later
number. -/
structure Folder.Accounts (uid h : Nat) (folder : Folder) (list : UidList) : Prop where
  file : folder.uidFile = some list
  accepted : list.Accepted
  highest : h ≤ list.highestModseq
  noted : (∃ base, list.Lists uid base) ∨ ∃ modseq, h < modseq ∧ (uid, modseq) ∈ folder.expunged

namespace Folder.Accounts

variable {uid h : Nat} {folder : Folder} {list : UidList}

section

variable (a : folder.Accounts uid h list)

include a

theorem load : loadUidlist folder.uidFile = some list := by
  rw [a.file]
  exact loadUidlist_of_accepted a.accepted

theorem history : folder.history = folder.expunged := by
  simp [Folder.history, a.load]

theorem rebuild (fresh : Nat) :
    loadOrRebuild folder.uidFile fresh = list := by
  rw [loadOrRebuild, a.load]
  rfl

theorem files (files : List MessageFile) :
    ({ folder with files } : Folder).Accounts uid h list :=
  ⟨a.file, a.accepted, a.highest, a.noted⟩

end

variable {new : UidList}

section

variable (a : folder.Accounts uid h list)

include a

theorem relist (accepted : new.Accepted)
    (highest : list.highestModseq ≤ new.highestModseq)
    (kept : ∀ base, list.Lists uid base → new.Lists uid base) (files : List MessageFile) :
    ({ folder with files, uidFile := some new, expunged := folder.history } : Folder).Accounts
      uid h new := by
  refine ⟨rfl, accepted, a.highest.trans highest, ?_⟩
  rw [a.history]
  exact a.noted.imp_left fun ⟨base, lists⟩ => ⟨base, kept base lists⟩

theorem assign {bases : List String} {fresh : Nat}
    (hfresh : IsUidvalidity fresh) (valid : ∀ b ∈ bases, isValidBase b = true)
    (run : assignUidsMany folder.uidFile bases fresh = some (new, uids))
    (files : List MessageFile) :
    ({ folder with files, uidFile := some new, expunged := folder.history } : Folder).Accounts
      uid h new := by
  have extended := assignUidsMany_extended hfresh valid run
  have kept := (assignUidsMany_spec hfresh valid run).2.1
  rw [a.rebuild] at extended kept
  exact a.relist extended.accepted extended.highest (kept uid) files

theorem sync {fresh : Nat} (hfresh : IsUidvalidity fresh)
    (run : syncUidlist folder.uidFile (scanBases folder.scan) fresh = some new)
    (present : ∀ e ∈ list.byUid, Present folder.files e.base) (files : List MessageFile) :
    ({ folder with files, uidFile := some new, expunged := folder.history } : Folder).Accounts
      uid h new := by
  have extended := syncUidlist_extended hfresh scanBases_valid run
  have kept := (syncUidlist_spec hfresh scanBases_valid run).2
  rw [a.rebuild] at extended kept
  refine a.relist extended.accepted extended.highest (fun base lists => ?_) files
  refine kept uid base lists ?_
  obtain ⟨e, mem, -, rfl⟩ := lists
  obtain ⟨f, inFiles, same⟩ := present e mem
  rw [← same]
  exact base_mem_scan inFiles (same ▸ a.accepted.valid e mem)

theorem setFlags {u : Nat} {flags : FlagSet} {changed : Folder}
    {new : UidList} {target : MessageFile}
    (run : folder.setFlags u flags = .ok (changed, new, target)) :
    changed.Accounts uid h new := by
  obtain ⟨old, source, load, -, rfl, -, -, rfl⟩ := setFlags_ok run
  obtain rfl := Option.some.inj (load.symm.trans a.load)
  refine ⟨rfl, a.accepted.touch u, a.highest.trans (satAdd_mono a.accepted.range.2.2).1, ?_⟩
  exact a.noted.imp_left fun ⟨base, lists⟩ => ⟨base, touch_lists.mpr lists⟩

theorem expunge {uids : List Nat}
    (noted : (∃ uid ∈ uids, ∃ base, list.Lists uid base ∧ Present folder.files base) →
      logBytes folder.expunged ≤ expungedMaxBytes ∧ list.highestModseq < u64Max) :
    ∃ new, (folder.expunge uids).1.Accounts uid h new := by
  obtain ⟨⟨left, removed, bytes⟩, run⟩ : ∃ result, expungeLoop list uids folder.files = result :=
    ⟨_, rfl⟩
  rw [expunge_of_load a.load run]
  split_ifs with nothing
  · exact ⟨list, a.files left⟩
  · obtain ⟨first, mem⟩ : ∃ first, first ∈ removed :=
      List.exists_mem_of_ne_nil _ (by simpa using nothing)
    have asked := mem_of_removed run first mem
    obtain ⟨short, room⟩ := noted ⟨first, asked.1, asked.2⟩
    have log : appendExpunged folder.expunged (removals list.highestModseq removed) =
        folder.expunged ++ removals list.highestModseq removed := by
      unfold appendExpunged trimmed
      rw [if_neg (not_lt.mpr short)]
      split_ifs with none
      · rw [List.isEmpty_iff.mp none, List.append_nil]
      · rfl
    refine ⟨list.drop removed, rfl, a.accepted.drop removed,
      a.highest.trans (satAdd_iterate a.accepted.range.2.2 _).1, ?_⟩
    simp only [log]
    rcases a.noted with ⟨base, lists⟩ | ⟨modseq, later, logged⟩
    · by_cases gone : uid ∈ removed
      · obtain ⟨modseq, logged, later⟩ := mem_removals room gone
        exact .inr ⟨modseq, a.highest.trans_lt later, List.mem_append_right _ logged⟩
      · exact .inl ⟨base, drop_lists.mpr ⟨lists, gone⟩⟩
    · exact .inr ⟨modseq, later, List.mem_append_left _ logged⟩

end

end Folder.Accounts

namespace MailStore

variable {s t : MailStore} {name normalized : String} {folder : Folder}

theorem folder_eq_some : s.folder name = some folder ↔
    ∃ normalized, s.openDir name = .ok (normalized, folder) := by
  unfold MailStore.folder
  cases s.openDir name with
  | ok found => simp [Prod.ext_iff]
  | error error => simp

theorem folder_congr (same : t.folders = s.folders) : t.folder name = s.folder name := by
  unfold MailStore.folder openDir find
  rw [same]

theorem folder_of_modify (g : Folder → Folder) (opened : s.openDir name = .ok (normalized, folder))
    (changed : t.folders = Assoc.modify normalized g s.folders) :
    t.folder name = some (g folder) := by
  obtain ⟨normal, found⟩ := openDir_normal opened
  unfold find at found
  simp only [MailStore.folder, openDir, normal, find, changed, Assoc.lookup_modify, if_true, found,
    Option.map_some]

section Opened

variable {promote : Bool} {fresh : Nat} {state : FolderState} {list : UidList}

theorem Opened.folder_before (o : Opened s t name promote fresh state normalized folder list) :
    s.folder name = some folder := by
  simp only [MailStore.folder, openDir, o.normal, o.found]

theorem Opened.folder_after (o : Opened s t name promote fresh state normalized folder list) :
    t.folder name = some (folder.opened promote list) := by
  simp only [MailStore.folder, openDir, o.normal, o.find, if_true]

end Opened

theorem expungedSince_eq (found : s.folder name = some folder) (since : Nat) :
    s.expungedSince name since = .ok (folder.expungedSince since) := by
  obtain ⟨normalized, opened⟩ := folder_eq_some.mp found
  simp only [expungedSince, opened, Except.map]

/-- What holds of a folder and of what is done to it holds in the store that an append leaves. -/
theorem appendCounted_folder {messages size : Nat} {staged : List MessageFile} {fresh : Nat}
    {P : Folder → Prop} (found : s.folder name = some folder) (stay : P folder)
    (grow : ∀ list uids,
      assignUidsMany folder.uidFile (staged.map (·.base)) fresh = some (list, uids) →
      P { folder with
          files := folder.files ++ staged
          uidFile := some list
          expunged := folder.history }) :
    ∃ after, (s.appendCounted name messages size staged fresh).1.folder name = some after ∧
      P after := by
  rcases appendCounted_cases s name messages size staged fresh with ⟨t, error, run, same⟩ |
    ⟨t, normalized, folder', list, uids, run, opened, assigned, changed⟩
  · rw [run]
    exact ⟨folder, (folder_congr same).trans found, stay⟩
  · rw [run]
    obtain rfl := Option.some.inj (found.symm.trans (folder_eq_some.mpr ⟨normalized, opened⟩))
    exact ⟨_, folder_of_modify _ opened changed, grow list uids assigned⟩

end MailStore

/-- The store knows of the message: see `Folder.Accounts`. -/
def MailStore.Accounts (name : String) (uid h : Nat) (s : MailStore) : Prop :=
  ∃ folder list, s.folder name = some folder ∧ folder.Accounts uid h list

theorem FolderAct.accounts {name : String} {uid h : Nat} {s : MailStore} {act : FolderAct}
    (a : s.Accounts name uid h) (noted : act.Noted name s) :
    (act.apply name s).Accounts name uid h := by
  obtain ⟨folder, list, found, a⟩ := a
  have append : ∀ {messages size : Nat} {staged : List MessageFile} {fresh : Uidvalidity},
      (∀ f ∈ staged, isValidBase f.base = true) →
      (s.appendCounted name messages size staged fresh).1.Accounts name uid h := by
    intro messages size staged fresh valid
    have bases : ∀ b ∈ staged.map (·.base), isValidBase b = true := by
      intro b mem
      obtain ⟨f, staged, rfl⟩ := List.mem_map.mp mem
      exact valid f staged
    obtain ⟨after, found', list', a'⟩ :=
      MailStore.appendCounted_folder (P := fun f => ∃ l, f.Accounts uid h l) found ⟨list, a⟩
        fun new uids run => ⟨new, a.assign fresh.2 bases run _⟩
    exact ⟨after, list', found', a'⟩
  obtain ⟨normalized, opened⟩ := MailStore.folder_eq_some.mp found
  cases act with
  | append base message fresh =>
    refine append fun f mem => ?_
    rw [List.mem_singleton.mp mem]
    exact base.2
  | appendMany messages fresh =>
    simp only [apply, MailStore.appendMany]
    split
    · exact ⟨folder, list, found, a⟩
    · refine append fun f mem => ?_
      simp only [List.mem_map] at mem
      obtain ⟨_, ⟨m, -, rfl⟩, rfl⟩ := mem
      exact m.1.2
  | setFlags u flags =>
    simp only [apply, MailStore.setFlags, opened]
    split
    · exact ⟨folder, list, found, a⟩
    · rename_i changed new target run
      exact ⟨changed, new, MailStore.folder_of_modify (fun _ => changed) opened rfl, a.setFlags run⟩
  | expunge uids =>
    obtain ⟨new, a'⟩ := a.expunge (noted folder list found a.load)
    refine ⟨(folder.expunge uids).1, new, ?_, a'⟩
    simp only [apply, MailStore.expunge, opened]
    split
    · exact MailStore.folder_of_modify (fun _ => (folder.expunge uids).1) opened rfl
    · rw [MailStore.folder_congr (MailStore.releaseQuota_folders _)]
      exact MailStore.folder_of_modify (fun _ => (folder.expunge uids).1) opened rfl
  | openFolder promote fresh =>
    simp only [apply]
    rcases MailStore.openFolder_cases s name promote fresh with ⟨error, run⟩ |
      ⟨t, state, normalized, folder', new, run, o⟩
    · rw [run]
      exact ⟨folder, list, found, a⟩
    · rw [run]
      obtain rfl := Option.some.inj (found.symm.trans o.folder_before)
      exact ⟨_, new, o.folder_after,
        a.sync fresh.2 o.sync (noted folder list found a.load o.scanned) _⟩
  | vanish lost =>
    simp only [apply, MailStore.vanish, opened]
    exact ⟨_, list, MailStore.folder_of_modify _ opened rfl, a.files _⟩

/-- A message that was shown, and that is not shown any more when the folder is opened again, is
among those that are said to be removed since any number up to the one that was reported with it,
if whatever left the list in between was noted. -/
theorem vanished_reported {name : String} {s opened t last : MailStore} {shown later : FolderState}
    {promote promote' : Bool} {fresh fresh' : Uidvalidity} {acts : List FolderAct}
    {uid since : Nat} {uids : List Nat}
    (first : s.openFolder name promote fresh = (opened, .ok shown))
    (run : Runs (FolderAct.step name) (fun s act => act.Noted name s) opened acts t)
    (noted : (FolderAct.openFolder promote' fresh').Noted name t)
    (second : t.openFolder name promote' fresh' = (last, .ok later))
    (listed : uid ∈ shown.messages.map (·.uid)) (gone : uid ∉ later.messages.map (·.uid))
    (earlier : since ≤ shown.highestModseq)
    (answer : last.expungedSince name since = .ok uids) : uid ∈ uids := by
  obtain ⟨normalized, folder, list, o⟩ := MailStore.opened_of_ok first
  obtain ⟨normalized', folder', list', o'⟩ := MailStore.opened_of_ok second
  -- the message is on the list that the first opening leaves
  have accepted := (syncUidlist_extended fresh.2 scanBases_valid o.sync).accepted
  rw [o.messages] at listed
  obtain ⟨base, -, lists⟩ := (mem_messages accepted).mp listed
  have positive : 0 < uid := by
    obtain ⟨e, mem, rfl, -⟩ := lists
    exact (accepted.bounds e mem).1
  have start : opened.Accounts name uid shown.highestModseq :=
    ⟨_, list, o.folder_after, rfl, accepted, o.highestModseq.le, .inl ⟨base, lists⟩⟩
  have held : t.Accounts name uid shown.highestModseq := by
    refine run.invariant start ?_
    rintro s act t a noted ⟨⟩
    exact act.accounts a noted
  -- and the second opening keeps it there or has it in the log
  obtain ⟨folderT, listT, foundT, a⟩ := held
  obtain rfl := Option.some.inj (foundT.symm.trans o'.folder_before)
  have present := noted folderT listT foundT a.load o'.scanned
  have a' := a.sync fresh'.2 o'.sync present folderT.files
  have logged : ∃ modseq, shown.highestModseq < modseq ∧ (uid, modseq) ∈ folderT.history := by
    refine a'.noted.resolve_left ?_
    rintro ⟨base', lists'⟩
    refine gone ?_
    rw [o'.messages]
    refine (mem_messages a'.accepted).mpr ⟨base', ?_, lists'⟩
    have grown := (syncUidlist_spec fresh'.2 scanBases_valid o'.sync).1
    rw [a.rebuild] at grown
    rcases grown.added uid base' lists' with ⟨e, mem, -, rfl⟩ | ⟨-, scanned, -⟩
    · obtain ⟨f, inFiles, same⟩ := present e mem
      exact same ▸ base_mem_scan inFiles (same ▸ a.accepted.valid e mem)
    · exact scanned
  obtain ⟨modseq, above, inLog⟩ := logged
  rw [MailStore.expungedSince_eq o'.folder_after] at answer
  cases answer
  exact mem_expungedSince.mpr ⟨modseq, inLog, positive, earlier.trans_lt above⟩

/-- A check that is enough for `Noted`. -/
def FolderAct.notes (name : String) (s : MailStore) (act : FolderAct) : Bool :=
  match (s.folder name).bind fun f => (loadUidlist f.uidFile).map fun list => (f, list) with
  | none => true
  | some (folder, list) =>
    match act with
    | .openFolder _ _ => list.byUid.all fun e => folder.files.any fun f => f.base = e.base
    | .expunge _ => logBytes folder.expunged ≤ expungedMaxBytes && list.highestModseq < u64Max
    | _ => true

theorem FolderAct.noted_of_notes {name : String} (s : MailStore) (act : FolderAct)
    (h : act.notes name s = true) : act.Noted name s := by
  cases act with
  | openFolder promote fresh =>
    intro folder list found load _ e mem
    simp only [notes, found, Option.bind_some, load, Option.map_some, List.all_eq_true,
      List.any_eq_true, decide_eq_true_eq] at h
    exact h e mem
  | expunge uids =>
    intro folder list found load _
    simpa [notes, found, load] using h
  | _ => trivial

def oneMessage : MailStore := (emptyStore.append inbox delivered.base note 7).1

/-- The inbox as it is opened in this store. -/
def oneShown : FolderState :=
  { name := inbox
    uidvalidity := 7
    uidnext := 2
    highestModseq := 1
    messages :=
      [{ uid := 1, base := delivered.base, size := 5, modseq := 1, flags := ∅, recent := true }] }

def oneOpened : MailStore := (oneMessage.openFolder inbox false 7).1

theorem oneOpened_shows : oneMessage.openFolder inbox false 7 = (oneOpened, .ok oneShown) :=
  Prod.ext rfl (by decide +kernel)

def noneShown (highestModseq : Nat) : FolderState := { oneShown with highestModseq, messages := [] }

theorem vanished_reported_expunge :
    ∃ last uids,
      ((FolderAct.expunge [1]).apply inbox oneOpened).openFolder inbox false 7 =
        (last, .ok (noneShown 2)) ∧
      last.expungedSince inbox 1 = .ok uids ∧ 1 ∈ uids := by
  have second : (((FolderAct.expunge [1]).apply inbox oneOpened).openFolder inbox false 7).2 =
      .ok (noneShown 2) := by decide +kernel
  have answer : (((FolderAct.expunge [1]).apply inbox oneOpened).openFolder inbox false
      7).1.expungedSince inbox 1 = .ok [1] := by decide +kernel
  have noted : (FolderAct.expunge [1]).notes inbox oneOpened = true := by decide +kernel
  have noted' : (FolderAct.openFolder false ⟨7, by decide, by decide⟩).notes inbox
      ((FolderAct.expunge [1]).apply inbox oneOpened) = true := by decide +kernel
  exact ⟨_, [1], Prod.ext rfl second, answer,
    @vanished_reported _ _ _ _ _ _ _ _ _ ⟨7, by decide, by decide⟩ _ _ _ _ _ oneOpened_shows
      (.snoc (.nil _) (FolderAct.noted_of_notes _ _ noted) rfl)
      (FolderAct.noted_of_notes _ _ noted') (Prod.ext rfl second) (by decide) (by decide)
      (by decide) answer⟩

/-- The file of a message is removed behind the store's back: the next opening drops the message and
notes nothing, so a client that comes back is never told. -/
theorem missing_file_not_reported :
    ¬∀ (name : String) (s opened t last : MailStore) (shown later : FolderState)
      (promote promote' : Bool) (fresh fresh' : Uidvalidity) (acts : List FolderAct)
      (uid since : Nat) (uids : List Nat),
      s.openFolder name promote fresh = (opened, .ok shown) →
      Reaches (FolderAct.step name) opened acts t →
      t.openFolder name promote' fresh' = (last, .ok later) →
      later.uidvalidity = shown.uidvalidity →
      uid ∈ shown.messages.map (·.uid) → uid ∉ later.messages.map (·.uid) →
      since ≤ shown.highestModseq → last.expungedSince name since = .ok uids → uid ∈ uids := by
  intro claim
  have second : (((FolderAct.vanish [note.stage delivered.base]).apply inbox oneOpened).openFolder
      inbox false 7).2 = .ok (noneShown 1) := by decide +kernel
  have answer : (((FolderAct.vanish [note.stage delivered.base]).apply inbox oneOpened).openFolder
      inbox false 7).1.expungedSince inbox 1 = .ok [] := by decide +kernel
  have told := claim inbox oneMessage oneOpened _ _ oneShown (noneShown 1) false false
    ⟨7, by decide, by decide⟩ ⟨7, by decide, by decide⟩ [.vanish [note.stage delivered.base]] 1 1 []
    oneOpened_shows (.snoc (.nil _) trivial rfl) (Prod.ext rfl second) rfl (by decide) (by decide)
    (by decide) answer
  exact absurd told List.not_mem_nil

end MailStack.Maildir
