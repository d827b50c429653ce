import MailStack.Maildir.DovecotList
import MailStack.Maildir.Vanished

/-! The UIDs after the take-over of a store from Dovecot: what a take-over leaves to do, what
opening a folder shows of the UIDs that were taken over, and over which runs this stays so. -/

namespace MailStack.Maildir

open Lib

/-! ### A second take-over -/

def takenOver (file : TextFile) (folder : Folder) : Folder := (migrateUidlist file folder {}).1

theorem migrateUidlist_fst (file : TextFile) (folder : Folder) (report : MigrationReport) :
    (migrateUidlist file folder report).1 = takenOver file folder := by
  unfold takenOver migrateUidlist
  split
  · rfl
  · rfl
  · split
    · simp only
      split <;> rfl
    · rfl
    · rfl

theorem takenOver_native {file : TextFile} {folder : Folder} (native : folder.uidFile.isSome) :
    takenOver file folder = folder := by
  unfold takenOver migrateUidlist
  split
  · rfl
  · rfl
  · rename_i parsed _
    have refused : ∃ error,
        folder.importUidlist parsed.uidvalidity parsed.uidnext parsed.records = .error error := by
      unfold Folder.importUidlist
      rw [if_pos native]
      split <;> exact ⟨_, rfl⟩
    obtain ⟨error, refused⟩ := refused
    rw [refused]
    split
    · rename_i ok
      cases ok
    · rfl
    · rfl

theorem takenOver_cases (file : TextFile) (folder : Folder) :
    takenOver file folder = folder ∨
      ∃ list, takenOver file folder = { folder with uidFile := some list } := by
  unfold takenOver migrateUidlist
  split
  · exact .inl rfl
  · exact .inl rfl
  · split
    · rename_i folder' result imported
      have same : folder' = folder ∨ ∃ list, folder' = { folder with uidFile := some list } := by
        obtain ⟨-, -, -, same | ⟨-, written⟩⟩ := importUidlist_ok imported
        · exact .inl same
        · exact .inr ⟨_, written⟩
      simp only
      split <;> exact same
    · exact .inl rfl
    · exact .inl rfl

theorem takenOver_files (file : TextFile) (folder : Folder) :
    (takenOver file folder).files = folder.files := by
  rcases takenOver_cases file folder with same | ⟨list, written⟩
  · rw [same]
  · rw [written]

theorem takenOver_takenOver (file : TextFile) (folder : Folder) :
    takenOver file (takenOver file folder) = takenOver file folder := by
  rcases takenOver_cases file folder with same | ⟨list, written⟩
  · rw [same, same]
  · rw [written]
    exact takenOver_native rfl

theorem migrateKeywords_fst (file : TextFile) (native : Option Keywords)
    (report report' : MigrationReport) :
    (migrateKeywords file native report).1 = (migrateKeywords file native report').1 := by
  unfold migrateKeywords
  split
  · rfl
  · rfl
  · split <;> rfl

theorem migrateKeywords_native (file : TextFile) (keywords : Keywords) (report : MigrationReport) :
    (migrateKeywords file (some keywords) report).1 = some keywords := by
  unfold migrateKeywords
  split <;> rfl

theorem migrateKeywords_twice (file : TextFile) (native : Option Keywords)
    (report report' : MigrationReport) :
    (migrateKeywords file (migrateKeywords file native report).1 report').1 =
      (migrateKeywords file native report).1 := by
  cases native with
  | some keywords => rw [migrateKeywords_native, migrateKeywords_native]
  | none =>
    cases taken : (migrateKeywords file none report).1 with
    | none => rw [migrateKeywords_fst file none report' report, taken]
    | some keywords => exact migrateKeywords_native file keywords report'

namespace DovecotStore

/-- A take-over leaves the folder as it is. -/
def FolderSettled (m : DovecotStore) (name : String) : Prop :=
  ∀ folder, m.store.find name = some folder →
    (∀ report, (migrateKeywords (m.dovecot name).keywords (m.keywords name) report).1 =
      m.keywords name) ∧ takenOver (m.dovecot name).uidlist folder = folder

def Settled (m : DovecotStore) : Prop :=
  ∀ name ∈ m.store.folderNames, ∀ normalized, normalizeFolderName name = .ok normalized →
    m.FolderSettled normalized

variable {m m' : DovecotStore}

structure FolderMigrated (normalized : String) (m m' : DovecotStore) : Prop where
  dovecot : m'.dovecot = m.dovecot
  names : m'.store.folderNames = m.store.folderNames
  find : ∀ k, m'.store.find k = if k = normalized then
    (m.store.find k).map (takenOver (m.dovecot k).uidlist) else m.store.find k
  others : ∀ k, k ≠ normalized → m'.keywords k = m.keywords k
  keywords : m.store.find normalized ≠ none → ∀ report, m'.keywords normalized =
    (migrateKeywords (m.dovecot normalized).keywords (m.keywords normalized) report).1

theorem migrateFolder_ok {name : String} {report report' : MigrationReport}
    (h : m.migrateFolder name report = (m', .ok report')) :
    ∃ normalized, normalizeFolderName name = .ok normalized ∧ FolderMigrated normalized m m' := by
  unfold migrateFolder at h
  split at h
  · cases h
  rename_i normalized normal
  refine ⟨normalized, normal, ?_⟩
  simp only at h
  split at h
  · rename_i missing
    cases h
    refine ⟨rfl, rfl, fun k => ?_, fun _ _ => rfl, fun found => absurd missing found⟩
    split_ifs with same
    · rw [same, missing]
      rfl
    · rfl
  · rename_i folder found
    split at h
    · cases h
    rename_i keywords next run
    simp only [Prod.mk.injEq] at h
    obtain ⟨rfl, -⟩ := h
    refine ⟨rfl, ?_, fun k => ?_, fun k other => ?_, fun _ report => ?_⟩
    · simp only [MailStore.folderNames, Assoc.modify_keys]
    · simp only [MailStore.find, Assoc.lookup_modify]
      split_ifs with same
      · have here : m.store.folders.lookup k = some folder := same ▸ found
        rw [here, Option.map_some, Option.map_some, same, migrateUidlist_fst]
      · rfl
    · exact Function.update_of_ne other _ _
    · simp only [Function.update_self]
      exact (congrArg Prod.fst run).symm.trans (migrateKeywords_fst _ _ _ report)

theorem FolderMigrated.settled {normalized : String} (h : FolderMigrated normalized m m') :
    m'.FolderSettled normalized := by
  intro folder found
  rw [h.find, if_pos rfl, Option.map_eq_some_iff] at found
  obtain ⟨before, found, rfl⟩ := found
  rw [h.dovecot]
  refine ⟨fun report => ?_, takenOver_takenOver _ _⟩
  rw [h.keywords (by simp [found]) report]
  exact migrateKeywords_twice _ _ report report

theorem FolderMigrated.keeps {normalized k : String} (h : FolderMigrated normalized m m')
    (settled : m.FolderSettled k) : m'.FolderSettled k := by
  by_cases same : k = normalized
  · exact same ▸ h.settled
  · intro folder found
    rw [h.find, if_neg same] at found
    rw [h.dovecot, h.others k same]
    exact settled folder found

variable {names : List String}

/-- A take-over of all folders that succeeds leaves nothing to take over. -/
theorem migrateFolders_settled {report report' : MigrationReport}
    (h : m.migrateFolders report names = (m', .ok report')) :
    m'.store.folderNames = m.store.folderNames ∧ (∀ k, m.FolderSettled k → m'.FolderSettled k) ∧
      ∀ name ∈ names, ∀ normalized, normalizeFolderName name = .ok normalized →
        m'.FolderSettled normalized := by
  induction names generalizing m report with
  | nil =>
    cases h
    exact ⟨rfl, fun _ settled => settled, by simp⟩
  | cons name rest ih =>
    simp only [migrateFolders] at h
    split at h
    · cases h
    rename_i next report'' step
    obtain ⟨normalized, normal, migrated⟩ := migrateFolder_ok step
    obtain ⟨names, keeps, settles⟩ := ih h
    refine ⟨names.trans migrated.names, fun k settled => keeps k (migrated.keeps settled), ?_⟩
    intro other mem k normal'
    rcases List.mem_cons.mp mem with rfl | mem
    · rw [normal] at normal'
      cases normal'
      exact keeps _ migrated.settled
    · exact settles other mem k normal'

theorem migrateFolder_of_settled {name : String} (report : MigrationReport)
    (settled : ∀ normalized, normalizeFolderName name = .ok normalized →
      m.FolderSettled normalized) :
    (m.migrateFolder name report).1 = m := by
  unfold migrateFolder
  split
  · rfl
  rename_i normalized normal
  simp only
  split
  · rfl
  rename_i folder found
  obtain ⟨keywordsSame, folderSame⟩ := settled normalized normal folder found
  split
  · rfl
  rename_i keywords next run
  have kept : keywords = m.keywords normalized := by
    rw [← keywordsSame { report with folders := report.folders + 1 }, run]
  have unchanged : Assoc.modify normalized (fun _ => folder) m.store.folders = m.store.folders :=
    Assoc.modify_self found
  simp only [migrateUidlist_fst, folderSame, kept, Function.update_eq_self, unchanged]

theorem migrateFolders_of_settled (report : MigrationReport)
    (settled : ∀ name ∈ names, ∀ normalized, normalizeFolderName name = .ok normalized →
      m.FolderSettled normalized) : (m.migrateFolders report names).1 = m := by
  induction names generalizing report with
  | nil => rfl
  | cons name rest ih =>
    have same := migrateFolder_of_settled report (settled name List.mem_cons_self)
    have later :=
      fun report => ih report fun other mem => settled other (List.mem_cons_of_mem _ mem)
    simp only [migrateFolders]
    split
    · rename_i step
      rwa [step] at same
    · rename_i next report' step
      rw [step] at same
      obtain rfl : next = m := same
      exact later report'

/-- Every folder that is there is taken over. -/
theorem migrateFolders_find {report report' : MigrationReport}
    (h : m.migrateFolders report names = (m', .ok report')) {k : String} {folder : Folder}
    (found : m.store.find k = some folder) :
    m'.dovecot = m.dovecot ∧ ∃ folder', m'.store.find k = some folder' ∧
      (folder' = folder ∨ folder' = takenOver (m.dovecot k).uidlist folder) ∧
      ((∃ name ∈ names, normalizeFolderName name = .ok k) →
        folder' = takenOver (m.dovecot k).uidlist folder) := by
  induction names generalizing m report folder with
  | nil =>
    cases h
    exact ⟨rfl, folder, found, .inl rfl, by simp⟩
  | cons name rest ih =>
    simp only [migrateFolders] at h
    split at h
    · cases h
    rename_i next report'' step
    obtain ⟨normalized, normal, migrated⟩ := migrateFolder_ok step
    have now := migrated.find k
    rw [found] at now
    by_cases same : k = normalized
    · -- this folder: it is taken over here, and later ones leave it so
      rw [if_pos same, Option.map_some] at now
      obtain ⟨dovecot, folder', found', cases, -⟩ := ih h now
      rw [migrated.dovecot, takenOver_takenOver, or_self] at cases
      exact ⟨dovecot.trans migrated.dovecot, folder', found', .inr cases, fun _ => cases⟩
    · rw [if_neg same] at now
      obtain ⟨dovecot, folder', found', cases, all⟩ := ih h now
      rw [migrated.dovecot] at cases all
      refine ⟨dovecot.trans migrated.dovecot, folder', found', cases, ?_⟩
      rintro ⟨other, mem, normal'⟩
      rcases List.mem_cons.mp mem with rfl | mem
      · rw [normal] at normal'
        cases normal'
        exact absurd rfl same
      · exact all ⟨other, mem, normal'⟩

theorem mem_folderNames {s : MailStore} {k : String} {folder : Folder}
    (found : s.find k = some folder) : k ∈ s.folderNames := by
  rw [MailStore.folderNames, List.mem_mergeSort, List.mem_dedup]
  obtain ⟨before, after, eq, -⟩ := List.lookup_eq_some_iff.mp found
  exact List.mem_map.mpr ⟨(k, folder), by simp [eq], rfl⟩

end DovecotStore

/-! ### Opening a folder -/

theorem mem_scan_iff {folder : Folder} {base : String} :
    base ∈ scanBases folder.scan ↔
      ∃ f ∈ folder.files, f.base = base ∧ isValidBase f.base = true := by
  constructor
  · intro mem
    obtain ⟨f, inScan, same⟩ := mem_scanBases.mp mem
    rcases mem_mergeScan inScan with mem | mem <;>
      exact ⟨f, (mem_scanDirectory mem).1, same, (mem_scanDirectory mem).2⟩
  · rintro ⟨f, mem, rfl, valid⟩
    exact base_mem_scan mem valid

theorem opened_scan {folder : Folder} {promote : Bool} {list : UidList} {base : String} :
    base ∈ scanBases (folder.opened promote list).scan ↔ base ∈ scanBases folder.scan := by
  rw [mem_scan_iff, mem_scan_iff]
  unfold Folder.opened
  cases promote with
  | false => exact Iff.rfl
  | true =>
    have bases : ∀ f : MessageFile, (if f.directory = .new && folder.scan.contains f then promoted f
        else f).base = f.base := by
      intro f
      split <;> rfl
    constructor
    · rintro ⟨g, mem, same, valid⟩
      obtain ⟨f, inFiles, rfl⟩ := List.mem_map.mp mem
      rw [bases] at same valid
      exact ⟨f, inFiles, same, valid⟩
    · rintro ⟨f, mem, same, valid⟩
      refine ⟨_, List.mem_map_of_mem mem, ?_, ?_⟩
      · rwa [bases]
      · rwa [bases]

/-! ### The UIDs of a folder that was taken over -/

/-- The folder has the UIDs of the list: its own messages under them, and all others after. -/
structure Folder.Follows (list : DovecotList) (folder : Folder) (native : UidList) : Prop where
  file : folder.uidFile = some native
  accepted : native.Accepted
  uidvalidity : native.uidvalidity = list.uidvalidity.toNat
  uidnext : list.uidnext.toNat ≤ native.uidnext
  listed : ∀ r ∈ list.records, r.base ∈ scanBases folder.scan →
    native.Lists r.uid.toNat r.base
  others : ∀ uid base, native.Lists uid base → base ∉ list.records.map (·.base) →
    list.uidnext.toNat ≤ uid

variable {list : DovecotList} {folder : Folder}

theorem candidates_uids : (list.candidates.map (·.1)).Nodup := by
  rw [DovecotList.candidates, List.map_map]
  refine List.pairwise_map.mpr (list.increasing.imp fun {a b} less same => ?_)
  have : a.uid = b.uid := same
  rw [this] at less
  omega

theorem candidates_bases : (list.candidates.map (·.2)).Nodup := by
  rw [DovecotList.candidates, List.map_map]
  exact list.bases

theorem mem_taken {e : UidEntry} :
    e ∈ (takeCandidates (scanBases folder.scan) list.candidates).1 ↔ ∃ r ∈ list.records,
      r.base ∈ scanBases folder.scan ∧ e = { uid := r.uid.toNat, base := r.base, modseq := 0 } := by
  rw [mem_takeCandidates candidates_uids candidates_bases]
  simp only [DovecotList.candidates, List.mem_map]
  constructor
  · rintro ⟨_, ⟨r, mem, rfl⟩, ⟨-, -, onDisk⟩, rfl⟩
    exact ⟨r, mem, onDisk, rfl⟩
  · rintro ⟨r, mem, onDisk, rfl⟩
    have positive : r.uid ≠ 0 := fun zero => by
      simpa [zero] using (list.wellFormed r mem).uid
    exact ⟨_, ⟨r, mem, rfl⟩, ⟨positive, scanBases_valid _ onDisk, onDisk⟩, rfl⟩

theorem uidvalidity_ne_zero : list.uidvalidity ≠ 0 := fun zero => by
  simpa [zero] using list.validity

/-- What the take-over of a list of version 1 writes. -/
theorem takenOver_one (one : list.version = .one) (absent : folder.uidFile = none)
    (few : folder.scan.length ≤ maxScanEntries)
    (onDisk : ∃ r ∈ list.records, r.base ∈ scanBases folder.scan) :
    takenOver (.text list.text) folder =
      { folder with
        uidFile := some (importedList list.uidvalidity list.uidnext
          (takeCandidates (scanBases folder.scan) list.candidates).1) } := by
  have some : (takeCandidates (scanBases folder.scan) list.candidates).1.isEmpty = false := by
    obtain ⟨r, mem, onDisk⟩ := onDisk
    rw [List.isEmpty_eq_false_iff]
    exact List.ne_nil_of_mem (mem_taken.mpr ⟨r, mem, onDisk, rfl⟩)
  have imported : ∃ result, folder.importUidlist list.uidvalidity list.uidnext list.candidates =
      .ok ({ folder with
        uidFile := Option.some (importedList list.uidvalidity list.uidnext
          (takeCandidates (scanBases folder.scan) list.candidates).1) }, result) := by
    unfold Folder.importUidlist
    rw [if_neg uidvalidity_ne_zero, if_neg (by simp [absent]), if_neg (not_lt.mpr few)]
    generalize takeCandidates (scanBases folder.scan) list.candidates = taken at some
    obtain ⟨entries, unresolved⟩ := taken
    simp only at some ⊢
    rw [if_neg (by simp [some])]
    exact ⟨_, rfl⟩
  obtain ⟨result, imported⟩ := imported
  simp only [takenOver, migrateUidlist, parseDovecotUidlist, DovecotList.read_one one, imported]
  split <;> rfl

theorem takenOver_follows (one : list.version = .one) (absent : folder.uidFile = none)
    (few : folder.scan.length ≤ maxScanEntries)
    (onDisk : ∃ r ∈ list.records, r.base ∈ scanBases folder.scan) :
    ∃ native, (takenOver (.text list.text) folder).Follows list native := by
  rw [takenOver_one one absent few onDisk]
  have inOrder := takeCandidates_inOrder (scanBases folder.scan) list.candidates
  refine ⟨_, rfl, (imported_accepted_iff inOrder uidvalidity_ne_zero).mpr ?_, rfl,
    le_max_left _ _, ?_, ?_⟩
  · intro e mem last
    obtain ⟨r, inList, -, rfl⟩ := mem_taken.mp mem
    have := list.below r inList
    have := list.uidnext.toNat_lt
    simp only [u32Max] at last
    omega
  · intro r mem onDisk
    exact importedList_lists.mpr ⟨_, mem_taken.mpr ⟨r, mem, onDisk, rfl⟩, rfl, rfl⟩
  · intro uid base lists unlisted
    obtain ⟨e, taken, -, rfl⟩ := importedList_lists.mp lists
    obtain ⟨r, mem, -, rfl⟩ := mem_taken.mp taken
    exact absurd (List.mem_map_of_mem mem) unlisted

theorem Folder.Follows.opened {native new : UidList} (h : folder.Follows list native)
    {fresh : Nat} (valid : IsUidvalidity fresh) (promote : Bool)
    (sync : syncUidlist folder.uidFile (scanBases folder.scan) fresh = some new) :
    (folder.opened promote new).Follows list new := by
  have loaded : loadOrRebuild folder.uidFile fresh = native := by
    rw [h.file, loadOrRebuild, loadUidlist_of_accepted h.accepted]
    rfl
  obtain ⟨grown, kept⟩ := syncUidlist_spec valid scanBases_valid sync
  rw [loaded] at grown kept
  refine ⟨rfl, grown.accepted, grown.uidvalidity.trans h.uidvalidity,
    h.uidnext.trans grown.later, fun r mem onDisk => ?_, fun uid base lists unlisted => ?_⟩
  · rw [opened_scan] at onDisk
    exact kept _ _ (h.listed r mem onDisk) onDisk
  · rcases grown.added uid base lists with old | ⟨later, -, -⟩
    · exact h.others uid base old unlisted
    · exact h.uidnext.trans later

/-- What an opening of the folder is to show: the UIDVALIDITY of the list, the messages it has under
their UIDs, and others under UIDs that it had not given out. -/
structure DovecotList.Shown (list : DovecotList) (folder : Folder)
    (state : FolderState) : Prop where
  uidvalidity : state.uidvalidity = list.uidvalidity.toNat
  listed : ∀ r ∈ list.records, ∀ f ∈ folder.files, f.base = r.base → isValidBase f.base = true →
    ∃ m ∈ state.messages, m.uid = r.uid.toNat ∧ m.base = r.base
  only : ∀ r ∈ list.records, ∀ m ∈ state.messages, m.base = r.base → m.uid = r.uid.toNat
  unlisted : ∀ m ∈ state.messages, m.base ∉ list.records.map (·.base) →
    list.uidnext.toNat ≤ m.uid

theorem Folder.Follows.shown {new : UidList} {promote : Bool}
    (h : (folder.opened promote new).Follows list new) {state : FolderState}
    (validity : state.uidvalidity = new.uidvalidity)
    (messages : state.messages = new.messages folder.scan) : list.Shown folder state := by
  have lists : ∀ m ∈ state.messages, m.base ∈ scanBases folder.scan ∧ new.Lists m.uid m.base := by
    intro m shown
    rw [messages] at shown
    exact (shown_iff h.accepted).mp ⟨m, shown, rfl, rfl⟩
  have listed : ∀ r ∈ list.records, r.base ∈ scanBases folder.scan →
      new.Lists r.uid.toNat r.base := fun r mem onDisk => h.listed r mem (opened_scan.mpr onDisk)
  refine ⟨validity.trans h.uidvalidity, fun r mem f inFiles same valid => ?_,
    fun r mem m shown same => ?_, fun m shown unlisted => ?_⟩
  · have onDisk : r.base ∈ scanBases folder.scan := mem_scan_iff.mpr ⟨f, inFiles, same, valid⟩
    rw [messages]
    exact (shown_iff h.accepted).mpr ⟨onDisk, listed r mem onDisk⟩
  · obtain ⟨onDisk, lists⟩ := lists m shown
    rw [same] at onDisk lists
    exact h.accepted.uid_eq lists (listed r mem onDisk)
  · exact h.others _ _ (lists m shown).2 unlisted

/-! ### Runs -/

inductive Access
  | openFolder (name : String) (promote : Bool) (fresh : Uidvalidity)
  | migrate

namespace DovecotStore

def access (m : DovecotStore) : Access → DovecotStore
  | .openFolder name promote fresh => { m with store := (m.store.openFolder name promote fresh).1 }
  | .migrate => m.migrateMaildir.1

def after (m : DovecotStore) (accesses : List Access) : DovecotStore := accesses.foldl access m

/-- Every opening of the folder shows the UIDs of the list, and a take-over changes nothing. -/
structure KeepsUids (list : DovecotList) (name : String) (m : DovecotStore) : Prop where
  opens : ∀ folder promote (fresh : Uidvalidity) t state, m.store.find name = some folder →
    m.store.openFolder name promote fresh = (t, .ok state) → list.Shown folder state
  migrate : m.migrateMaildir.1 = m

variable {m : DovecotStore}

theorem Settled.migrate (h : m.Settled) : m.migrateMaildir.1 = m := migrateFolders_of_settled {} h

/-- An access leaves a store that is settled as it is, or it opens a folder. -/
theorem Settled.access_cases (h : m.Settled) (act : Access) : m.access act = m ∨
    ∃ t name promote, ∃ fresh : Uidvalidity, ∃ state normalized folder list,
      m.access act = { m with store := t } ∧
        MailStore.Opened m.store t name promote fresh state normalized folder list := by
  cases act with
  | migrate => exact .inl h.migrate
  | openFolder name promote fresh =>
    simp only [DovecotStore.access]
    rcases MailStore.openFolder_cases m.store name promote fresh with ⟨error, run⟩ |
      ⟨t, state, normalized, folder, list, run, o⟩
    · exact .inl (by rw [run])
    · exact .inr ⟨t, name, promote, fresh, state, normalized, folder, list, by rw [run], o⟩

theorem Settled.access (h : m.Settled) (act : Access) : (m.access act).Settled := by
  rcases h.access_cases act with same | ⟨t, _, _, _, _, normalized, folder, native, ran, o⟩
  · rw [same]
    exact h
  rw [ran]
  intro other mem k normal' now found'
  have names : t.folderNames = m.store.folderNames := by
    obtain ⟨change, changed, -⟩ := o.after
    rw [MailStore.folderNames, changed, Assoc.modify_keys, MailStore.folderNames]
  simp only [names] at mem
  simp only [o.find] at found'
  by_cases same : k = normalized
  · rw [if_pos same] at found'
    cases found'
    exact ⟨(h other mem k normal' folder (same ▸ o.found)).1, takenOver_native rfl⟩
  · rw [if_neg same] at found'
    exact h other mem k normal' now found'

/-- The folder has the UIDs of the list, and nothing is left to take over. -/
structure Follows (list : DovecotList) (name : String) (m : DovecotStore) : Prop where
  settled : m.Settled
  folder : ∃ folder native, m.store.find name = some folder ∧ folder.Follows list native

variable {list : DovecotList} {name : String}

theorem Follows.access (h : m.Follows list name)
    (act : Access) : (m.access act).Follows list name := by
  refine ⟨h.settled.access act, ?_⟩
  obtain ⟨mine, native, found, follows⟩ := h.folder
  rcases h.settled.access_cases act with same | ⟨t, _, promote, fresh, _, normalized, _, new, ran, o⟩
  · rw [same]
    exact h.folder
  simp only [ran, o.find]
  by_cases same : name = normalized
  · cases found.symm.trans (same ▸ o.found)
    rw [if_pos same]
    exact ⟨_, new, rfl, follows.opened fresh.2 promote o.sync⟩
  · rw [if_neg same]
    exact ⟨mine, native, found, follows⟩

theorem Follows.keepsUids (normal : normalizeFolderName name = .ok name)
    (h : m.Follows list name) : m.KeepsUids list name := by
  refine ⟨fun folder promote fresh t state found run => ?_, h.settled.migrate⟩
  obtain ⟨normalized, opened, new, o⟩ := MailStore.opened_of_ok run
  cases normal.symm.trans o.normal
  cases found.symm.trans o.found
  obtain ⟨mine, native, found', follows⟩ := h.folder
  cases found.symm.trans found'
  exact (follows.opened fresh.2 promote o.sync).shown o.uidvalidity o.messages

/-- A folder with too many messages cannot be opened. -/
structure TooMany (name : String) (m : DovecotStore) : Prop where
  settled : m.Settled
  folder : ∃ folder, m.store.find name = some folder ∧ maxScanEntries < folder.scan.length

theorem TooMany.access (h : m.TooMany name) (act : Access) : (m.access act).TooMany name := by
  refine ⟨h.settled.access act, ?_⟩
  obtain ⟨mine, found, many⟩ := h.folder
  rcases h.settled.access_cases act with same | ⟨t, _, _, _, _, normalized, _, _, ran, o⟩
  · rw [same]
    exact h.folder
  simp only [ran, o.find]
  by_cases same : name = normalized
  · cases found.symm.trans (same ▸ o.found)
    exact absurd many (not_lt.mpr o.scanned)
  · rw [if_neg same]
    exact ⟨mine, found, many⟩

theorem TooMany.keepsUids (normal : normalizeFolderName name = .ok name) (h : m.TooMany name) :
    m.KeepsUids list name := by
  refine ⟨fun folder promote fresh t state found run => ?_, h.settled.migrate⟩
  obtain ⟨normalized, opened, new, o⟩ := MailStore.opened_of_ok run
  cases normal.symm.trans o.normal
  obtain ⟨mine, found', many⟩ := h.folder
  cases found'.symm.trans o.found
  exact absurd many (not_lt.mpr o.scanned)

theorem after_keeps {P : DovecotStore → Prop} (step : ∀ m act, P m → P (m.access act))
    (accesses : List Access) (h : P m) : P (m.after accesses) := by
  induction accesses generalizing m with
  | nil => exact h
  | cons act rest ih => exact ih (step m act h)

end DovecotStore

/-! ### A list that is not read -/

theorem assign_isSome {list : UidList} {next : Nat} {given : List String}
    (room : next + given.length ≤ u32Max) : (list.assign next given).isSome := by
  induction given generalizing list next with
  | nil => rfl
  | cons base rest ih =>
    rw [List.length_cons] at room
    simp only [UidList.assign]
    split
    · rw [Option.isSome_map]
      exact ih (by omega)
    · rw [if_neg (by omega), Option.isSome_map]
      exact ih (by omega)

/-- A folder without a list of UIDs opens under the UIDVALIDITY that is drawn. -/
theorem openFolder_fresh {s : MailStore} {name : String} {folder : Folder} (promote : Bool)
    (fresh : Uidvalidity) (normal : normalizeFolderName name = .ok name)
    (found : s.find name = some folder) (absent : folder.uidFile = none)
    (few : folder.scan.length ≤ maxScanEntries) :
    ∃ t state, s.openFolder name promote fresh = (t, .ok state) ∧ state.uidvalidity = fresh := by
  have bases : (scanBases folder.scan).length ≤ maxScanEntries := by
    calc (scanBases folder.scan).length
        = (folder.scan.map (·.base)).dedup.length := by rw [scanBases, List.length_mergeSort]
      _ ≤ (folder.scan.map (·.base)).length := (List.dedup_sublist _).length_le
      _ = folder.scan.length := List.length_map _
      _ ≤ maxScanEntries := few
  have synced : (syncUidlist folder.uidFile (scanBases folder.scan) fresh).isSome := by
    have next : UidList.nextUid
        { uidvalidity := fresh, uidnext := 1, highestModseq := 0, byUid := [] } = 1 :=
      nextUid_eq Nat.one_pos (by simp)
    have room : 1 + (scanBases folder.scan).length ≤ u32Max :=
      (Nat.add_le_add_left bases 1).trans (by decide)
    rw [absent]
    simp only [syncUidlist, loadOrRebuild, loadUidlist, Option.getD_none, List.filter_nil, next,
      Option.isSome_map]
    exact assign_isSome room
  obtain ⟨list, sync⟩ := Option.isSome_iff_exists.mp synced
  have validity : list.uidvalidity = fresh := by
    rw [(syncUidlist_spec fresh.2 scanBases_valid sync).1.uidvalidity, absent]
    rfl
  unfold Folder.scan at sync few
  simp only [MailStore.openFolder, normal, found, sync, if_neg (not_lt.mpr few)]
  exact ⟨_, _, rfl, validity⟩

theorem takenOver_three (three : list.version = .three) :
    takenOver (.text list.text) folder = folder := by
  simp only [takenOver, migrateUidlist, parseDovecotUidlist, DovecotList.read_three three]

theorem exists_other (n : Nat) : ∃ fresh : Uidvalidity, fresh.1 ≠ n := by
  by_cases one : n = 1
  · exact ⟨⟨2, by decide, by decide⟩, by simp [one]⟩
  · exact ⟨⟨1, by decide, by decide⟩, Ne.symm one⟩

section TakeOver

variable {m m' : DovecotStore} {name : String} {report : MigrationReport}

theorem migrateMaildir_find (run : m.migrateMaildir = (m', .ok report))
    (normal : normalizeFolderName name = .ok name) (found : m.store.find name = some folder) :
    m'.Settled ∧ m'.store.find name = some (takenOver (m.dovecot name).uidlist folder) := by
  obtain ⟨names, -, settled⟩ := DovecotStore.migrateFolders_settled run
  obtain ⟨-, folder', found', -, all⟩ := DovecotStore.migrateFolders_find run found
  rw [← names] at settled
  refine ⟨settled, ?_⟩
  rw [found', all ⟨name, DovecotStore.mem_folderNames found, normal⟩]

theorem not_keepsUids_absent (normal : normalizeFolderName name = .ok name)
    (found : m.store.find name = some folder) (absent : folder.uidFile = none)
    (few : folder.scan.length ≤ maxScanEntries) :
    ¬m.KeepsUids list name := by
  intro keeps
  obtain ⟨fresh, other⟩ := exists_other list.uidvalidity.toNat
  obtain ⟨t, state, opened, validity⟩ := openFolder_fresh false fresh normal found absent few
  have shown := (keeps.opens folder false fresh t state found opened).uidvalidity
  exact other (validity.symm.trans shown)

end TakeOver

/-- One message, which the list of the version has under UID 5. -/
def oneRecord (version : DovecotVersion) : DovecotList where
  version
  uidvalidity := 7
  uidnext := 6
  further := []
  records := [{ uid := 5, extensions := [], base := "a", flags := some "S" }]
  validity := by decide
  header := by simp
  wellFormed := by
    intro r mem
    rw [List.mem_singleton.mp mem]
    refine ⟨by decide, by decide, by decide, fun c last => ?_, by simp⟩
    cases (show some 'S' = some c from last)
    decide
  increasing := List.pairwise_singleton _ _
  below := by simp
  bases := by simp

def oneFile : Folder :=
  { Folder.empty with files := [{ base := "a", directory := .cur, flags := ∅, size := 3 }] }

def servedStore (version : DovecotVersion) : DovecotStore where
  store := { folders := [(inbox, oneFile)], quota := none, usage := none }
  keywords := fun _ => none
  dovecot := fun _ => { uidlist := .text (oneRecord version).text, keywords := .absent }

theorem servedStore_one : (servedStore .one).migrateMaildir =
    ((servedStore .one).migrateMaildir.1,
      .ok { folders := 1, uidlistsImported := 1, messagesMapped := 1 }) :=
  Prod.ext rfl (by decide +kernel)

theorem servedStore_three : (servedStore .three).migrateMaildir =
    ((servedStore .three).migrateMaildir.1, .ok { folders := 1, rebuiltFromDisk := 1 }) :=
  Prod.ext rfl (by decide +kernel)

end MailStack.Maildir
