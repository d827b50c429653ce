import Mathlib.Algebra.Order.Monoid.Prod
import MailStack.Lib.Machine
import MailStack.Maildir.Store

/-! The counted use of a store's quota over whole runs. The count is a file that the operations keep
up to date only in part: it goes stale when messages come or go without a limit, and a release
counts twice when the file is not there. -/

namespace MailStack.Maildir

open Lib

def Folder.usage (folder : Folder) : Usage :=
  (folder.files.length, (folder.files.map (·.size)).sum)

def MailStore.actual (s : MailStore) : Usage := Assoc.total Folder.usage s.folders

inductive StoreOp
  | append (name base : String) (message : NewMessage) (fresh : Nat)
  | appendMany (name : String) (messages : List (String × NewMessage)) (fresh : Nat)
  | appendManyFolders (targets : List Target) (message : NewMessage)
  | setFlags (name : String) (uid : Nat) (flags : FlagSet)
  | expunge (name : String) (uids : List Nat)
  | create (name : String)
  | delete (name : String)
  | rename (old new : String)
  | setQuota (messages storageBytes : Option Nat)
  | quotaStatus

namespace MailStore

def apply (s : MailStore) : StoreOp → MailStore
  | .append name base message fresh => (s.append name base message fresh).1
  | .appendMany name messages fresh => (s.appendMany name messages fresh).1
  | .appendManyFolders targets message => (s.appendManyFolders targets message).1
  | .setFlags name uid flags => (s.setFlags name uid flags).1
  | .expunge name uids => (s.expunge name uids).1
  | .create name => (s.create name).1
  | .delete name => (s.delete name).1
  | .rename old new => (s.rename old new).1
  | .setQuota messages storageBytes => s.setQuota messages storageBytes
  | .quotaStatus => s.quotaStatus.2

def step (s : MailStore) (op : StoreOp) : Option MailStore := some (s.apply op)

end MailStore

/-- What an append brings, and nothing for the other operations. -/
def StoreOp.brings : StoreOp → Usage
  | .append _ _ message _ => (1, message.size)
  | .appendMany _ messages _ => (messages.length, (messages.map fun m => m.2.size).sum)
  | .appendManyFolders targets message => (targets.length, message.size * targets.length)
  | _ => 0

def StoreOp.IsAppend : StoreOp → Prop
  | .append .. => True
  | .appendMany .. => True
  | .appendManyFolders .. => True
  | _ => False

namespace MailStore

/-- The totals are numbers that a `u64` holds. -/
def Fits (u : Usage) : Prop := u ≤ (u64Max, u64Max)

/-- The operation reaches the folders that it appends to. -/
def Adds (s : MailStore) : StoreOp → Prop
  | .append name _ _ _ => (s.openDir name).isOk = true
  | .appendMany name messages _ => messages ≠ [] ∧ (s.openDir name).isOk = true
  | .appendManyFolders targets _ =>
    targets ≠ [] ∧ ∀ target ∈ targets, (s.openDir target.folder).isOk = true
  | _ => False

/-- The operation finds a message to remove. -/
def Removes (s : MailStore) : StoreOp → Prop
  | .expunge name uids => ∃ normalized folder list uid base file,
    s.openDir name = .ok (normalized, folder) ∧ loadUidlist folder.uidFile = some list ∧
      uid ∈ uids ∧ list.baseOf uid = some base ∧ findFile folder.files base = some file
  | .delete name => ∃ normalized folder,
    normalizeFolderName name = .ok normalized ∧ normalized ≠ inbox ∧
      s.find normalized = some folder ∧ s.children normalized = [] ∧ folder.files ≠ []
  | _ => False

/-- The condition on a step: messages come in without a limit only while nothing is counted, and
messages go only while there are both a file of limits and a count, or neither. -/
structure Accountable (s : MailStore) (op : StoreOp) : Prop where
  fits : Fits (s.actual + op.brings)
  adds : s.Adds op → s.quotaLimits.isUnlimited = true → s.usage = none
  removes : s.Removes op → (s.quota.isSome ↔ s.usage.isSome)

/-- The count, when there is one, is right. -/
structure Counted (s : MailStore) : Prop where
  fits : Fits s.actual
  count : ∀ used, s.usage = some used → used = s.actual

/-- What is stored keeps to the limits. -/
def Within (s : MailStore) : Prop :=
  (∀ max, s.quotaLimits.messages = some max → s.actual.1 ≤ max) ∧
    ∀ max, s.quotaLimits.storageBytes = some max → s.actual.2 ≤ max

/-! ### Counting -/

theorem scanUsageDir_eq {files : List MessageFile} {used : Usage}
    (fits : Fits (used + (files.length, (files.map (·.size)).sum))) :
    scanUsageDir files used = used + (files.length, (files.map (·.size)).sum) := by
  induction files generalizing used with
  | nil => simp [scanUsageDir]
  | cons f rest ih =>
    obtain ⟨m, b⟩ := used
    simp only [Fits, List.length_cons, List.map_cons, List.sum_cons, Prod.mk_add_mk,
      Prod.mk_le_mk] at fits
    have first : (satAdd u64Max m 1, satAdd u64Max b f.size) = (m + 1, b + f.size) := by
      unfold satAdd
      rw [min_eq_left (by omega), min_eq_left (by omega)]
    simp only [scanUsageDir, List.foldl_cons, first]
    rw [← scanUsageDir, ih]
    · simp only [List.length_cons, List.map_cons, List.sum_cons, Prod.mk_add_mk, Prod.mk.injEq]
      omega
    · simp only [Fits, Prod.mk_add_mk, Prod.mk_le_mk]
      omega

theorem scanUsage_eq {s : MailStore} (fits : Fits s.actual) : s.scanUsage = s.actual := by
  have go : ∀ (folders : List (String × Folder)) (used : Usage),
      Fits (used + Assoc.total Folder.usage folders) →
      folders.foldl (fun u e => scanUsageDir e.2.files u) used =
        used + Assoc.total Folder.usage folders := by
    intro folders
    induction folders with
    | nil => simp
    | cons e rest ih =>
      intro used fits
      rw [Assoc.total_cons, ← add_assoc] at fits ⊢
      have here : Fits (used + e.2.usage) := le_trans le_self_add fits
      rw [List.foldl_cons, scanUsageDir_eq here]
      exact ih _ fits
  have all := go s.folders (0, 0)
  rw [show ((0, 0) : Usage) = 0 from rfl, zero_add] at all
  exact all fits

theorem Counted.cached {s : MailStore} (h : s.Counted) :
    s.cachedOrRecomputeUsage = (s.actual, { s with usage := some s.actual }) := by
  unfold cachedOrRecomputeUsage
  split
  · rename_i used usage
    obtain rfl := h.count used usage
    rw [← usage]
  · rw [recomputeUsage, scanUsage_eq h.fits]

theorem Counted.withUsage {s : MailStore} (h : s.Counted) :
    ({ s with usage := some s.actual } : MailStore).Counted :=
  ⟨h.fits, fun _ used => (Option.some.inj used).symm⟩

theorem satAdd_eq {a b : Nat} (h : a + b ≤ u64Max) : satAdd u64Max a b = a + b := min_eq_left h

theorem not_exceeds {limit : Option Nat} {used : Nat} (h : ¬exceeds limit used = true) (max : Nat)
    (set : limit = some max) : used ≤ max := by
  subst set
  simpa [exceeds] using h

variable {messages size : Nat} {s : MailStore} {folders : List (String × Folder)}
  {reservation : Option Usage} {targets : List Target} {reserved : MailStore}

/-- A reservation: none without a limit, an error that counts at most what is there, or the new
total, within the limits. -/
theorem Counted.reserve (h : s.Counted)
    (fits : Fits (s.actual + (messages, size))) :
    (s.quotaLimits.isUnlimited = true ∧ s.reserveQuota messages size = (s, .ok none)) ∨
      (∃ error, s.reserveQuota messages size =
        ({ s with usage := some s.actual }, .error error)) ∨
      (s.reserveQuota messages size =
          ({ s with usage := some (s.actual + (messages, size)) }, .ok (some (messages, size))) ∧
        s.quota.isSome ∧
        (∀ max, s.quotaLimits.messages = some max → s.actual.1 + messages ≤ max) ∧
        ∀ max, s.quotaLimits.storageBytes = some max → s.actual.2 + size ≤ max) := by
  have room : s.actual.1 + messages ≤ u64Max ∧ s.actual.2 + size ≤ u64Max := fits
  unfold reserveQuota
  simp only [h.cached, satAdd_eq room.1, satAdd_eq room.2]
  split_ifs with unlimited tooMany tooLarge
  · exact .inl ⟨unlimited, rfl⟩
  · exact .inr (.inl ⟨_, rfl⟩)
  · exact .inr (.inl ⟨_, rfl⟩)
  · refine .inr (.inr ⟨rfl, ?_, not_exceeds tooMany, not_exceeds tooLarge⟩)
    rw [Option.isSome_iff_ne_none]
    intro none
    simp [quotaLimits, none, QuotaLimits.isUnlimited] at unlimited

theorem release_reservation (quota : s.quota.isSome) {before : Usage}
    (usage : s.usage = some (before + (messages, size))) :
    s.releaseQuota (some (messages, size)) = { s with usage := some before } := by
  have present : ¬s.quota.isNone = true := by
    rw [Option.isNone_iff_eq_none]
    exact Option.isSome_iff_ne_none.mp quota
  unfold releaseQuota
  simp only [if_neg present, cachedOrRecomputeUsage, usage]
  simp

/-! ### Appends -/

variable {folder : Folder}

theorem openDir_normal {name normalized : String}
    (opened : s.openDir name = .ok (normalized, folder)) :
    normalizeFolderName name = .ok normalized ∧ s.find normalized = some folder := by
  unfold openDir at opened
  split at opened
  · cases opened
  rename_i normal
  split at opened
  · rename_i found
    cases opened
    exact ⟨normal, found⟩
  · cases opened

theorem openDir_ok {name normalized : String}
    (h : s.openDir name = .ok (normalized, folder)) : s.folders.lookup normalized = some folder :=
  (openDir_normal h).2

variable {name : String}

theorem openDir_isOk {found : String × Folder}
    (h : s.openDir name = .ok found) : (s.openDir name).isOk = true := by
  rw [h]
  rfl

/-- What an append may do: the count is right afterwards, and the store holds what it held or is
within the limits. -/
structure AppendsWithin (s t : MailStore) : Prop where
  counted : t.Counted
  within : t.actual = s.actual ∨ t.Within

/-- The messages are in and were counted, or there was nothing to count. -/
theorem Counted.appended {s t : MailStore} (h : s.Counted)
    (fits : Fits (s.actual + (messages, size)))
    (uncounted : s.quotaLimits.isUnlimited = true → s.usage = none)
    (reserve : s.reserveQuota messages size = (reserved, .ok reservation))
    (actual : t.actual = s.actual + (messages, size)) (quota : t.quota = s.quota)
    (usage : t.usage = reserved.usage) : s.AppendsWithin t := by
  have limits : t.quotaLimits = s.quotaLimits := by rw [quotaLimits, quota, ← quotaLimits]
  rcases h.reserve fits with ⟨unlimited, none⟩ | ⟨error, failed⟩ | ⟨ok, -, inMessages, inBytes⟩
  · cases reserve.symm.trans none
    refine ⟨⟨actual ▸ fits, fun used set => ?_⟩, .inr ?_⟩
    · rw [usage, uncounted unlimited] at set
      cases set
    · simp only [QuotaLimits.isUnlimited, Bool.and_eq_true, Option.isNone_iff_eq_none] at unlimited
      simp [Within, limits, unlimited]
  · cases reserve.symm.trans failed
  · cases reserve.symm.trans ok
    refine ⟨⟨actual ▸ fits, fun used set => ?_⟩, .inr ?_⟩
    · rw [usage] at set
      exact (Option.some.inj set).symm.trans actual.symm
    · rw [Within, limits, actual]
      exact ⟨inMessages, inBytes⟩

/-- The messages are not in, and what was counted for them is released. -/
theorem Counted.released {s left : MailStore} (h : s.Counted)
    (fits : Fits (s.actual + (messages, size)))
    (reserve : s.reserveQuota messages size = (reserved, .ok reservation))
    (actual : left.actual = s.actual) (quota : left.quota = s.quota)
    (usage : left.usage = reserved.usage) : s.AppendsWithin (left.releaseQuota reservation) := by
  rcases h.reserve fits with ⟨-, none⟩ | ⟨error, failed⟩ | ⟨ok, limited, -⟩
  · cases reserve.symm.trans none
    refine ⟨⟨actual ▸ h.fits, fun used set => ?_⟩, .inl actual⟩
    exact (h.count used (usage.symm.trans set)).trans actual.symm
  · cases reserve.symm.trans failed
  · cases reserve.symm.trans ok
    rw [release_reservation (quota ▸ limited) usage]
    refine ⟨⟨actual ▸ h.fits, fun used set => ?_⟩, .inl actual⟩
    exact (Option.some.inj set).symm.trans actual.symm

theorem Counted.refused {s reserved : MailStore} (h : s.Counted) {messages size : Nat}
    {error : MailError} (fits : Fits (s.actual + (messages, size)))
    (reserve : s.reserveQuota messages size = (reserved, .error error)) :
    s.AppendsWithin reserved := by
  rcases h.reserve fits with ⟨-, none⟩ | ⟨_, failed⟩ | ⟨ok, -⟩
  · cases reserve.symm.trans none
  · cases reserve.symm.trans failed
    exact ⟨h.withUsage, .inl rfl⟩
  · cases reserve.symm.trans ok

theorem Counted.unchanged (h : s.Counted) : s.AppendsWithin s := ⟨h, .inl rfl⟩

theorem reserve_folders {s reserved : MailStore} {result : Except MailError (Option Usage)}
    (h : s.reserveQuota messages size = (reserved, result)) :
    reserved.folders = s.folders ∧ reserved.quota = s.quota := by
  have cached : s.cachedOrRecomputeUsage.2.folders = s.folders ∧
      s.cachedOrRecomputeUsage.2.quota = s.quota := by
    unfold cachedOrRecomputeUsage
    split <;> exact ⟨rfl, rfl⟩
  unfold reserveQuota at h
  simp only at h
  split_ifs at h <;> cases h
  · exact ⟨rfl, rfl⟩
  all_goals exact cached

theorem releaseQuota_folders (reservation : Option Usage) :
    (s.releaseQuota reservation).folders = s.folders := by
  unfold releaseQuota
  split
  · rfl
  · split
    · rfl
    · simp only [cachedOrRecomputeUsage, recomputeUsage]
      split <;> rfl

theorem appendReserved_cases
    (found : s.folders.lookup name = some folder) (staged : List MessageFile) (fresh : Nat) :
    (∃ folders result,
      s.appendReserved name folder staged fresh = ({ s with folders }, .ok result) ∧
        Assoc.total Folder.usage folders =
          s.actual + (staged.length, (staged.map (·.size)).sum)) ∨
      ∃ error, s.appendReserved name folder staged fresh = (s, .error error) := by
  unfold appendReserved
  split
  · rename_i list uids assigned
    refine .inl ⟨_, _, rfl, ?_⟩
    let grow (f : Folder) : Folder :=
      { f with files := f.files ++ staged, uidFile := some list, expunged := f.history }
    have moved := Assoc.total_modify (m := Folder.usage) grow found
    have grown : (grow folder).usage =
        folder.usage + (staged.length, (staged.map (·.size)).sum) := by
      simp [grow, Folder.usage]
    rw [grown, ← add_assoc, add_right_comm] at moved
    exact add_right_cancel moved
  · exact .inr ⟨_, rfl⟩

/-- An append that fails leaves the folders as they are, and one that succeeds adds the files. -/
theorem appendCounted_cases (s : MailStore) (name : String) (messages size : Nat)
    (staged : List MessageFile) (fresh : Nat) :
    (∃ t error, s.appendCounted name messages size staged fresh = (t, .error error) ∧
      t.folders = s.folders) ∨
    ∃ t normalized folder list uids,
      s.appendCounted name messages size staged fresh = (t, .ok (list.uidvalidity, uids)) ∧
      s.openDir name = .ok (normalized, folder) ∧
      assignUidsMany folder.uidFile (staged.map (·.base)) fresh = some (list, uids) ∧
      t.folders = Assoc.modify normalized (fun f =>
        { f with files := f.files ++ staged, uidFile := some list, expunged := f.history })
        s.folders := by
  unfold appendCounted
  split
  · exact .inl ⟨s, _, rfl, rfl⟩
  rename_i normalized folder opened
  split
  · rename_i reserve
    exact .inl ⟨_, _, rfl, (reserve_folders reserve).1⟩
  rename_i reserved reservation reserve
  have same := (reserve_folders reserve).1
  unfold appendReserved
  split
  · rename_i left error run
    split at run
    · cases run
    · cases run
      exact .inl ⟨_, _, rfl, (releaseQuota_folders reservation).trans same⟩
  · rename_i left result run
    split at run
    · rename_i list uids assigned
      cases run
      exact .inr ⟨_, normalized, folder, list, uids, rfl, opened, assigned, by rw [same]⟩
    · cases run

variable {fresh : Nat}

theorem Counted.appendCounted (h : s.Counted)
    {staged : List MessageFile} (fits : Fits (s.actual + (messages, size)))
    (uncounted : (s.openDir name).isOk = true → s.quotaLimits.isUnlimited = true → s.usage = none)
    (brings : ((staged.length, (staged.map (·.size)).sum) : Usage) = (messages, size)) :
    s.AppendsWithin (s.appendCounted name messages size staged fresh).1 := by
  unfold MailStore.appendCounted
  split
  · exact h.unchanged
  rename_i normalized folder opened
  split
  · rename_i reserve
    exact h.refused fits reserve
  rename_i reserved reservation reserve
  obtain ⟨folders, quota⟩ := reserve_folders reserve
  have actual : reserved.actual = s.actual := by rw [MailStore.actual, folders, ← MailStore.actual]
  rcases appendReserved_cases (folders ▸ openDir_ok opened) staged fresh with
    ⟨grown, result, run, moved⟩ | ⟨error, run⟩
  · rw [run]
    rw [actual, brings] at moved
    exact h.appended fits (uncounted (openDir_isOk opened)) reserve moved quota rfl
  · rw [run]
    exact h.released fits reserve actual quota rfl

theorem wrap64_eq {n : Nat} (h : n ≤ u64Max) : wrap64 n = n :=
  Nat.mod_eq_of_lt (by unfold u64Max at h; omega)

variable {message : NewMessage}

theorem Counted.append (h : s.Counted) {name base : String}
    (ok : s.Accountable (.append name base message fresh)) :
    s.AppendsWithin (s.append name base message fresh).1 :=
  h.appendCounted ok.fits ok.adds (by simp [NewMessage.stage])

theorem Counted.appendMany (h : s.Counted) {messages : List (String × NewMessage)}
    (ok : s.Accountable (.appendMany name messages fresh)) :
    s.AppendsWithin (s.appendMany name messages fresh).1 := by
  unfold MailStore.appendMany
  split
  · exact h.unchanged
  rename_i some
  have sum : (messages.map fun m => m.2.size).sum ≤ u64Max :=
    le_trans (Nat.le_add_left _ _) ok.fits.2
  rw [wrap64_eq sum]
  refine h.appendCounted ok.fits (fun opened => ok.adds ⟨?_, opened⟩) ?_
  · simpa using some
  · simp [NewMessage.stage, Function.comp_def]

variable {placed : List (String × Target)}

theorem place_ok
    (h : s.place targets = .ok placed) : placed.length = targets.length ∧
      (∀ p ∈ placed, (s.folders.lookup p.1).isSome) ∧
      ∀ target ∈ targets, (s.openDir target.folder).isOk = true := by
  induction targets generalizing placed with
  | nil =>
    cases h
    simp
  | cons target rest ih =>
    unfold place at h
    split at h
    · cases h
    rename_i name folder opened
    split at h
    · cases h
    rename_i others run
    cases h
    obtain ⟨count, found, ok⟩ := ih run
    refine ⟨by simp [count], ?_, ?_⟩
    · intro p mem
      rcases List.mem_cons.mp mem with rfl | mem
      · simp [openDir_ok opened]
      · exact found p mem
    · intro t mem
      rcases List.mem_cons.mp mem with rfl | mem
      · exact openDir_isOk opened
      · exact ok t mem

theorem lookup_modify_isSome {name k : String}
    {f : Folder → Folder} (h : (folders.lookup k).isSome) :
    ((Assoc.modify name f folders).lookup k).isSome := by
  rw [Assoc.lookup_modify]
  split_ifs <;> simpa using h

theorem assignEach_spec {folders folders' : List (String × Folder)} {done : Bool}
    (h : assignEach folders placed = (folders', done)) :
    Assoc.total Folder.usage folders' = Assoc.total Folder.usage folders ∧
      ∀ name, (folders.lookup name).isSome → (folders'.lookup name).isSome := by
  induction placed generalizing folders with
  | nil =>
    cases h
    exact ⟨rfl, fun _ found => found⟩
  | cons p rest ih =>
    unfold assignEach at h
    split at h
    · obtain ⟨total, names⟩ := ih h
      refine ⟨total.trans (Assoc.total_modify_eq _ fun f => rfl), fun name found => ?_⟩
      exact names name (lookup_modify_isSome found)
    · cases h
      exact ⟨rfl, fun _ found => found⟩

theorem moveEach_spec
    (found : ∀ p ∈ placed, (folders.lookup p.1).isSome) :
    Assoc.total Folder.usage (moveEach message folders placed) =
      Assoc.total Folder.usage folders + (placed.length, message.size * placed.length) := by
  induction placed generalizing folders with
  | nil => simp [moveEach]
  | cons p rest ih =>
    obtain ⟨folder, here⟩ := Option.isSome_iff_exists.mp (found p List.mem_cons_self)
    have moved := Assoc.total_modify (m := Folder.usage)
      (fun f => { f with files := f.files ++ [message.stage p.2.base] }) here
    have grown : Folder.usage { folder with files := folder.files ++ [message.stage p.2.base] } =
        folder.usage + (1, message.size) := by
      simp [Folder.usage, NewMessage.stage]
    rw [grown, ← add_assoc, add_right_comm] at moved
    rw [moveEach, List.foldl_cons, ← moveEach,
      ih fun q mem => lookup_modify_isSome (found q (List.mem_cons_of_mem _ mem)),
      add_right_cancel moved, add_assoc]
    simp only [List.length_cons, Prod.mk_add_mk, Nat.mul_succ]
    rw [add_comm 1, add_comm message.size]

theorem Counted.appendManyFolders (h : s.Counted)
    (ok : s.Accountable (.appendManyFolders targets message)) :
    s.AppendsWithin (s.appendManyFolders targets message).1 := by
  unfold MailStore.appendManyFolders
  split
  · exact h.unchanged
  rename_i nonempty
  split
  · exact h.unchanged
  rename_i placed run
  obtain ⟨count, found, opened⟩ := place_ok run
  have sum : message.size * targets.length ≤ u64Max := le_trans (Nat.le_add_left _ _) ok.fits.2
  rw [wrap64_eq sum]
  split
  · rename_i reserve
    exact h.refused ok.fits reserve
  rename_i reserved reservation reserve
  obtain ⟨folders, quota⟩ := reserve_folders reserve
  split
  · rename_i assigned assigns
    obtain ⟨total, names⟩ := assignEach_spec assigns
    refine h.appended ok.fits (ok.adds ⟨by simpa using nonempty, opened⟩) reserve ?_ quota rfl
    have moved : Assoc.total Folder.usage (moveEach message assigned placed) = _ :=
      moveEach_spec fun p mem => names p.1 (folders ▸ found p mem)
    rw [total, folders, count] at moved
    exact moved
  · rename_i assigned assigns
    obtain ⟨total, -⟩ := assignEach_spec assigns
    rw [folders] at total
    exact h.released ok.fits reserve total quota rfl

/-! ### Messages that go -/

/-- Messages went from a store that was counted right. -/
theorem Counted.went {s left : MailStore} (h : s.Counted) {gone : Usage}
    (actual : left.actual + gone = s.actual) (quota : left.quota = s.quota)
    (usage : left.usage = s.usage) (both : gone ≠ 0 → (s.quota.isSome ↔ s.usage.isSome)) :
    (left.releaseQuota (some gone)).Counted := by
  have fits : Fits left.actual := le_trans (actual ▸ le_self_add) h.fits
  obtain ⟨messages, size⟩ := gone
  unfold releaseQuota
  simp only
  split_ifs with absent
  · -- without limits nothing is released, so nothing may be counted
    refine ⟨fits, fun used set => ?_⟩
    by_cases zero : ((messages, size) : Usage) = 0
    · rw [zero, add_zero] at actual
      rw [actual]
      exact h.count used (usage ▸ set)
    · have counted := (both zero).mpr (by rw [← usage, set]; rfl)
      rw [← quota, Option.isSome_iff_ne_none] at counted
      exact absurd (Option.isNone_iff_eq_none.mp absent) counted
  · cases set : left.usage with
    | some used =>
      obtain rfl := h.count used (usage ▸ set)
      refine ⟨?_, fun u hu => ?_⟩
      · simp only [cachedOrRecomputeUsage, set]
        exact fits
      · simp only [cachedOrRecomputeUsage, set, Option.some.injEq, ← actual] at hu ⊢
        rw [← hu]
        simp [MailStore.actual]
    | none =>
      -- nothing was counted, so nothing went
      have zero : ((messages, size) : Usage) = 0 := by
        by_contra some
        have counted := (both some).mp (by
          rw [← quota, Option.isSome_iff_ne_none]
          exact fun h => absent (by simp [h]))
        rw [← usage, set] at counted
        cases counted
      obtain ⟨rfl, rfl⟩ : messages = 0 ∧ size = 0 := by simpa using zero
      have counted : left.Counted := ⟨fits, fun used hu => by rw [set] at hu; cases hu⟩
      rw [counted.cached]
      refine ⟨fits, fun u hu => ?_⟩
      exact (Option.some.inj hu).symm

end MailStore

theorem expungeLoop_usage {list : UidList} {uids : List Nat} {files left : List MessageFile}
    {removed : List Nat} {size : Nat}
    (h : expungeLoop list uids files = (left, removed, size))
    (fits : (files.map (·.size)).sum ≤ u64Max) :
    left.length + removed.length = files.length ∧
      (left.map (·.size)).sum + size = (files.map (·.size)).sum ∧ (removed = [] → size = 0) := by
  induction uids generalizing files removed size with
  | nil =>
    cases h
    simp
  | cons uid rest ih =>
    unfold expungeLoop at h
    split at h
    · exact ih h fits
    rename_i base hbase
    split at h
    · exact ih h fits
    rename_i file found
    generalize run : expungeLoop list rest (files.erase file) = result at h
    obtain ⟨l, us, bs⟩ := result
    cases h
    have mem := (findFile_some found).1
    have perm := List.perm_cons_erase mem
    have count := perm.length_eq
    have sum := (perm.map (·.size)).sum_eq
    simp only [List.length_cons, List.map_cons, List.sum_cons] at count sum
    obtain ⟨lengths, sizes, -⟩ := ih run (by omega)
    rw [MailStore.satAdd_eq (by omega)]
    simp only [List.length_cons]
    exact ⟨by omega, by omega, fun none => by cases none⟩

theorem expungeLoop_finds {list : UidList} {uids : List Nat} {files left : List MessageFile}
    {removed : List Nat} {size : Nat}
    (h : expungeLoop list uids files = (left, removed, size)) (some : removed ≠ []) :
    ∃ uid ∈ uids, ∃ base file, list.baseOf uid = .some base ∧
      findFile files base = .some file := by
  induction uids generalizing files removed size with
  | nil =>
    cases h
    exact absurd rfl some
  | cons uid rest ih =>
    unfold expungeLoop at h
    split at h
    · obtain ⟨u, mem, found⟩ := ih h some
      exact ⟨u, List.mem_cons_of_mem _ mem, found⟩
    rename_i base hbase
    split at h
    · obtain ⟨u, mem, found⟩ := ih h some
      exact ⟨u, List.mem_cons_of_mem _ mem, found⟩
    · rename_i file found
      exact ⟨uid, List.mem_cons_self, base, file, hbase, found⟩

/-- What `Folder.expunge` takes away, and that it found it. -/
theorem Folder.expunge_usage {folder changed : Folder} {uids removed : List Nat} {size : Nat}
    (h : folder.expunge uids = (changed, removed, size)) (fits : folder.usage.2 ≤ u64Max) :
    changed.usage + (removed.length, size) = folder.usage ∧ (removed = [] → size = 0) ∧
      (removed ≠ [] → ∃ list uid base file, loadUidlist folder.uidFile = some list ∧ uid ∈ uids ∧
        list.baseOf uid = some base ∧ findFile folder.files base = some file) := by
  unfold Folder.expunge at h
  split at h
  · cases h
    simp [Folder.usage]
  rename_i list load
  generalize run : expungeLoop list uids folder.files = result at h
  obtain ⟨left, gone, bytes⟩ := result
  obtain ⟨lengths, sizes, zero⟩ := expungeLoop_usage run fits
  simp only at h
  split at h
  · rename_i nothing
    cases h
    obtain rfl : gone = [] := by simpa using nothing
    exact ⟨Prod.ext lengths sizes, zero, fun some => absurd rfl some⟩
  · cases h
    refine ⟨Prod.ext lengths sizes, zero, fun some => ?_⟩
    obtain ⟨uid, mem, base, file, found⟩ := expungeLoop_finds run some
    exact ⟨list, uid, base, file, load, mem, found⟩

namespace MailStore

theorem folder_fits {s : MailStore} (h : s.Counted)
    (found : s.folders.lookup name = some folder) : Fits folder.usage := by
  have part : folder.usage ≤ s.actual := by
    rw [actual, ← Assoc.total_remove (m := Folder.usage) found]
    exact le_self_add
  exact le_trans part h.fits

theorem actual_modify {s : MailStore} {gone : Usage}
    {g : Folder → Folder} (found : s.folders.lookup name = some folder)
    (usage : (g folder).usage + gone = folder.usage) :
    ({ s with folders := Assoc.modify name g s.folders } : MailStore).actual + gone =
      s.actual := by
  have moved := Assoc.total_modify (m := Folder.usage) g found
  rw [← usage, add_comm (g folder).usage, ← add_assoc] at moved
  exact add_right_cancel moved

theorem Counted.moved {s : MailStore} (h : s.Counted) {folders : List (String × Folder)}
    (same : Assoc.total Folder.usage folders = s.actual) :
    ({ s with folders } : MailStore).Counted := by
  refine ⟨?_, fun used set => (h.count used set).trans same.symm⟩
  have fits := h.fits
  rwa [← same] at fits

theorem Counted.expunge {s : MailStore} (h : s.Counted) {name : String} {uids : List Nat}
    (ok : s.Accountable (.expunge name uids)) : (s.expunge name uids).1.Counted := by
  unfold MailStore.expunge
  split
  · exact h
  rename_i normalized folder opened
  generalize run : folder.expunge uids = result
  obtain ⟨changed, removed, size⟩ := result
  have found := openDir_ok opened
  obtain ⟨usage, zero, finds⟩ := Folder.expunge_usage run (folder_fits h found).2
  have actual := actual_modify (s := s) found (g := fun _ => changed) usage
  simp only
  split
  · rename_i nothing
    obtain rfl : removed = [] := by simpa using nothing
    rw [zero rfl] at actual
    exact h.moved actual
  · rename_i some
    refine h.went actual rfl rfl fun _ => ok.removes ?_
    obtain ⟨list, uid, base, file, found'⟩ := finds (by simpa using some)
    exact ⟨normalized, folder, list, uid, base, file, opened, found'⟩

theorem Counted.delete {s : MailStore} (h : s.Counted)
    (ok : s.Accountable (.delete name)) : (s.delete name).1.Counted := by
  unfold MailStore.delete
  split
  · exact h
  rename_i normalized valid
  split
  · exact h
  rename_i other
  split
  · exact h
  rename_i folder found
  split
  · exact h
  rename_i childless
  have removed : scanUsageDir folder.files (0, 0) = folder.usage := by
    have fits := folder_fits h found
    rw [scanUsageDir_eq] <;> simp [Folder.usage] at fits ⊢
    exact fits
  have actual : ({ s with folders := Assoc.remove normalized s.folders } : MailStore).actual +
      folder.usage = s.actual := by
    rw [add_comm]
    exact Assoc.total_remove found
  simp only [removed]
  refine h.went actual rfl rfl fun some =>
    ok.removes ⟨normalized, folder, valid, other, found, ?_, ?_⟩
  · simpa using childless
  · rintro empty
    exact some (by simp [Folder.usage, empty])

theorem Counted.setFlags {s : MailStore} (h : s.Counted) (name : String) (uid : Nat)
    (flags : FlagSet) : (s.setFlags name uid flags).1.Counted := by
  unfold MailStore.setFlags
  split
  · exact h
  rename_i normalized folder opened
  split
  · exact h
  rename_i changed list target run
  have usage : changed.usage + 0 = folder.usage := by
    obtain ⟨old, source, -, -, -, -, rfl, rfl⟩ := setFlags_ok run
    simp only [Folder.usage, List.length_map, List.map_map, add_zero, Prod.mk.injEq, true_and]
    congr 1
    refine List.map_congr_left fun f _ => ?_
    simp only [Function.comp]
    split_ifs with same
    · rw [same]
    · rfl
  have actual := actual_modify (s := s) (openDir_ok opened) (g := fun _ => changed) usage
  rw [add_zero] at actual
  exact h.moved actual

theorem Counted.create {s : MailStore} (h : s.Counted) (name : String) :
    (s.create name).1.Counted := by
  unfold MailStore.create
  split
  · exact h
  split_ifs
  · exact h
  · exact h
  · exact h.moved (by simp [MailStore.actual, Folder.usage, Folder.empty])

theorem renameChildren_total {before folders : List (String × Folder)}
    {moves : List (String × String)}
    (same : Assoc.total Folder.usage folders = Assoc.total Folder.usage before) :
    Assoc.total Folder.usage (renameChildren before folders moves).1 =
      Assoc.total Folder.usage before := by
  induction moves generalizing folders with
  | nil => exact same
  | cons move rest ih =>
    unfold renameChildren
    split
    · exact same
    split_ifs
    · rfl
    · exact ih (by simpa using same)

theorem Counted.rename {s : MailStore} (h : s.Counted) (old new : String) :
    (s.rename old new).1.Counted := by
  unfold MailStore.rename
  split
  · exact h
  · exact h
  rename_i source target _ _
  split
  · exact h
  split
  · exact h
  rename_i folder found
  split
  · exact h
  split
  · rename_i isInbox
    subst isInbox
    refine h.moved ?_
    have emptied :
        Folder.usage { folder with files := [], uidFile := none, expunged := [] } + folder.usage =
          folder.usage := by simp [Folder.usage]
    rw [Assoc.total_append, Assoc.total_cons, Assoc.total_nil, add_zero]
    exact actual_modify found emptied
  · exact h.moved (renameChildren_total (by simp))

theorem Counted.setQuota {s : MailStore} (h : s.Counted) (messages storageBytes : Option Nat) :
    (s.setQuota messages storageBytes).Counted :=
  ⟨h.fits, fun _ set => by cases set⟩

theorem Counted.quotaStatus {s : MailStore} (h : s.Counted) :
    s.quotaStatus.1.usage = s.actual ∧ s.quotaStatus.2.Counted := by
  unfold MailStore.quotaStatus
  rw [h.cached]
  exact ⟨rfl, h.withUsage⟩

/-! ### Runs -/

theorem Counted.step {s : MailStore} (h : s.Counted) {op : StoreOp} (ok : s.Accountable op) :
    (s.apply op).Counted ∧ (op.IsAppend → s.AppendsWithin (s.apply op)) := by
  cases op with
  | append name base message fresh =>
    have spec := h.append ok
    exact ⟨spec.counted, fun _ => spec⟩
  | appendMany name messages fresh =>
    have spec := h.appendMany ok
    exact ⟨spec.counted, fun _ => spec⟩
  | appendManyFolders targets message =>
    have spec := h.appendManyFolders ok
    exact ⟨spec.counted, fun _ => spec⟩
  | setFlags name uid flags => exact ⟨h.setFlags name uid flags, False.elim⟩
  | expunge name uids => exact ⟨h.expunge ok, False.elim⟩
  | create name => exact ⟨h.create name, False.elim⟩
  | delete name => exact ⟨h.delete ok, False.elim⟩
  | rename old new => exact ⟨h.rename old new, False.elim⟩
  | setQuota messages storageBytes => exact ⟨h.setQuota messages storageBytes, False.elim⟩
  | quotaStatus => exact ⟨h.quotaStatus.2, False.elim⟩

theorem Counted.run {s t : MailStore} {ops : List StoreOp} (uncounted : s.usage = none)
    (fits : Fits s.actual) (run : Runs MailStore.step Accountable s ops t) : t.Counted := by
  refine run.invariant ⟨fits, fun used set => ?_⟩ ?_
  · rw [uncounted] at set
    cases set
  · rintro s op u h ok step
    cases step
    exact (h.step ok).1

end MailStore

/-- In every run of which all steps are accountable, the reported use is what is in the store, and
an append leaves the store within the limits that are set or leaves its messages as they were. -/
theorem quota_counts_and_limits {s t : MailStore} {ops : List StoreOp} (uncounted : s.usage = none)
    (fits : MailStore.Fits s.actual)
    (run : Runs MailStore.step MailStore.Accountable s ops t) :
    t.quotaStatus.1.usage = t.actual ∧
      ∀ op, op.IsAppend → t.Accountable op →
        (t.apply op).actual = t.actual ∨ (t.apply op).Within := by
  have counted := MailStore.Counted.run uncounted fits run
  exact ⟨counted.quotaStatus.1, fun op append ok => ((counted.step ok).2 append).within⟩

/-! ### A release that counts twice -/

def emptyStore : MailStore :=
  { folders := [(inbox, Folder.empty)], quota := none, usage := none }

def note : NewMessage := { size := 5, flags := ∅ }

/-- A check that is enough for `Accountable`. -/
def MailStore.accountable (s : MailStore) (op : StoreOp) : Bool :=
  decide ((s.actual + op.brings).1 ≤ u64Max) && decide ((s.actual + op.brings).2 ≤ u64Max) &&
    (!s.quotaLimits.isUnlimited || s.usage.isNone) &&
    match op with
    | .expunge .. => s.quota.isSome == s.usage.isSome
    | .delete .. => s.quota.isSome == s.usage.isSome
    | _ => true

theorem accountable_of_check (s : MailStore) (op : StoreOp) (h : s.accountable op = true) :
    s.Accountable op := by
  simp only [MailStore.accountable, Bool.and_eq_true, decide_eq_true_eq] at h
  obtain ⟨⟨⟨messages, size⟩, uncounted⟩, both⟩ := h
  refine ⟨⟨messages, size⟩, fun _ unlimited => ?_, fun removes => ?_⟩
  · simpa [unlimited] using uncounted
  · cases op with
    | expunge name uids => simpa using both
    | delete name => simpa using both
    | _ => exact removes.elim

def countedOps : List StoreOp :=
  [.setQuota (some 2) none, .append inbox "1.a" note 7, .append inbox "1.b" note 7,
    .quotaStatus, .expunge inbox [1]]

theorem quota_counts_and_limits_expunge :
    ∃ t, Runs MailStore.step MailStore.Accountable emptyStore countedOps t ∧
      t.actual = (1, 5) ∧ t.quotaStatus.1.usage = t.actual := by
  have ran : (checkedExec MailStore.step MailStore.accountable emptyStore countedOps).map
      (·.actual) = some (1, 5) := by decide +kernel
  obtain ⟨t, exec_eq, actual⟩ := Option.map_eq_some_iff.mp ran
  have run := runs_of_checkedExec accountable_of_check exec_eq
  have fits : MailStore.Fits emptyStore.actual := ⟨by decide, by decide⟩
  exact ⟨t, run, actual, (quota_counts_and_limits rfl fits run).1⟩

/-- Two messages come in, a limit of two is set, which drops the count, and one message goes: the
count is made after the removal and the message subtracted from it once more. From then on the count
is one short. -/
def doubleRelease : List StoreOp :=
  [.append inbox "1.a" note 7, .append inbox "1.b" note 7, .setQuota (some 2) none,
    .expunge inbox [1], .append inbox "1.c" note 7]

theorem release_counts_twice :
    ¬∀ (s t : MailStore) (ops : List StoreOp), s.usage = none → MailStore.Fits s.actual →
      Reaches MailStore.step s ops t →
      t.quotaStatus.1.usage = t.actual ∧
        ∀ op, op.IsAppend → (t.apply op).actual = t.actual ∨ (t.apply op).Within := by
  intro claim
  have ran : (exec MailStore.step emptyStore doubleRelease).map
      (fun t => (t.quotaStatus.1.usage, t.actual)) = some ((1, 5), (2, 10)) := by decide +kernel
  obtain ⟨t, exec_eq, counts⟩ := Option.map_eq_some_iff.mp ran
  have fits : MailStore.Fits emptyStore.actual := ⟨by decide, by decide⟩
  have same := (claim emptyStore t doubleRelease rfl fits (reaches_of_exec exec_eq)).1
  simp only [Prod.mk.injEq] at counts
  rw [counts.1, counts.2] at same
  simp at same

end MailStack.Maildir
