import MailStack.Lib.Machine
import MailStack.Maildir.UidImport

/-! Runs of the operations that change the list of UIDs of a folder. The list stays one that can be
read back, and its numbers only grow, unless an import takes over the last UID: there is no next UID
above it. -/

namespace MailStack.Maildir

open Lib

/-- What changes the list of UIDs, and anything that happens to the files of the folder. -/
inductive UidOp
  | sync (bases : List Base) (fresh : Uidvalidity)
  | assign (bases : List Base) (fresh : Uidvalidity)
  | setFlags (uid : Nat) (flags : FlagSet)
  | expunge (uids : List Nat)
  | importUidlist (uidvalidity uidnextHint : UInt32) (candidates : List Candidate)
  | refile (files : List MessageFile)

namespace UidOp

/-- The folder after an operation. One that fails leaves it as it was. -/
def apply (folder : Folder) : UidOp → Folder
  | .sync bases fresh =>
    match syncUidlist folder.uidFile (bases.map (·.1)) fresh with
    | some list => { folder with uidFile := some list, expunged := folder.history }
    | none => folder
  | .assign bases fresh =>
    match assignUidsMany folder.uidFile (bases.map (·.1)) fresh with
    | some (list, _) => { folder with uidFile := some list, expunged := folder.history }
    | none => folder
  | .setFlags uid flags =>
    match folder.setFlags uid flags with
    | .ok (changed, _) => changed
    | .error _ => folder
  | .expunge uids => (folder.expunge uids).1
  | .importUidlist uidvalidity uidnextHint candidates =>
    match folder.importUidlist uidvalidity uidnextHint candidates with
    | .ok (imported, _) => imported
    | .error _ => folder
  | .refile files => { folder with files }

def step (folder : Folder) (op : UidOp) : Option Folder := some (op.apply folder)

/-- An import that goes through and takes over the last UID. -/
def TakesLast (folder : Folder) : UidOp → Prop
  | .importUidlist uidvalidity _ candidates =>
    uidvalidity ≠ 0 ∧ folder.uidFile = none ∧ folder.scan.length ≤ maxScanEntries ∧
      ∃ e ∈ (takeCandidates (scanBases folder.scan) candidates).1, e.uid = u32Max
  | _ => False

end UidOp

structure Appended (list : UidList) (next : Nat) (list' : UidList) (added : List UidEntry) :
    Prop where
  byUid : list'.byUid = list.byUid ++ added
  highestModseq : list'.highestModseq =
    (fun m => satAdd u64Max m 1)^[added.length] list.highestModseq
  sorted : added.Pairwise fun a b => a.uid < b.uid
  above : ∀ e ∈ added, next ≤ e.uid

theorem assign_appended {list list' : UidList} {next next' : Nat} {given : List String}
    {uids : List Nat} (h : list.assign next given = some (list', next', uids)) :
    ∃ added, Appended list next list' added := by
  induction given generalizing list next uids with
  | nil =>
    simp only [UidList.assign, Option.some.injEq, Prod.mk.injEq] at h
    obtain ⟨rfl, rfl, rfl⟩ := h
    exact ⟨[], by simp, rfl, .nil, List.forall_mem_nil _⟩
  | cons base rest ih =>
    simp only [UidList.assign] at h
    split at h
    · obtain ⟨⟨l, n, us⟩, run, eq⟩ := Option.map_eq_some_iff.mp h
      cases eq
      exact ih run
    · split at h
      · cases h
      · obtain ⟨⟨l, n, us⟩, run, eq⟩ := Option.map_eq_some_iff.mp h
        cases eq
        obtain ⟨added, spec⟩ := ih run
        refine ⟨{ uid := next, base, modseq := satAdd u64Max list.highestModseq 1 } :: added,
          ⟨by rw [spec.byUid]; simp, ?_, ?_, ?_⟩⟩
        · rw [spec.highestModseq, List.length_cons, Function.iterate_succ_apply]
        · refine List.pairwise_cons.mpr ⟨fun e mem => ?_, spec.sorted⟩
          exact spec.above e mem
        · intro e mem
          rcases List.mem_cons.mp mem with rfl | mem
          · exact le_refl _
          · exact (Nat.le_succ next).trans (spec.above e mem)

theorem lt_satAdd_iterate {m n : Nat} (room : m < u64Max) (some : 0 < n) :
    m < (fun m => satAdd u64Max m 1)^[n] m := by
  obtain ⟨k, rfl⟩ := Nat.exists_eq_succ_of_ne_zero some.ne'
  have up : m < satAdd u64Max m 1 ∧ satAdd u64Max m 1 ≤ u64Max := by
    unfold satAdd
    omega
  rw [Function.iterate_succ_apply]
  exact up.1.trans_le (satAdd_iterate up.2 k).1

/-- A list with its entries in the order of their UIDs, as the program keeps them. -/
def UidList.Sorted (list : UidList) : Prop := list.byUid.Pairwise fun a b => a.uid < b.uid

theorem UidList.Accepted.stored {list : UidList} (h : list.Accepted) (sorted : list.Sorted) :
    list.Stored :=
  ⟨h.range, fun e mem => ⟨(h.bounds e mem).2.le.trans h.range.2.1,
    (h.modseqs e mem).2.trans h.range.2.2⟩, h.valid, sorted⟩

/-- What an operation that assigns UIDs makes of a list: entries may go, and new ones come after
those that stay. -/
structure Extended (old new : UidList) : Prop where
  accepted : new.Accepted
  uidvalidity : new.uidvalidity = old.uidvalidity
  uidnext : old.uidnext ≤ new.uidnext
  highest : old.highestModseq ≤ new.highestModseq
  sorted : old.Sorted → new.Sorted
  raised : old.highestModseq < u64Max → (∃ e ∈ new.byUid, e ∉ old.byUid) →
    old.highestModseq < new.highestModseq

theorem Extended.of_appended {old kept new : UidList} {added : List UidEntry} {given : List String}
    (grown : Grown old new given) (sub : kept.byUid.Sublist old.byUid)
    (highest : kept.highestModseq = old.highestModseq) (accepted : old.Accepted)
    (h : Appended kept old.uidnext new added) : Extended old new := by
  refine ⟨grown.accepted, grown.uidvalidity, grown.later, ?_, fun sorted => ?_, fun room => ?_⟩
  · rw [h.highestModseq, highest]
    exact (satAdd_iterate accepted.range.2.2 _).1
  · unfold UidList.Sorted
    rw [h.byUid]
    refine List.pairwise_append.mpr ⟨sorted.sublist sub, h.sorted, fun a inKept b inAdded => ?_⟩
    exact (accepted.bounds a (sub.subset inKept)).2.trans_le (h.above b inAdded)
  · rintro ⟨e, inNew, notOld⟩
    have some : 0 < added.length := by
      rw [h.byUid] at inNew
      rcases List.mem_append.mp inNew with inKept | inAdded
      · exact absurd (sub.subset inKept) notOld
      · exact List.length_pos_of_mem inAdded
    rw [h.highestModseq, highest]
    exact lt_satAdd_iterate room some

theorem syncUidlist_extended {file : Option UidList} {bases : List String} {fresh : Nat}
    {new : UidList} (hfresh : IsUidvalidity fresh) (valid : ∀ b ∈ bases, isValidBase b = true)
    (h : syncUidlist file bases fresh = some new) : Extended (loadOrRebuild file fresh) new := by
  have old := loadOrRebuild_accepted file hfresh
  have grown := (syncUidlist_spec hfresh valid h).1
  unfold syncUidlist at h
  generalize loadOrRebuild file fresh = list at h old grown
  simp only at h
  obtain ⟨kept, hkept⟩ : ∃ kept : UidList,
      { list with byUid := list.byUid.filter fun e => bases.contains e.base } = kept := ⟨_, rfl⟩
  have sub : kept.byUid.Sublist list.byUid := by
    rw [← hkept]
    exact List.filter_sublist
  have next : kept.nextUid = list.uidnext := by
    rw [nextUid_eq, ← hkept]
    · rw [← hkept]
      exact old.uidnext
    · intro e mem
      rw [← hkept]
      exact (old.bounds e (sub.subset mem)).2
  rw [hkept, next] at h
  obtain ⟨⟨l, next, uids⟩, run, rfl⟩ := Option.map_eq_some_iff.mp h
  obtain ⟨added, appended⟩ := assign_appended run
  exact .of_appended grown sub (by rw [← hkept]) old
    ⟨appended.byUid, appended.highestModseq, appended.sorted, appended.above⟩

theorem assignUidsMany_extended {file : Option UidList} {bases : List String} {fresh : Nat}
    {new : UidList} {uids : List Nat} (hfresh : IsUidvalidity fresh)
    (valid : ∀ b ∈ bases, isValidBase b = true)
    (h : assignUidsMany file bases fresh = some (new, uids)) :
    Extended (loadOrRebuild file fresh) new := by
  have old := loadOrRebuild_accepted file hfresh
  have grown := (assignUidsMany_spec hfresh valid h).1
  unfold assignUidsMany at h
  generalize loadOrRebuild file fresh = list at h old grown
  obtain ⟨⟨l, next, us⟩, run, eq⟩ := Option.map_eq_some_iff.mp h
  cases eq
  rw [nextUid_eq old.uidnext fun e mem => (old.bounds e mem).2] at run
  obtain ⟨added, appended⟩ := assign_appended run
  exact .of_appended grown (List.Sublist.refl _) rfl old
    ⟨appended.byUid, appended.highestModseq, appended.sorted, appended.above⟩

/-- The list of UIDs is one that the reader accepts. -/
def Folder.Loaded (folder : Folder) : Prop := ∀ list ∈ folder.uidFile, list.Accepted

/-- The list stays, under its UIDVALIDITY, and its next UID does not go back. -/
def Folder.Continues (before after : Folder) : Prop :=
  ∀ list ∈ before.uidFile, ∃ list' ∈ after.uidFile,
    list'.uidvalidity = list.uidvalidity ∧ list.uidnext ≤ list'.uidnext

def Folder.Lists (folder : Folder) (uid : Nat) (base : String) : Prop :=
  ∃ list ∈ folder.uidFile, list.Lists uid base

def Folder.highestModseq (folder : Folder) : Nat :=
  (folder.uidFile.map (·.highestModseq)).getD 0

theorem Folder.Continues.refl (folder : Folder) : folder.Continues folder :=
  fun list mem => ⟨list, mem, rfl, le_refl _⟩

theorem Folder.Continues.trans {a b c : Folder} (h : a.Continues b) (h' : b.Continues c) :
    a.Continues c := by
  intro list mem
  obtain ⟨list', mem', validity, next⟩ := h list mem
  obtain ⟨list'', mem'', validity', next'⟩ := h' list' mem'
  exact ⟨list'', mem'', validity'.trans validity, next.trans next'⟩

theorem loadOrRebuild_of_mem {folder : Folder} (h : folder.Loaded) {list : UidList}
    (mem : list ∈ folder.uidFile) (fresh : Nat) : loadOrRebuild folder.uidFile fresh = list := by
  have file : folder.uidFile = some list := mem
  rw [file, loadOrRebuild, loadUidlist_of_accepted (h list mem)]
  rfl

namespace UidOp

/-- The operation adds a message to the list, changes the flags of one or removes one. -/
def Changes (folder : Folder) (op : UidOp) : Prop :=
  (∃ uid base, (op.apply folder).Lists uid base ∧ ¬folder.Lists uid base) ∨
    (∃ uid flags result, op = .setFlags uid flags ∧ folder.setFlags uid flags = .ok result) ∨
    ∃ uids, op = .expunge uids ∧ (folder.expunge uids).2.1 ≠ []

theorem bases_valid (bases : List Base) : ∀ b ∈ bases.map (·.1), isValidBase b = true := by
  intro b mem
  obtain ⟨base, -, rfl⟩ := List.mem_map.mp mem
  exact base.2

def Quiet (folder : Folder) (op : UidOp) : Prop :=
  (∀ uid flags result, op = .setFlags uid flags → folder.setFlags uid flags ≠ .ok result) ∧
    ∀ uids, op = .expunge uids → (folder.expunge uids).2.1 = []

theorem Quiet.adds {folder : Folder} {op : UidOp} (h : op.Quiet folder)
    (changes : op.Changes folder) :
    ∃ uid base, (op.apply folder).Lists uid base ∧ ¬folder.Lists uid base := by
  rcases changes with adds | ⟨uid, flags, result, eq, ok⟩ | ⟨uids, eq, nonempty⟩
  · exact adds
  · exact absurd ok (h.1 _ _ _ eq)
  · exact absurd (h.2 _ eq) nonempty

/-- What an operation does to the list of a folder. -/
inductive Effect (folder : Folder) : UidOp → Option UidList → Prop
  | stay {op : UidOp} (quiet : op.Quiet folder) : Effect folder op folder.uidFile
  | extend {op : UidOp} {fresh : Nat} {new : UidList} (quiet : op.Quiet folder)
      (extended : Extended (loadOrRebuild folder.uidFile fresh) new) : Effect folder op (some new)
  | touch {op : UidOp} {list : UidList} {uid : Nat}
      (load : loadUidlist folder.uidFile = some list) : Effect folder op (some (list.touch uid))
  | drop {op : UidOp} {list : UidList} {removed : List Nat}
      (load : loadUidlist folder.uidFile = some list) (nonempty : removed ≠ []) :
      Effect folder op (some (list.drop removed))
  | imported {uidvalidity uidnextHint : UInt32} {candidates : List Candidate}
      (positive : uidvalidity ≠ 0) (absent : folder.uidFile = none)
      (scanned : folder.scan.length ≤ maxScanEntries)
      (nonempty : (takeCandidates (scanBases folder.scan) candidates).1 ≠ []) :
      Effect folder (.importUidlist uidvalidity uidnextHint candidates)
        (some (importedList uidvalidity uidnextHint
          (takeCandidates (scanBases folder.scan) candidates).1))

theorem effect (folder : Folder) (op : UidOp) : Effect folder op (op.apply folder).uidFile := by
  cases op with
  | sync bases fresh =>
    have quiet : (.sync bases fresh : UidOp).Quiet folder := ⟨by simp, by simp⟩
    simp only [apply]
    split
    · rename_i list run
      exact .extend quiet (syncUidlist_extended fresh.2 (bases_valid bases) run)
    · exact .stay quiet
  | assign bases fresh =>
    have quiet : (.assign bases fresh : UidOp).Quiet folder := ⟨by simp, by simp⟩
    simp only [apply]
    split
    · rename_i list uids run
      exact .extend quiet (assignUidsMany_extended fresh.2 (bases_valid bases) run)
    · exact .stay quiet
  | setFlags uid flags =>
    simp only [apply]
    split
    · rename_i changed result run
      obtain ⟨list, source, load, -, -, -, -, rfl⟩ := setFlags_ok run
      exact .touch load
    · rename_i error run
      refine .stay ⟨fun uid' flags' result eq => ?_, by simp⟩
      cases eq
      rw [run]
      simp
  | expunge uids =>
    rcases @expunge_cases folder uids with ⟨nothing, same, -⟩ |
      ⟨list, removed, load, nonempty, -, dropped, -⟩
    · rw [apply, same]
      refine .stay ⟨by simp, fun uids' eq => ?_⟩
      cases eq
      exact nothing
    · rw [apply, dropped]
      exact .drop load nonempty
  | importUidlist uidvalidity uidnextHint candidates =>
    have quiet : (.importUidlist uidvalidity uidnextHint candidates : UidOp).Quiet folder :=
      ⟨by simp, by simp⟩
    simp only [apply]
    split
    · rename_i imported report run
      obtain ⟨positive, absent, scanned, rfl | ⟨nonempty, rfl⟩⟩ := importUidlist_ok run
      · exact .stay quiet
      · exact .imported positive absent scanned nonempty
    · exact .stay quiet
  | refile files => exact .stay ⟨by simp, by simp⟩

variable {folder : Folder} {op : UidOp}

theorem loaded (h : folder.Loaded) (safe : ¬op.TakesLast folder) : (op.apply folder).Loaded := by
  have effect := effect folder op
  unfold Folder.Loaded
  generalize (op.apply folder).uidFile = after at effect
  cases effect with
  | stay => exact h
  | extend quiet extended =>
    rintro list ⟨⟩
    exact extended.accepted
  | touch load =>
    rintro list ⟨⟩
    exact (loadUidlist_some load).2.touch _
  | drop load =>
    rintro list ⟨⟩
    exact (loadUidlist_some load).2.drop _
  | imported positive absent scanned =>
    rintro list ⟨⟩
    refine (imported_accepted_iff (takeCandidates_inOrder _ _) positive).mpr fun e mem last => ?_
    exact safe ⟨positive, absent, scanned, e, mem, last⟩

theorem continues (h : folder.Loaded) : folder.Continues (op.apply folder) := by
  have effect := effect folder op
  unfold Folder.Continues
  generalize (op.apply folder).uidFile = after at effect
  intro list mem
  cases effect with
  | stay => exact ⟨list, mem, rfl, le_refl _⟩
  | extend quiet extended =>
    rw [loadOrRebuild_of_mem h mem] at extended
    exact ⟨_, rfl, extended.uidvalidity, extended.uidnext⟩
  | touch load =>
    obtain rfl := Option.some.inj ((loadUidlist_some load).1.symm.trans mem)
    exact ⟨_, rfl, rfl, le_refl _⟩
  | drop load =>
    obtain rfl := Option.some.inj ((loadUidlist_some load).1.symm.trans mem)
    exact ⟨_, rfl, rfl, le_refl _⟩
  | imported positive absent =>
    rw [absent] at mem
    cases mem

theorem sorted (h : ∀ list ∈ folder.uidFile, list.Sorted) :
    ∀ list ∈ (op.apply folder).uidFile, list.Sorted := by
  have effect := effect folder op
  generalize (op.apply folder).uidFile = after at effect
  cases effect with
  | stay => exact h
  | extend quiet extended =>
    rintro list ⟨⟩
    refine extended.sorted ?_
    unfold loadOrRebuild
    cases load : loadUidlist folder.uidFile with
    | none => exact .nil
    | some old => exact h old (loadUidlist_some load).1
  | touch load =>
    rintro list ⟨⟩
    have old := h _ (loadUidlist_some load).1
    refine List.pairwise_map.mpr (old.imp fun less => ?_)
    split_ifs <;> exact less
  | drop load =>
    rintro list ⟨⟩
    exact (h _ (loadUidlist_some load).1).sublist List.filter_sublist
  | imported =>
    rintro list ⟨⟩
    exact (imported_stored (takeCandidates_inOrder _ _)).sorted

theorem raises (h : folder.Loaded) (room : folder.highestModseq < u64Max)
    (changes : op.Changes folder) : folder.highestModseq < (op.apply folder).highestModseq := by
  have effect := effect folder op
  have adds := fun quiet : op.Quiet folder => quiet.adds changes
  unfold Folder.Lists at adds
  unfold Folder.highestModseq at room ⊢
  generalize (op.apply folder).uidFile = after at effect adds
  cases effect with
  | stay quiet =>
    obtain ⟨uid, base, here, new⟩ := adds quiet
    exact absurd here new
  | extend quiet extended =>
    obtain ⟨uid, base, ⟨_, ⟨⟩, e, mem, rfl, rfl⟩, new⟩ := adds quiet
    cases file : folder.uidFile with
    | none =>
      rw [file] at extended
      exact extended.raised (show 0 < u64Max by decide) ⟨e, mem, nofun⟩
    | some old =>
      rw [loadOrRebuild_of_mem h file] at extended
      rw [file] at room
      exact extended.raised room ⟨e, mem, fun inOld => new ⟨old, file, e, inOld, rfl, rfl⟩⟩
  | touch load =>
    rw [(loadUidlist_some load).1] at room ⊢
    exact lt_satAdd_iterate room (n := 1) (by decide)
  | drop load nonempty =>
    rw [(loadUidlist_some load).1] at room ⊢
    exact lt_satAdd_iterate room (List.length_pos_of_ne_nil nonempty)
  | imported positive absent scanned nonempty =>
    rw [absent]
    exact List.length_pos_of_ne_nil nonempty

theorem apply_takesLast (h : op.TakesLast folder) : ∃ list, (op.apply folder).uidFile = some list ∧
    list.Stored ∧ ¬list.Accepted := by
  cases op with
  | importUidlist uidvalidity uidnextHint candidates =>
    obtain ⟨positive, absent, scanned, e, mem, last⟩ := h
    have order := takeCandidates_inOrder (scanBases folder.scan) candidates
    refine ⟨importedList uidvalidity uidnextHint
      (takeCandidates (scanBases folder.scan) candidates).1, ?_, imported_stored order, ?_⟩
    · have nonempty : (takeCandidates (scanBases folder.scan) candidates).1.isEmpty = false := by
        simpa using List.ne_nil_of_mem mem
      have absent' : ¬folder.uidFile.isSome = true := by simp [absent]
      simp only [apply, Folder.importUidlist, if_neg positive, if_neg absent',
        if_neg (not_lt.mpr scanned), nonempty, Bool.false_eq_true, if_false]
    · exact fun accepted => (imported_accepted_iff order positive).mp accepted e mem last
  | sync => exact h.elim
  | assign => exact h.elim
  | setFlags => exact h.elim
  | expunge => exact h.elim
  | refile => exact h.elim

end UidOp

/-- Along every run in which no import takes over the last UID, the list can be read back in every
state, it goes on under its UIDVALIDITY with no next UID below an earlier one, and each operation
that adds, flags or removes a message raises its modification number. -/
theorem uid_list_invariant {start middle folder : Folder} {before after : List UidOp}
    (loaded : start.Loaded)
    (h : Runs UidOp.step (fun folder op => ¬op.TakesLast folder) start before middle)
    (h' : Runs UidOp.step (fun folder op => ¬op.TakesLast folder) middle after folder) :
    folder.Loaded ∧ middle.Continues folder ∧
      ∀ op : UidOp, op.Changes folder → folder.highestModseq < u64Max →
        folder.highestModseq < (op.apply folder).highestModseq := by
  have keep : ∀ s op t, s.Loaded → ¬op.TakesLast s → UidOp.step s op = some t → t.Loaded := by
    rintro s op t loaded safe ⟨⟩
    exact UidOp.loaded loaded safe
  have middleLoaded : middle.Loaded := h.invariant loaded keep
  have both : folder.Loaded ∧ middle.Continues folder := by
    have keepBoth : ∀ s op t, s.Loaded ∧ middle.Continues s → ¬op.TakesLast s →
        UidOp.step s op = some t → t.Loaded ∧ middle.Continues t := by
      rintro s op t ⟨loaded, goesOn⟩ safe ⟨⟩
      exact ⟨UidOp.loaded loaded safe, goesOn.trans (UidOp.continues loaded)⟩
    exact h'.invariant ⟨middleLoaded, .refl middle⟩ keepBoth
  exact ⟨both.1, both.2, fun op changes room => UidOp.raises both.1 room changes⟩

def delivered : MessageFile :=
  { base := "1.M2P3Q1.host", directory := .new, flags := ∅, size := 3 }

def foreign : Folder := { Folder.empty with files := [delivered] }

def importFirst : UidOp := .importUidlist 7 6 [(5, delivered.base)]

theorem importFirst_leaves_last : ¬importFirst.TakesLast foreign := by
  rintro ⟨-, -, -, e, mem, last⟩
  have onDisk : delivered.base ∈ scanBases foreign.scan :=
    @base_mem_scan [delivered] _ List.mem_cons_self (by decide)
  have valid : isValidBase delivered.base = true := by decide
  simp [takeCandidates, takeCandidate, valid, onDisk] at mem
  rw [mem] at last
  exact absurd last (by decide)

def secondDelivery : UidOp := .assign [⟨"2.M3P4Q2.host", by decide⟩] ⟨7, by decide, by decide⟩

/-- A list is imported for the message that is there, and another message is delivered. -/
theorem uid_list_invariant_delivery :
    (secondDelivery.apply (importFirst.apply foreign)).Loaded ∧
      (importFirst.apply foreign).Continues (secondDelivery.apply (importFirst.apply foreign)) ∧
      ∀ op : UidOp, op.Changes (secondDelivery.apply (importFirst.apply foreign)) →
        (secondDelivery.apply (importFirst.apply foreign)).highestModseq < u64Max →
        (secondDelivery.apply (importFirst.apply foreign)).highestModseq <
          (op.apply (secondDelivery.apply (importFirst.apply foreign))).highestModseq :=
  @uid_list_invariant foreign _ _ [_] [_] nofun (.snoc (.nil _) importFirst_leaves_last rfl)
    (.snoc (.nil _) id rfl)

def importLast : UidOp := .importUidlist 7 1 [(4294967295, delivered.base)]

theorem importLast_takesLast : importLast.TakesLast foreign := by
  have onDisk : delivered.base ∈ scanBases foreign.scan :=
    @base_mem_scan [delivered] _ List.mem_cons_self (by decide)
  have valid : isValidBase delivered.base = true := by decide
  refine ⟨by decide, rfl, by decide, { uid := u32Max, base := delivered.base, modseq := 0 }, ?_, rfl⟩
  simp [takeCandidates, takeCandidate, valid, onDisk, u32Max]

/-- An import of the last UID writes a list in which it is not below the next UID. -/
theorem imported_last_uid :
    ¬∀ (start folder : Folder) (ops : List UidOp), start.Loaded →
      Reaches UidOp.step start ops folder → folder.Loaded := by
  intro all
  obtain ⟨list, written, -, refused⟩ := UidOp.apply_takesLast importLast_takesLast
  refine refused (all foreign (importLast.apply foreign) [importLast] nofun ?_ list written)
  exact .snoc (.nil _) trivial rfl

/-- A list that an operation leaves is read back from its file as it is, unless an import took over
the last UID. -/
theorem written_list_read_back {folder : Folder} {op : UidOp} {list : UidList}
    (previous : ∀ old ∈ folder.uidFile, ∃ contents, parseUidlist contents = some old)
    (written : (op.apply folder).uidFile = some list) :
    parseUidlist list.render = some list ↔ ¬op.TakesLast folder := by
  have loaded : folder.Loaded := by
    intro old mem
    obtain ⟨contents, parsed⟩ := previous old mem
    exact (parse_accepted parsed).1
  have sorted : ∀ old ∈ folder.uidFile, old.Sorted := by
    intro old mem
    obtain ⟨contents, parsed⟩ := previous old mem
    exact (parse_accepted parsed).2.sorted
  constructor
  · intro back last
    obtain ⟨list', written', stored, refused⟩ := UidOp.apply_takesLast last
    obtain rfl := Option.some.inj (written'.symm.trans written)
    rw [parse_render stored] at back
    exact refused (loadUidlist_some back).2
  · intro safe
    have accepted := UidOp.loaded loaded safe list written
    rw [parse_render (accepted.stored (UidOp.sorted sorted list written))]
    exact loadUidlist_of_accepted accepted

def firstDelivery : UidOp := .assign [⟨delivered.base, by decide⟩] ⟨7, by decide, by decide⟩

def firstList : UidList :=
  { uidvalidity := 7
    uidnext := 2
    highestModseq := 1
    byUid := [{ uid := 1, base := delivered.base, modseq := 1 }] }

theorem written_list_read_back_delivery :
    parseUidlist firstList.render = some firstList ↔ ¬firstDelivery.TakesLast .empty :=
  written_list_read_back nofun (show _ = some firstList by decide)

theorem imported_last_uid_not_read_back :
    ¬∀ (folder : Folder) (op : UidOp) (list : UidList),
      (∀ old ∈ folder.uidFile, ∃ contents, parseUidlist contents = some old) →
      (op.apply folder).uidFile = some list → parseUidlist list.render = some list := by
  intro all
  obtain ⟨list, written, stored, refused⟩ := UidOp.apply_takesLast importLast_takesLast
  have back := all foreign importLast list nofun written
  rw [parse_render stored] at back
  exact refused (loadUidlist_some back).2

end MailStack.Maildir
