import Mathlib.Data.Finset.Basic
import MailStack.Lib.Text
import MailStack.Lib.Word

/-! The list of UIDs of a Maildir folder: what is read back from its file, how UIDs are assigned to
new messages and how the list is brought in line with a scan of the folder. -/

namespace MailStack.Maildir

open Lib

inductive SystemFlag
  | answered
  | deleted
  | draft
  | flagged
  | seen
deriving DecidableEq

inductive Flag
  | system (flag : SystemFlag)
  | keyword (name : String)
deriving DecidableEq

abbrev FlagSet := Finset Flag

/-- The byte is an ASCII character that is printed and no space. -/
def isAsciiGraphic (c : Char) : Bool := 0x21 ≤ c.val && c.val ≤ 0x7e

def isValidBase (base : String) : Bool :=
  !base.isEmpty && (bytes base).length ≤ 512 &&
    base.toList.all fun c => isAsciiGraphic c && c ≠ ':' && c ≠ '\\'

structure UidEntry where
  uid : Nat
  base : String
  modseq : Nat
deriving DecidableEq

/-- The fields of the file, as they are parsed. -/
structure UidList where
  uidvalidity : Nat
  uidnext : Nat
  highestModseq : Nat
  byUid : List UidEntry
deriving DecidableEq

/-- The check that the parsed fields pass, else the list is built anew. -/
structure UidList.Accepted (list : UidList) : Prop where
  uidvalidity : 0 < list.uidvalidity
  uidnext : 0 < list.uidnext
  range : list.uidvalidity ≤ u32Max ∧ list.uidnext ≤ u32Max ∧ list.highestModseq ≤ u64Max
  bounds : ∀ e ∈ list.byUid, 0 < e.uid ∧ e.uid < list.uidnext
  modseqs : ∀ e ∈ list.byUid, 0 < e.modseq ∧ e.modseq ≤ list.highestModseq
  valid : ∀ e ∈ list.byUid, isValidBase e.base = true
  uids : (list.byUid.map (·.uid)).Nodup
  bases : (list.byUid.map (·.base)).Nodup

instance (list : UidList) : Decidable list.Accepted :=
  decidable_of_iff
    (0 < list.uidvalidity ∧ 0 < list.uidnext ∧
      (list.uidvalidity ≤ u32Max ∧ list.uidnext ≤ u32Max ∧ list.highestModseq ≤ u64Max) ∧
      (∀ e ∈ list.byUid, 0 < e.uid ∧ e.uid < list.uidnext) ∧
      (∀ e ∈ list.byUid, 0 < e.modseq ∧ e.modseq ≤ list.highestModseq) ∧
      (∀ e ∈ list.byUid, isValidBase e.base = true) ∧
      (list.byUid.map (·.uid)).Nodup ∧ (list.byUid.map (·.base)).Nodup)
    ⟨fun ⟨h1, h2, h3, h4, h5, h6, h7, h8⟩ => ⟨h1, h2, h3, h4, h5, h6, h7, h8⟩,
      fun ⟨h1, h2, h3, h4, h5, h6, h7, h8⟩ => ⟨h1, h2, h3, h4, h5, h6, h7, h8⟩⟩

def loadUidlist (file : Option UidList) : Option UidList :=
  match file with
  | some list => if list.Accepted then some list else none
  | none => none

/-- The list to work on: a new one, under a new UIDVALIDITY, when the file cannot be used. -/
def loadOrRebuild (file : Option UidList) (fresh : Nat) : UidList :=
  (loadUidlist file).getD { uidvalidity := fresh, uidnext := 1, highestModseq := 0, byUid := [] }

def UidList.uidOf (list : UidList) (base : String) : Option Nat :=
  (list.byUid.find? (·.base = base)).map (·.uid)

def UidList.maxUid (list : UidList) : Nat := (list.byUid.map (·.uid)).foldr max 0

def UidList.nextUid (list : UidList) : Nat :=
  max list.uidnext (max (satAdd u32Max list.maxUid 1) 1)

/-- Gives each base that has none a UID, from `next` on. `none` is the end of the UID space. -/
def UidList.assign : UidList → Nat → List String → Option (UidList × Nat × List Nat)
  | list, next, [] => some (list, next, [])
  | list, next, base :: rest =>
    match list.uidOf base with
    | some uid => (list.assign next rest).map fun (l, n, uids) => (l, n, uid :: uids)
    | none =>
      if next + 1 > u32Max then none
      else
        let modseq := satAdd u64Max list.highestModseq 1
        let entry : UidEntry := { uid := next, base, modseq }
        let grown := { list with highestModseq := modseq, byUid := list.byUid ++ [entry] }
        (UidList.assign grown (next + 1) rest).map fun (l, n, uids) => (l, n, next :: uids)

/-- `sync_uidlist` under the lock: bases that are not in the scan are dropped, those that are new
get a UID. -/
def syncUidlist (file : Option UidList) (bases : List String) (fresh : Nat) : Option UidList :=
  let list := loadOrRebuild file fresh
  let kept := { list with byUid := list.byUid.filter fun e => bases.contains e.base }
  (kept.assign kept.nextUid bases).map fun (l, next, _) => { l with uidnext := next }

/-- `assign_uids_many` under the lock. -/
def assignUidsMany (file : Option UidList) (bases : List String) (fresh : Nat) :
    Option (UidList × List Nat) :=
  let list := loadOrRebuild file fresh
  (list.assign list.nextUid bases).map fun (l, next, uids) => ({ l with uidnext := next }, uids)

variable {list : UidList} {base : String} {uid : Nat} {given : List String} {bases : List String}
  {next next' : Nat} {new : UidList}

theorem uidOf_some (h : list.uidOf base = some uid) :
    ∃ e ∈ list.byUid, e.uid = uid ∧ e.base = base := by
  obtain ⟨e, found, rfl⟩ := Option.map_eq_some_iff.mp h
  exact ⟨e, List.mem_of_find?_eq_some found, rfl, by simpa using List.find?_some found⟩

theorem uidOf_none (h : list.uidOf base = none) :
    ∀ e ∈ list.byUid, e.base ≠ base := by
  have missing : list.byUid.find? (·.base = base) = none := by simpa [UidList.uidOf] using h
  intro e mem
  simpa using List.find?_eq_none.mp missing e mem

theorem le_maxUid {e : UidEntry} (mem : e ∈ list.byUid) : e.uid ≤ list.maxUid := by
  unfold UidList.maxUid
  generalize list.byUid = entries at mem
  induction entries with
  | nil => cases mem
  | cons x xs ih =>
    simp only [List.map_cons, List.foldr_cons]
    rcases List.mem_cons.mp mem with rfl | mem
    · exact le_max_left _ _
    · exact le_trans (ih mem) (le_max_right _ _)

/-- What holds of the entries while UIDs from `next` on are assigned. -/
structure Assigning (list : UidList) (next : Nat) : Prop where
  positive : 0 < next
  range : next ≤ u32Max ∧ list.highestModseq ≤ u64Max
  bounds : ∀ e ∈ list.byUid, 0 < e.uid ∧ e.uid < next
  modseqs : ∀ e ∈ list.byUid, 0 < e.modseq ∧ e.modseq ≤ list.highestModseq
  valid : ∀ e ∈ list.byUid, isValidBase e.base = true
  uids : (list.byUid.map (·.uid)).Nodup
  bases : (list.byUid.map (·.base)).Nodup

/-- What an assignment of UIDs to `given` did to a list. -/
structure Assigned (list : UidList) (next : Nat) (given : List String) (list' : UidList)
    (next' : Nat) (uids : List Nat) : Prop where
  uidvalidity : list'.uidvalidity = list.uidvalidity
  later : next ≤ next'
  kept : list.byUid ⊆ list'.byUid
  added : ∀ e ∈ list'.byUid, e ∈ list.byUid ∨
    next ≤ e.uid ∧ e.uid < next' ∧ e.base ∈ given ∧ ∀ old ∈ list.byUid, old.base ≠ e.base
  listed : List.Forall₂ (fun base uid => ∃ e ∈ list'.byUid, e.uid = uid ∧ e.base = base) given uids
  assigning : Assigning list' next'

theorem Assigning.grow {next : Nat} (inv : Assigning list next)
    (valid : isValidBase base = true) (absent : ∀ e ∈ list.byUid, e.base ≠ base)
    (room : next + 1 ≤ u32Max) :
    Assigning
      { list with
        highestModseq := satAdd u64Max list.highestModseq 1
        byUid := list.byUid ++
          [{ uid := next, base, modseq := satAdd u64Max list.highestModseq 1 }] } (next + 1) := by
  have top := inv.range.2
  have bump : 0 < satAdd u64Max list.highestModseq 1 ∧
      list.highestModseq ≤ satAdd u64Max list.highestModseq 1 ∧
      satAdd u64Max list.highestModseq 1 ≤ u64Max := by
    unfold satAdd u64Max at *
    omega
  refine ⟨Nat.succ_pos _, ⟨room, bump.2.2⟩, ?_, ?_, ?_, ?_, ?_⟩
  · intro e mem
    rcases List.mem_append.mp mem with old | new
    · have := inv.bounds e old
      omega
    · rw [List.mem_singleton.mp new]
      have := inv.positive
      simp only
      omega
  · intro e mem
    rcases List.mem_append.mp mem with old | new
    · have := inv.modseqs e old
      simp only
      omega
    · rw [List.mem_singleton.mp new]
      exact ⟨bump.1, le_refl _⟩
  · intro e mem
    rcases List.mem_append.mp mem with old | new
    · exact inv.valid e old
    · rw [List.mem_singleton.mp new]
      exact valid
  · simp only [List.map_append, List.map_cons, List.map_nil]
    refine List.nodup_append.mpr ⟨inv.uids, List.nodup_singleton _, ?_⟩
    intro uid mem other hother same
    obtain ⟨e, he, rfl⟩ := List.mem_map.mp mem
    have := inv.bounds e he
    rw [List.mem_singleton.mp hother] at same
    omega
  · simp only [List.map_append, List.map_cons, List.map_nil]
    refine List.nodup_append.mpr ⟨inv.bases, List.nodup_singleton _, ?_⟩
    intro b mem other hother same
    obtain ⟨e, he, rfl⟩ := List.mem_map.mp mem
    rw [List.mem_singleton.mp hother] at same
    exact absent e he same

variable {uids : List Nat}

theorem assign_spec {list list' : UidList}
    (inv : Assigning list next) (valid : ∀ b ∈ given, isValidBase b = true)
    (h : list.assign next given = some (list', next', uids)) :
    Assigned list next given list' next' uids := by
  induction given generalizing list next uids with
  | nil =>
    simp only [UidList.assign, Option.some.injEq, Prod.mk.injEq] at h
    obtain ⟨rfl, rfl, rfl⟩ := h
    exact ⟨rfl, le_refl _, fun _ h => h, fun _ h => .inl h, .nil, inv⟩
  | cons base rest ih =>
    have valid' : ∀ b ∈ rest, isValidBase b = true :=
      fun b hb => valid b (List.mem_cons_of_mem _ hb)
    simp only [UidList.assign] at h
    split at h
    · -- the base has a UID already
      rename_i uid found
      obtain ⟨⟨l, n, us⟩, run, eq⟩ := Option.map_eq_some_iff.mp h
      simp only [Prod.mk.injEq] at eq
      obtain ⟨rfl, rfl, rfl⟩ := eq
      have spec := ih inv valid' run
      obtain ⟨e, mem, huid, hbase⟩ := uidOf_some found
      refine ⟨spec.uidvalidity, spec.later, spec.kept, fun e' mem' => ?_,
        .cons ⟨e, spec.kept mem, huid, hbase⟩ spec.listed, spec.assigning⟩
      exact (spec.added e' mem').imp_right fun ⟨h1, h2, h3, h4⟩ =>
        ⟨h1, h2, List.mem_cons_of_mem _ h3, h4⟩
    · rename_i missing
      split at h
      · cases h
      · obtain ⟨⟨l, n, us⟩, run, eq⟩ := Option.map_eq_some_iff.mp h
        simp only [Prod.mk.injEq] at eq
        obtain ⟨rfl, rfl, rfl⟩ := eq
        have absent := uidOf_none missing
        have spec := ih (inv.grow (valid base List.mem_cons_self) absent (by omega)) valid' run
        refine ⟨spec.uidvalidity, le_trans (Nat.le_succ next) spec.later, ?_, ?_, ?_,
          spec.assigning⟩
        · exact fun e mem => spec.kept (List.mem_append_left _ mem)
        · intro e mem
          rcases spec.added e mem with old | ⟨low, high, later, others⟩
          · rcases List.mem_append.mp old with old | new
            · exact .inl old
            · rw [List.mem_singleton.mp new]
              exact .inr ⟨le_refl _, spec.later, List.mem_cons_self, absent⟩
          · refine .inr ⟨by omega, high, List.mem_cons_of_mem _ later, fun old hold => ?_⟩
            exact others old (List.mem_append_left _ hold)
        · refine .cons ⟨_, spec.kept (List.mem_append_right _ List.mem_cons_self), rfl, rfl⟩ ?_
          exact spec.listed

/-- The list has `base` under `uid`. -/
def UidList.Lists (list : UidList) (uid : Nat) (base : String) : Prop :=
  ∃ e ∈ list.byUid, e.uid = uid ∧ e.base = base

theorem UidList.Accepted.uid_eq (h : list.Accepted) {uid uid' : Nat}
    (l : list.Lists uid base) (l' : list.Lists uid' base) : uid = uid' := by
  obtain ⟨e, mem, rfl, rfl⟩ := l
  obtain ⟨e', mem', rfl, same⟩ := l'
  rw [List.inj_on_of_nodup_map h.bases mem' mem same]

theorem UidList.Accepted.base_eq (h : list.Accepted)
    {base base' : String} (l : list.Lists uid base) (l' : list.Lists uid base') : base = base' := by
  obtain ⟨e, mem, rfl, rfl⟩ := l
  obtain ⟨e', mem', same, rfl⟩ := l'
  rw [List.inj_on_of_nodup_map h.uids mem' mem same]

theorem UidList.Accepted.uid_lt (h : list.Accepted)
    (l : list.Lists uid base) : uid < list.uidnext := by
  obtain ⟨e, mem, rfl, -⟩ := l
  exact (h.bounds e mem).2

theorem UidList.Accepted.assigning (h : list.Accepted) :
    Assigning list list.uidnext :=
  ⟨h.uidnext, ⟨h.range.2.1, h.range.2.2⟩, h.bounds, h.modseqs, h.valid, h.uids, h.bases⟩

theorem nextUid_eq (positive : 0 < list.uidnext)
    (bounds : ∀ e ∈ list.byUid, e.uid < list.uidnext) : list.nextUid = list.uidnext := by
  have below : list.maxUid < list.uidnext := by
    unfold UidList.maxUid
    generalize list.byUid = entries at bounds
    induction entries with
    | nil => exact positive
    | cons e rest ih =>
      simp only [List.map_cons, List.foldr_cons]
      have := bounds e List.mem_cons_self
      have := ih fun e' he => bounds e' (List.mem_cons_of_mem _ he)
      omega
  unfold UidList.nextUid satAdd
  omega

variable {file : Option UidList}

theorem loadUidlist_some (h : loadUidlist file = some list) : file = some list ∧ list.Accepted := by
  unfold loadUidlist at h
  split at h
  · split_ifs at h with accepted
    cases h
    exact ⟨rfl, accepted⟩
  · cases h

theorem loadUidlist_of_accepted (h : list.Accepted) :
    loadUidlist (some list) = some list := by
  simp [loadUidlist, h]

def IsUidvalidity (fresh : Nat) : Prop := 0 < fresh ∧ fresh ≤ u32Max

/-- A base as messages have it: scans leave out other names, and none is drawn for a new message. -/
abbrev Base := { base : String // isValidBase base = true }

abbrev Uidvalidity := { n : Nat // IsUidvalidity n }

variable {fresh : Nat}

theorem loadOrRebuild_accepted (file : Option UidList) (h : IsUidvalidity fresh) :
    (loadOrRebuild file fresh).Accepted := by
  unfold loadOrRebuild
  cases load : loadUidlist file with
  | none => exact ⟨h.1, Nat.one_pos, ⟨h.2, show 1 ≤ u32Max by decide, Nat.zero_le _⟩,
      by simp, by simp, by simp, by simp, by simp⟩
  | some list => exact (loadUidlist_some load).2

/-- What a section under the lock that assigns UIDs to `given` makes of a list. -/
structure Grown (old new : UidList) (given : List String) : Prop where
  accepted : new.Accepted
  uidvalidity : new.uidvalidity = old.uidvalidity
  later : old.uidnext ≤ new.uidnext
  added : ∀ uid base, new.Lists uid base → old.Lists uid base ∨
    old.uidnext ≤ uid ∧ base ∈ given ∧ ∀ uid', ¬old.Lists uid' base

theorem Assigned.accepted {list list' : UidList}
    (h : Assigned list next given list' next' uids)
    (valid : 0 < list.uidvalidity ∧ list.uidvalidity ≤ u32Max) :
    ({ list' with uidnext := next' } : UidList).Accepted :=
  ⟨h.uidvalidity ▸ valid.1, h.assigning.positive,
    ⟨h.uidvalidity ▸ valid.2, h.assigning.range.1, h.assigning.range.2⟩, h.assigning.bounds,
    h.assigning.modseqs, h.assigning.valid, h.assigning.uids, h.assigning.bases⟩

theorem syncUidlist_spec
    (hfresh : IsUidvalidity fresh) (valid : ∀ b ∈ bases, isValidBase b = true)
    (h : syncUidlist file bases fresh = some new) :
    Grown (loadOrRebuild file fresh) new bases ∧
      ∀ uid base, (loadOrRebuild file fresh).Lists uid base → base ∈ bases →
        new.Lists uid base := by
  have old := loadOrRebuild_accepted file hfresh
  unfold syncUidlist at h
  generalize loadOrRebuild file fresh = list at h old
  simp only at h
  generalize hkept : ({ list with byUid := list.byUid.filter fun e => bases.contains e.base } :
    UidList) = kept at h
  obtain ⟨⟨l, next, uids⟩, run, rfl⟩ := Option.map_eq_some_iff.mp h
  have sub : ∀ e, e ∈ kept.byUid ↔ e ∈ list.byUid ∧ e.base ∈ bases := by
    intro e
    rw [← hkept]
    simp
  have keptNext : kept.uidnext = list.uidnext := by rw [← hkept]
  have keptValidity : kept.uidvalidity = list.uidvalidity := by rw [← hkept]
  have start : kept.nextUid = list.uidnext := by
    rw [← keptNext]
    refine nextUid_eq (keptNext ▸ old.uidnext) fun e mem => ?_
    rw [keptNext]
    exact (old.bounds e ((sub e).mp mem).1).2
  have assigning : Assigning kept list.uidnext := by
    have filtered : kept.byUid.Sublist list.byUid := by
      rw [← hkept]
      exact List.filter_sublist
    refine ⟨old.uidnext, ⟨old.range.2.1, ?_⟩, ?_, ?_, ?_, ?_, ?_⟩
    · rw [← hkept]
      exact old.range.2.2
    · exact fun e mem => old.bounds e (filtered.subset mem)
    · intro e mem
      rw [← hkept]
      exact old.modseqs e (filtered.subset mem)
    · exact fun e mem => old.valid e (filtered.subset mem)
    · exact old.uids.sublist (filtered.map _)
    · exact old.bases.sublist (filtered.map _)
  rw [start] at run
  have spec := assign_spec assigning valid run
  refine ⟨⟨spec.accepted (keptValidity ▸ ⟨old.uidvalidity, old.range.1⟩),
    spec.uidvalidity.trans keptValidity, spec.later, ?_⟩, ?_⟩
  · rintro uid base ⟨e, mem, rfl, rfl⟩
    rcases spec.added e mem with before | ⟨low, -, given, others⟩
    · exact .inl ⟨e, ((sub e).mp before).1, rfl, rfl⟩
    · refine .inr ⟨low, given, ?_⟩
      rintro uid' ⟨o, homem, -, same⟩
      exact others o ((sub o).mpr ⟨homem, same ▸ given⟩) same
  · rintro uid base ⟨e, mem, rfl, rfl⟩ scanned
    exact ⟨e, spec.kept ((sub e).mpr ⟨mem, scanned⟩), rfl, rfl⟩

theorem assignUidsMany_spec (hfresh : IsUidvalidity fresh)
    (valid : ∀ b ∈ bases, isValidBase b = true)
    (h : assignUidsMany file bases fresh = some (new, uids)) :
    Grown (loadOrRebuild file fresh) new bases ∧
      (∀ uid base, (loadOrRebuild file fresh).Lists uid base → new.Lists uid base) ∧
      List.Forall₂ (fun base uid => new.Lists uid base) bases uids := by
  have old := loadOrRebuild_accepted file hfresh
  unfold assignUidsMany at h
  generalize loadOrRebuild file fresh = list at h old
  obtain ⟨⟨l, next, us⟩, run, eq⟩ := Option.map_eq_some_iff.mp h
  simp only [Prod.mk.injEq] at eq
  obtain ⟨rfl, rfl⟩ := eq
  rw [nextUid_eq old.uidnext fun e mem => (old.bounds e mem).2] at run
  have spec := assign_spec old.assigning valid run
  refine ⟨⟨spec.accepted ⟨old.uidvalidity, old.range.1⟩, spec.uidvalidity, spec.later, ?_⟩, ?_, ?_⟩
  · rintro uid base ⟨e, mem, rfl, rfl⟩
    rcases spec.added e mem with before | ⟨low, -, given, others⟩
    · exact .inl ⟨e, before, rfl, rfl⟩
    · exact .inr ⟨low, given, fun uid' ⟨o, homem, _, same⟩ => others o homem same⟩
  · rintro uid base ⟨e, mem, rfl, rfl⟩
    exact ⟨e, spec.kept mem, rfl, rfl⟩
  · exact spec.listed

/-- A change of a message's flags takes the next modification number. -/
def UidList.touch (list : UidList) (uid : Nat) : UidList :=
  let modseq := satAdd u64Max list.highestModseq 1
  { list with
    highestModseq := modseq
    byUid := list.byUid.map fun e => if e.uid = uid then { e with modseq } else e }

/-- Messages are taken off the list, each with a modification number of its own. -/
def UidList.drop (list : UidList) (uids : List Nat) : UidList :=
  { list with
    highestModseq := (fun m => satAdd u64Max m 1)^[uids.length] list.highestModseq
    byUid := list.byUid.filter fun e => !uids.contains e.uid }

theorem satAdd_mono {m : Nat} (h : m ≤ u64Max) :
    m ≤ satAdd u64Max m 1 ∧ satAdd u64Max m 1 ≤ u64Max ∧ 0 < satAdd u64Max m 1 := by
  unfold satAdd u64Max at *
  omega

theorem satAdd_iterate {m : Nat} (h : m ≤ u64Max) (n : Nat) :
    m ≤ (fun m => satAdd u64Max m 1)^[n] m ∧ (fun m => satAdd u64Max m 1)^[n] m ≤ u64Max := by
  induction n with
  | zero => exact ⟨le_refl _, h⟩
  | succ n ih =>
    rw [Function.iterate_succ_apply']
    have := satAdd_mono ih.2
    exact ⟨le_trans ih.1 this.1, this.2.1⟩

@[simp] theorem touch_lists {uid u : Nat} :
    (list.touch uid).Lists u base ↔ list.Lists u base := by
  constructor
  · rintro ⟨e, mem, rfl, rfl⟩
    obtain ⟨o, ho, rfl⟩ := List.mem_map.mp mem
    split_ifs
    · exact ⟨o, ho, rfl, rfl⟩
    · exact ⟨o, ho, rfl, rfl⟩
  · rintro ⟨e, mem, rfl, rfl⟩
    refine ⟨_, List.mem_map_of_mem mem, ?_, ?_⟩ <;> split_ifs <;> rfl

theorem UidList.Accepted.touch (h : list.Accepted) (uid : Nat) :
    (list.touch uid).Accepted := by
  have bump := satAdd_mono h.range.2.2
  have uids : (list.touch uid).byUid.map (·.uid) = list.byUid.map (·.uid) := by
    simp only [UidList.touch, List.map_map]
    refine List.map_congr_left fun e _ => ?_
    simp only [Function.comp]
    split_ifs <;> rfl
  have bases : (list.touch uid).byUid.map (·.base) = list.byUid.map (·.base) := by
    simp only [UidList.touch, List.map_map]
    refine List.map_congr_left fun e _ => ?_
    simp only [Function.comp]
    split_ifs <;> rfl
  refine ⟨h.uidvalidity, h.uidnext, ⟨h.range.1, h.range.2.1, bump.2.1⟩, ?_, ?_, ?_,
    uids ▸ h.uids, bases ▸ h.bases⟩
  all_goals
    intro e mem
    obtain ⟨o, ho, rfl⟩ := List.mem_map.mp mem
  · have := h.bounds o ho
    split_ifs <;> exact this
  · have := h.modseqs o ho
    split_ifs
    · exact ⟨bump.2.2, le_refl _⟩
    · exact ⟨this.1, le_trans this.2 bump.1⟩
  · have := h.valid o ho
    split_ifs <;> exact this

theorem drop_lists {u : Nat} :
    (list.drop uids).Lists u base ↔ list.Lists u base ∧ u ∉ uids := by
  constructor
  · rintro ⟨e, mem, rfl, rfl⟩
    simp only [UidList.drop, List.mem_filter, Bool.not_eq_true', List.contains_eq_mem,
      decide_eq_false_iff_not] at mem
    exact ⟨⟨e, mem.1, rfl, rfl⟩, mem.2⟩
  · rintro ⟨⟨e, mem, rfl, rfl⟩, out⟩
    refine ⟨e, ?_, rfl, rfl⟩
    simpa [UidList.drop] using ⟨mem, out⟩

theorem UidList.Accepted.drop (h : list.Accepted) (uids : List Nat) :
    (list.drop uids).Accepted := by
  have bump := satAdd_iterate h.range.2.2 uids.length
  have filtered : (list.drop uids).byUid.Sublist list.byUid := List.filter_sublist
  refine ⟨h.uidvalidity, h.uidnext, ⟨h.range.1, h.range.2.1, bump.2⟩,
    fun e mem => h.bounds e (filtered.subset mem), fun e mem => ?_,
    fun e mem => h.valid e (filtered.subset mem), h.uids.sublist (filtered.map _),
    h.bases.sublist (filtered.map _)⟩
  have := h.modseqs e (filtered.subset mem)
  exact ⟨this.1, le_trans this.2 bump.1⟩

end MailStack.Maildir
