import MailStack.Lib.Table
import MailStack.Lib.Text
import Mathlib.Data.String.Basic

/-! The choice of mail hosts from the MX records of a domain. The answer arrives in any order, and
the choice does not depend on it. -/

namespace MailStack.Smtp

open Lib

structure MxRecord where
  preference : Nat
  host : String
deriving DecidableEq

inductive MxTargets where
  | hosts (records : List MxRecord)
  | implicit (domain : String)
  | null (domain : String)

def trimEndDots (s : String) : String :=
  String.ofList (s.toList.reverse.dropWhile (· = '.')).reverse

def normaliseDomain (domain : String) : String := toAsciiLowercase (trimEndDots (trim domain))

def normaliseHost (host : String) : String :=
  let host := toAsciiLowercase (trimEndDots (trim host))
  if host = "." then "" else host

/-- The loop of `classify_mx`. It is left at a record without a host. -/
def byHost : List MxRecord → Table String Nat → Option (Table String Nat)
  | [], t => some t
  | record :: records, t =>
    let host := normaliseHost record.host
    if host = "" then none else byHost records (t.putLeast host record.preference)

def MxRecord.le (a b : MxRecord) : Bool :=
  a.preference < b.preference || (a.preference = b.preference && a.host ≤ b.host)

/-- A `BTreeMap` is read in the order of its keys. -/
def inKeyOrder (t : Table String Nat) : List (Sigma fun _ : String => Nat) :=
  t.entries.mergeSort fun a b => a.1 ≤ b.1

def sortedHosts (t : Table String Nat) : List MxRecord :=
  ((inKeyOrder t).map fun e => (⟨e.2, e.1⟩ : MxRecord)).mergeSort MxRecord.le

def classifyMx (domain : String) (records : List MxRecord) : MxTargets :=
  let domain := normaliseDomain domain
  match byHost records ∅ with
  | none => .null domain
  | some t => if t.size = 0 then .implicit domain else .hosts (sortedHosts t)

theorem MxRecord.le_iff {a b : MxRecord} :
    a.le b ↔ a.preference < b.preference ∨ (a.preference = b.preference ∧ a.host ≤ b.host) := by
  simp [le]

theorem MxRecord.le_trans (a b c : MxRecord) (first : a.le b) (second : b.le c) : a.le c := by
  rw [le_iff] at first second ⊢
  rcases first with first | ⟨first, before⟩
  · rcases second with second | ⟨second, _⟩
    · exact Or.inl (first.trans second)
    · exact Or.inl (second ▸ first)
  · rcases second with second | ⟨second, after⟩
    · exact Or.inl (first ▸ second)
    · exact Or.inr ⟨first.trans second, before.trans after⟩

theorem MxRecord.le_total (a b : MxRecord) : a.le b || b.le a := by
  rw [Bool.or_eq_true, le_iff, le_iff]
  rcases lt_trichotomy a.preference b.preference with less | same | greater
  · exact Or.inl (Or.inl less)
  · rcases String.le_total a.host b.host with before | after
    · exact Or.inl (Or.inr ⟨same, before⟩)
    · exact Or.inr (Or.inr ⟨same.symm, after⟩)
  · exact Or.inr (Or.inl greater)

theorem MxRecord.le_antisymm {a b : MxRecord} (first : a.le b) (second : b.le a) : a = b := by
  rw [le_iff] at first second
  obtain ⟨p, h⟩ := a
  obtain ⟨q, g⟩ := b
  rcases first with first | ⟨same, before⟩
  · rcases second with second | ⟨same, _⟩
    · simp only at first second; omega
    · simp only at first same; omega
  · rcases second with second | ⟨_, after⟩
    · simp only at second same; omega
    · simp only at same before after
      rw [same, String.le_antisymm before after]

theorem sortedHosts_perm (t : Table String Nat) :
    (sortedHosts t).Perm (t.entries.map fun e => ⟨e.2, e.1⟩) :=
  (List.mergeSort_perm _ _).trans ((List.mergeSort_perm _ _).map _)

theorem pairwise_sortedHosts (t : Table String Nat) :
    (sortedHosts t).Pairwise fun a b => a.le b :=
  List.pairwise_mergeSort MxRecord.le_trans MxRecord.le_total _

theorem sortedHosts_eq_of_perm {s t : Table String Nat} (perm : s.entries.Perm t.entries) :
    sortedHosts s = sortedHosts t :=
  ((sortedHosts_perm s).trans ((perm.map _).trans (sortedHosts_perm t).symm)).eq_of_pairwise
    (fun _ _ _ _ => MxRecord.le_antisymm) (pairwise_sortedHosts s) (pairwise_sortedHosts t)

def named (records : List MxRecord) : List (String × Nat) :=
  records.map fun record => (normaliseHost record.host, record.preference)

variable {records : List MxRecord}

theorem named_cons (record : MxRecord) (records : List MxRecord) : named (record :: records) =
    (normaliseHost record.host, record.preference) :: named records := rfl

theorem mem_named_iff {host : String} {preference : Nat} : (host, preference) ∈ named records ↔
    ∃ record ∈ records, normaliseHost record.host = host ∧ record.preference = preference := by
  simp [named]

theorem byHost_eq (records : List MxRecord) (t : Table String Nat) : byHost records t =
    if ∃ record ∈ records, normaliseHost record.host = "" then none
    else some ((named records).foldl (fun t pair => t.putLeast pair.1 pair.2) t) := by
  induction records generalizing t with
  | nil => simp [byHost, named]
  | cons record records ih =>
    by_cases empty : normaliseHost record.host = ""
    · rw [if_pos ⟨record, List.mem_cons_self, empty⟩, byHost, if_pos empty]
    · have rest : (∃ r ∈ record :: records, normaliseHost r.host = "") ↔
          ∃ r ∈ records, normaliseHost r.host = "" := by
        simp [empty]
      rw [byHost, if_neg empty, ih, named_cons, List.foldl_cons]
      simp only [rest]

theorem size_leastOf_named : (Table.leastOf (named records)).size = 0 ↔ records = [] := by
  constructor
  · intro none
    cases records with
    | nil => rfl
    | cons record records =>
      have mem : normaliseHost record.host ∈ Table.leastOf (named (record :: records)) :=
        Table.mem_leastOf_iff.mpr ⟨record.preference, List.mem_cons_self⟩
      have entries := List.length_eq_zero_iff.mp none
      rw [AList.mem_keys, AList.keys, entries] at mem
      cases mem
  · rintro rfl
    rfl

theorem classifyMx_eq (domain : String) (records : List MxRecord) : classifyMx domain records =
    if ∃ record ∈ records, normaliseHost record.host = "" then .null (normaliseDomain domain)
    else if records = [] then .implicit (normaliseDomain domain)
    else .hosts (sortedHosts (Table.leastOf (named records))) := by
  rw [classifyMx, byHost_eq]
  by_cases empty : ∃ record ∈ records, normaliseHost record.host = ""
  · rw [if_pos empty, if_pos empty]
  · rw [if_neg empty, if_neg empty]
    show (if (Table.leastOf (named records)).size = 0 then _ else _) = _
    simp only [size_leastOf_named]
    rfl

theorem mem_sortedHosts_iff {host : MxRecord} :
    host ∈ sortedHosts (Table.leastOf (named records)) ↔
      IsLeast {preference | (host.host, preference) ∈ named records} host.preference := by
  rw [(sortedHosts_perm _).mem_iff, ← Table.get_leastOf_iff, Table.get_eq_some_iff, List.mem_map]
  constructor
  · rintro ⟨entry, mem, rfl⟩
    exact mem
  · intro mem
    exact ⟨_, mem, rfl⟩

theorem nodup_sortedHosts (t : Table String Nat) : ((sortedHosts t).map (·.host)).Nodup := by
  rw [((sortedHosts_perm t).map _).nodup_iff, List.map_map]
  exact t.nodupKeys

/-- The order of the result: by preference, then by host, and no two are equal. -/
def MxRecord.Before (a b : MxRecord) : Prop :=
  a.preference < b.preference ∨ (a.preference = b.preference ∧ a.host < b.host)

theorem pairwise_before_sortedHosts (t : Table String Nat) :
    (sortedHosts t).Pairwise MxRecord.Before := by
  have ordered := pairwise_sortedHosts t
  have distinct := List.pairwise_map.mp (nodup_sortedHosts t)
  refine (ordered.and distinct).imp ?_
  rintro a b ⟨le, ne⟩
  rcases MxRecord.le_iff.mp le with less | ⟨same, before⟩
  · exact Or.inl less
  · exact Or.inr ⟨same, lt_of_le_of_ne before ne⟩

/-- The hosts that are chosen for the records. -/
structure Chosen (records hosts : List MxRecord) : Prop where
  sorted : hosts.Pairwise MxRecord.Before
  once : (hosts.map (·.host)).Nodup
  /-- Nothing but a listed host is chosen, with a preference listed for it. -/
  listed : ∀ host ∈ hosts, ∃ record ∈ records,
    normaliseHost record.host = host.host ∧ record.preference = host.preference
  least : ∀ host ∈ hosts, ∀ record ∈ records,
    normaliseHost record.host = host.host → host.preference ≤ record.preference
  complete : ∀ record ∈ records, ∃ host ∈ hosts, host.host = normaliseHost record.host

theorem chosen_sortedHosts (records : List MxRecord) :
    Chosen records (sortedHosts (Table.leastOf (named records))) where
  sorted := pairwise_before_sortedHosts _
  once := nodup_sortedHosts _
  listed host mem := mem_named_iff.mp (mem_sortedHosts_iff.mp mem).1
  least host mem record listed same :=
    (mem_sortedHosts_iff.mp mem).2 (mem_named_iff.mpr ⟨record, listed, same, rfl⟩)
  complete record listed := by
    have mem : normaliseHost record.host ∈ Table.leastOf (named records) :=
      Table.mem_leastOf_iff.mpr ⟨_, mem_named_iff.mpr ⟨record, listed, rfl, rfl⟩⟩
    generalize normaliseHost record.host = host at mem ⊢
    obtain ⟨preference, found⟩ := Option.isSome_iff_exists.mp (AList.lookup_isSome.mpr mem)
    exact ⟨⟨preference, host⟩, mem_sortedHosts_iff.mpr (Table.get_leastOf_iff.mp found), rfl⟩

theorem classifyMx_perm {records other : List MxRecord} (domain : String)
    (perm : records.Perm other) : classifyMx domain records = classifyMx domain other := by
  have least : sortedHosts (Table.leastOf (named records)) =
      sortedHosts (Table.leastOf (named other)) :=
    sortedHosts_eq_of_perm (Table.leastOf_perm (perm.map _))
  have empty : records = [] ↔ other = [] := by
    rw [← List.length_eq_zero_iff, perm.length_eq, List.length_eq_zero_iff]
  simp only [classifyMx_eq, perm.mem_iff, least, empty]

/-- The choice of mail hosts does not depend on the order of the answer, it refuses exactly the
answers with a record without a host, it makes a list of exactly the other ones that are not empty,
and it lists the hosts once each, in order, with their least preferences. -/
theorem mx_selection (domain : String) (records : List MxRecord) :
    (∀ other, records.Perm other → classifyMx domain other = classifyMx domain records) ∧
    ((∃ name, classifyMx domain records = .null name) ↔
      ∃ record ∈ records, normaliseHost record.host = "") ∧
    ((∃ hosts, classifyMx domain records = .hosts hosts) ↔
      records ≠ [] ∧ ∀ record ∈ records, normaliseHost record.host ≠ "") ∧
    ∀ hosts, classifyMx domain records = .hosts hosts → Chosen records hosts := by
  refine ⟨fun other perm => (classifyMx_perm domain perm).symm, ?_, ?_, ?_⟩
  · rw [classifyMx_eq]
    split
    case isTrue empty => exact iff_of_true ⟨_, rfl⟩ empty
    case isFalse full =>
      refine iff_of_false ?_ full
      rintro ⟨name, null⟩
      split at null <;> cases null
  · rw [classifyMx_eq]
    split
    next empty =>
      obtain ⟨record, mem, null⟩ := empty
      refine iff_of_false ?_ fun full => full.2 record mem null
      rintro ⟨hosts, eq⟩
      cases eq
    next full =>
      split
      next nothing =>
        refine iff_of_false ?_ fun some_ => some_.1 nothing
        rintro ⟨hosts, eq⟩
        cases eq
      next some_ =>
        exact iff_of_true ⟨_, rfl⟩ ⟨some_, fun record mem null => full ⟨record, mem, null⟩⟩
  · intro hosts chosen
    rw [classifyMx_eq] at chosen
    split at chosen
    · cases chosen
    · split at chosen
      · cases chosen
      · cases chosen
        exact chosen_sortedHosts records

end MailStack.Smtp
