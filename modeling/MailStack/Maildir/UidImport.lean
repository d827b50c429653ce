import MailStack.Maildir.Folder
import MailStack.Maildir.UidlistText

/-! The import of the UIDs that another server has given to the messages of a folder. -/

namespace MailStack.Maildir

open Lib

def uidlistName : String := ".mailstack-uidlist"

structure UidImport where
  mapped : Nat
  unresolved : Nat

abbrev Candidate := UInt32 × String

/-- The entries so far, in the order of their UIDs, and the number of candidates that were
skipped. -/
def takeCandidate (onDisk : List String) (taken : List UidEntry × Nat) (candidate : Candidate) :
    List UidEntry × Nat :=
  let (uid, base) := candidate
  if uid = 0 ∨ ¬isValidBase base ∨ base ∉ onDisk then (taken.1, taken.2 + 1)
  else if (∃ o ∈ taken.1, o.uid = uid.toNat) ∨ ∃ o ∈ taken.1, o.base = base then
    (taken.1, taken.2 + 1)
  else
    (taken.1.orderedInsert (fun a b => a.uid ≤ b.uid) { uid := uid.toNat, base, modseq := 0 },
      taken.2)

def takeCandidates (onDisk : List String) (candidates : List Candidate) : List UidEntry × Nat :=
  candidates.foldl (takeCandidate onDisk) ([], 0)

/-- The list that is written for the entries. -/
def importedList (uidvalidity uidnextHint : UInt32) (entries : List UidEntry) : UidList :=
  let list : UidList :=
    { uidvalidity := uidvalidity.toNat
      uidnext := uidnextHint.toNat
      highestModseq := entries.length
      byUid := number entries }
  { list with uidnext := list.nextUid }

/-- `import_uidlist`. Nothing is written when no candidate is taken over. -/
def Folder.importUidlist (folder : Folder) (uidvalidity uidnextHint : UInt32)
    (candidates : List Candidate) : Except MailError (Folder × UidImport) :=
  if uidvalidity = 0 then .error (.invalid "uidvalidity must be greater than zero")
  else if folder.uidFile.isSome then .error (.alreadyExists uidlistName)
  else if folder.scan.length > maxScanEntries then
    .error (.storage ("mailbox has more than " ++ toString maxScanEntries ++ " messages"))
  else
    let (entries, unresolved) := takeCandidates (scanBases folder.scan) candidates
    if entries.isEmpty then .ok (folder, { mapped := 0, unresolved })
    else
      .ok
        ({ folder with uidFile := some (importedList uidvalidity uidnextHint entries) },
          { mapped := entries.length, unresolved })

theorem InOrder.take {onDisk : List String} {taken : List UidEntry × Nat}
    (h : InOrder taken.1) (candidate : Candidate) :
    InOrder (takeCandidate onDisk taken candidate).1 := by
  obtain ⟨uid, base⟩ := candidate
  simp only [takeCandidate]
  split_ifs with unusable double
  · exact h
  · exact h
  · simp only [not_or, not_not, not_exists, not_and] at unusable double
    have positive : uid.toNat ≠ 0 := fun zero => unusable.1 (UInt32.toNat_inj.mp zero)
    have range := uid.toNat_lt
    exact h.insert ⟨Nat.pos_of_ne_zero positive, by simp only [u32Max]; omega⟩ unusable.2.1
      double.1 double.2

theorem takeCandidates_inOrder (onDisk : List String) (candidates : List Candidate) :
    InOrder (takeCandidates onDisk candidates).1 := by
  have keep : ∀ taken : List UidEntry × Nat, InOrder taken.1 →
      InOrder (candidates.foldl (takeCandidate onDisk) taken).1 := by
    induction candidates with
    | nil => exact fun _ h => h
    | cons candidate rest ih => exact fun _ h => ih _ (h.take candidate)
  exact keep ([], 0) ⟨by simp, by simp, by simp, by simp⟩

/-- Candidates that neither share a UID nor a base are taken over if they are messages of the
folder. -/
theorem mem_takeCandidates {onDisk : List String} {candidates : List Candidate}
    (uids : (candidates.map (·.1)).Nodup) (bases : (candidates.map (·.2)).Nodup) {e : UidEntry} :
    e ∈ (takeCandidates onDisk candidates).1 ↔ ∃ c ∈ candidates,
      (c.1 ≠ 0 ∧ isValidBase c.2 = true ∧ c.2 ∈ onDisk) ∧
        e = { uid := c.1.toNat, base := c.2, modseq := 0 } := by
  have general : ∀ taken : List UidEntry × Nat,
      (∀ o ∈ taken.1, ∀ c ∈ candidates, o.uid ≠ c.1.toNat ∧ o.base ≠ c.2) →
      (e ∈ (candidates.foldl (takeCandidate onDisk) taken).1 ↔ e ∈ taken.1 ∨ ∃ c ∈ candidates,
        (c.1 ≠ 0 ∧ isValidBase c.2 = true ∧ c.2 ∈ onDisk) ∧
          e = { uid := c.1.toNat, base := c.2, modseq := 0 }) := by
    induction candidates with
    | nil => simp
    | cons c rest ih =>
      intro taken apart
      obtain ⟨newUid, uids'⟩ := List.nodup_cons.mp uids
      obtain ⟨newBase, bases'⟩ := List.nodup_cons.mp bases
      have later : ∀ o ∈ taken.1, ∀ c' ∈ rest, o.uid ≠ c'.1.toNat ∧ o.base ≠ c'.2 :=
        fun o mem c' mem' => apart o mem c' (List.mem_cons_of_mem _ mem')
      rw [List.foldl_cons, List.exists_mem_cons_iff]
      by_cases usable : c.1 ≠ 0 ∧ isValidBase c.2 = true ∧ c.2 ∈ onDisk
      · have step : takeCandidate onDisk taken c =
            (taken.1.orderedInsert (fun a b => a.uid ≤ b.uid)
              { uid := c.1.toNat, base := c.2, modseq := 0 }, taken.2) := by
          simp only [takeCandidate]
          rw [if_neg, if_neg]
          · rintro (⟨o, mem, same⟩ | ⟨o, mem, same⟩)
            · exact (apart o mem c List.mem_cons_self).1 same
            · exact (apart o mem c List.mem_cons_self).2 same
          · rintro (zero | invalid | absent)
            · exact usable.1 zero
            · exact invalid usable.2.1
            · exact absent usable.2.2
        rw [step, ih uids' bases']
        · rw [List.mem_orderedInsert]
          simp only [usable, ne_eq, not_false_eq_true, and_self, true_and]
          constructor
          · rintro ((new | old) | rest)
            exacts [.inr (.inl new), .inl old, .inr (.inr rest)]
          · rintro (old | new | rest)
            exacts [.inl (.inr old), .inl (.inl new), .inr rest]
        · intro o mem c' mem'
          rcases (List.mem_orderedInsert _).mp mem with rfl | old
          · refine ⟨fun same => newUid ?_, fun same => newBase ?_⟩
            · exact List.mem_map.mpr ⟨c', mem', (UInt32.toNat_inj.mp same).symm⟩
            · exact List.mem_map.mpr ⟨c', mem', Eq.symm same⟩
          · exact later o old c' mem'
      · have step : takeCandidate onDisk taken c = (taken.1, taken.2 + 1) := by
          simp only [takeCandidate]
          refine if_pos ?_
          by_contra none
          simp only [not_or, not_not] at none
          exact usable none
        rw [step, ih uids' bases' (taken.1, taken.2 + 1) later]
        simp only [usable, false_and, false_or]
  simpa [takeCandidates] using general ([], 0) (by simp)

section Imported

variable {uidvalidity uidnextHint : UInt32} {entries : List UidEntry}

theorem imported_stored (h : InOrder entries) :
    (importedList uidvalidity uidnextHint entries).Stored := by
  have few : entries.length ≤ u64Max := (length_le_of_sorted h.sorted h.uids).trans (by decide)
  have hint := uidnextHint.toNat_lt
  have validity := uidvalidity.toNat_lt
  refine ⟨⟨?_, ?_, few⟩, fun e mem => ⟨(h.number.uids e mem).2, ?_⟩, h.number.valid,
    h.number.sorted⟩
  · simp only [importedList, u32Max]
    omega
  · simp only [importedList, UidList.nextUid, satAdd, u32Max]
    omega
  · exact (number_modseqs mem).2.trans few

theorem importedList_lists {uid : Nat} {base : String} :
    (importedList uidvalidity uidnextHint entries).Lists uid base ↔
      ∃ e ∈ entries, e.uid = uid ∧ e.base = base := by
  have pairs : (number entries).map (fun e => (e.uid, e.base)) =
      entries.map fun e => (e.uid, e.base) := by
    rw [number, List.map_map]
    conv_rhs => rw [← List.zipIdx_map_fst 1 entries, List.map_map]
    rfl
  have mem : ∀ l : List UidEntry, (∃ e ∈ l, e.uid = uid ∧ e.base = base) ↔
      (uid, base) ∈ l.map fun e => (e.uid, e.base) := by simp
  show (∃ e ∈ number entries, e.uid = uid ∧ e.base = base) ↔ _
  rw [mem, pairs, mem]

/-- It is one that is read back, unless it has the last UID. -/
theorem imported_accepted_iff (h : InOrder entries) (positive : uidvalidity ≠ 0) :
    (importedList uidvalidity uidnextHint entries).Accepted ↔ ∀ e ∈ entries, e.uid ≠ u32Max := by
  have range := (@imported_stored uidvalidity uidnextHint _ h).range
  have validity : 0 < uidvalidity.toNat :=
    Nat.pos_of_ne_zero fun zero => positive (UInt32.toNat_inj.mp zero)
  have next : 0 < (importedList uidvalidity uidnextHint entries).uidnext :=
    lt_max_of_lt_right (lt_max_of_lt_right Nat.one_pos)
  constructor
  · intro accepted e mem last
    have listed : e.uid ∈ (number entries).map (·.uid) := by
      rw [number_uids]
      exact List.mem_map_of_mem mem
    obtain ⟨o, inList, same⟩ := List.mem_map.mp listed
    have below := (accepted.bounds o inList).2
    exact absurd below (not_lt.mpr (same.trans last ▸ range.2.1))
  · intro free
    refine (InOrder.accepted h.number ⟨validity, range.1⟩ ⟨next, range.2.1⟩ range.2.2 ?_
      fun e mem => number_modseqs mem).1
    intro e mem
    obtain ⟨o, old, same, -⟩ := mem_number mem
    have notLast : e.uid ≠ u32Max := same ▸ free o old
    exact lt_max_of_lt_right (lt_max_of_lt_left (lt_min (Nat.lt_succ_of_le (le_maxUid mem))
      (lt_of_le_of_ne (h.number.uids e mem).2 notLast)))

end Imported

theorem importUidlist_ok {folder folder' : Folder} {uidvalidity uidnextHint : UInt32}
    {candidates : List Candidate} {report : UidImport}
    (h : folder.importUidlist uidvalidity uidnextHint candidates = .ok (folder', report)) :
    uidvalidity ≠ 0 ∧ folder.uidFile = none ∧ folder.scan.length ≤ maxScanEntries ∧
      (folder' = folder ∨ (takeCandidates (scanBases folder.scan) candidates).1 ≠ [] ∧
        folder' = { folder with uidFile := some (importedList uidvalidity uidnextHint
          (takeCandidates (scanBases folder.scan) candidates).1) }) := by
  unfold Folder.importUidlist at h
  split at h
  · cases h
  rename_i positive
  split at h
  · cases h
  rename_i absent
  split at h
  · cases h
  rename_i few
  refine ⟨positive, by simpa using absent, not_lt.mp few, ?_⟩
  generalize takeCandidates (scanBases folder.scan) candidates = taken at h
  obtain ⟨entries, unresolved⟩ := taken
  simp only at h
  split at h
  · cases h
    exact .inl rfl
  · rename_i some
    cases h
    exact .inr ⟨by simpa using some, rfl⟩

end MailStack.Maildir
