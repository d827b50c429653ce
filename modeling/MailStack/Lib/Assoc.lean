import Mathlib.Algebra.BigOperators.Group.List.Basic
import Mathlib.Data.List.Nodup

/-! Lists of named values, where the first entry of a name counts: changing, removing and renaming
an entry, and what these do to a sum over all entries. -/

namespace MailStack.Lib.Assoc

variable {κ α : Type*} [DecidableEq κ] {a : α}

@[grind =] def modify (key : κ) (f : α → α) : List (κ × α) → List (κ × α)
  | [] => []
  | (k, a) :: rest => if k = key then (k, f a) :: rest else (k, a) :: modify key f rest

def remove (key : κ) : List (κ × α) → List (κ × α)
  | [] => []
  | (k, a) :: rest => if k = key then rest else (k, a) :: remove key rest

@[grind =] def rekey (key new : κ) : List (κ × α) → List (κ × α)
  | [] => []
  | (k, a) :: rest => if k = key then (new, a) :: rest else (k, a) :: rekey key new rest

/-- The sum of a measure over the values. -/
def total {M : Type*} [AddCommMonoid M] (m : α → M) (entries : List (κ × α)) : M :=
  (entries.map fun e => m e.2).sum

variable {M : Type*} [AddCommMonoid M] {m : α → M} {entries : List (κ × α)} {key : κ}

omit [DecidableEq κ] in
@[simp] theorem total_nil : total m ([] : List (κ × α)) = 0 := rfl

omit [DecidableEq κ] in
@[simp] theorem total_cons (e : κ × α) : total m (e :: entries) = m e.2 + total m entries := by
  simp [total]

omit [DecidableEq κ] in
@[simp] theorem total_append (entries' : List (κ × α)) :
    total m (entries ++ entries') = total m entries + total m entries' := by
  simp [total]

theorem total_modify (f : α → α) (found : entries.lookup key = some a) :
    total m (modify key f entries) + m a = total m entries + m (f a) := by
  induction entries with
  | nil => cases found
  | cons e rest ih =>
    obtain ⟨k, b⟩ := e
    rw [modify]
    by_cases same : k = key
    · subst same
      obtain rfl : b = a := by simpa using found
      simp only [if_true, total_cons]
      ac_rfl
    · rw [if_neg same, total_cons, total_cons, add_assoc, ih, add_assoc]
      simpa [List.lookup_cons, beq_eq_false_iff_ne.mpr (Ne.symm same)] using found

theorem lookup_modify (f : α → α) (k : κ) :
    (modify key f entries).lookup k =
      if k = key then (entries.lookup k).map f else entries.lookup k := by
  induction entries with
  | nil => simp [modify]
  | cons e rest ih =>
    obtain ⟨k', b⟩ := e
    rw [modify]
    by_cases same : k' = key <;> by_cases here : k = k' <;>
      simp_all [List.lookup_cons, beq_eq_false_iff_ne.mpr, eq_comm]

theorem modify_keys (f : α → α) : (modify key f entries).map (·.1) = entries.map (·.1) := by
  induction entries with
  | nil => rfl
  | cons e rest ih =>
    unfold modify
    split_ifs
    · rfl
    · simp [ih]

/-- To put back what is there changes nothing. -/
theorem modify_self (found : entries.lookup key = some a) :
    modify key (fun _ => a) entries = entries := by
  induction entries with
  | nil => rfl
  | cons e rest ih =>
    obtain ⟨k, b⟩ := e
    rw [modify]
    by_cases same : k = key
    · subst same
      obtain rfl : b = a := by simpa using found
      rw [if_pos rfl]
    · rw [if_neg same, ih]
      simpa [List.lookup_cons, beq_eq_false_iff_ne.mpr (Ne.symm same)] using found

/-- A change that keeps the measure of every value. -/
theorem total_modify_eq (f : α → α) (same : ∀ a, m (f a) = m a) :
    total m (modify key f entries) = total m entries := by
  induction entries with
  | nil => rfl
  | cons e rest ih =>
    unfold modify
    split_ifs
    · simp [same]
    · simp [ih]

theorem lookup_remove {k : κ} (other : key ≠ k) :
    (remove key entries).lookup k = entries.lookup k := by
  induction entries with
  | nil => rfl
  | cons e rest ih =>
    obtain ⟨k', b⟩ := e
    rw [remove]
    split_ifs with same
    · rw [List.lookup_cons, beq_eq_false_iff_ne.mpr fun eq => other (same.symm.trans eq.symm)]
    · rw [List.lookup_cons, List.lookup_cons, ih]

theorem total_remove (found : entries.lookup key = some a) :
    m a + total m (remove key entries) = total m entries := by
  induction entries with
  | nil => cases found
  | cons e rest ih =>
    obtain ⟨k, b⟩ := e
    rw [remove]
    by_cases same : k = key
    · subst same
      obtain rfl : b = a := by simpa using found
      simp
    · rw [if_neg same, total_cons, total_cons, ← ih]
      · ac_rfl
      · simpa [List.lookup_cons, beq_eq_false_iff_ne.mpr (Ne.symm same)] using found

@[simp] theorem total_rekey (new : κ) : total m (rekey key new entries) = total m entries := by
  induction entries with
  | nil => rfl
  | cons e rest ih =>
    unfold rekey
    split_ifs
    · simp
    · simp [ih]

theorem lookup_rekey {new k : κ} (other : key ≠ k) (other' : new ≠ k) :
    (rekey key new entries).lookup k = entries.lookup k := by
  induction entries with
  | nil => rfl
  | cons e rest ih =>
    obtain ⟨k', b⟩ := e
    rw [rekey]
    split_ifs with same
    · rw [List.lookup_cons, List.lookup_cons, beq_eq_false_iff_ne.mpr (Ne.symm other'),
        beq_eq_false_iff_ne.mpr fun eq => other (same.symm.trans eq.symm)]
    · rw [List.lookup_cons, List.lookup_cons, ih]

variable {new : κ}

/-- Where names are used once, renaming one changes only its entry. -/
theorem rekey_eq_map (nodup : (entries.map (·.1)).Nodup) :
    rekey key new entries = entries.map fun e => (if e.1 = key then new else e.1, e.2) := by
  induction entries with
  | nil => rfl
  | cons e rest ih =>
    rw [List.map_cons, List.nodup_cons] at nodup
    rw [rekey, List.map_cons]
    split_ifs with same
    · subst same
      congr 1
      refine (List.map_id' rest).symm.trans (List.map_congr_left fun e' mem => ?_)
      rw [if_neg fun eq => nodup.1 (List.mem_map.mpr ⟨e', mem, eq⟩)]
    · rw [ih nodup.2]

theorem rekey_keys {new : κ} (nodup : (entries.map (·.1)).Nodup) :
    (rekey key new entries).map (·.1) =
      (entries.map (·.1)).map fun k => if k = key then new else k := by
  rw [rekey_eq_map nodup, List.map_map, List.map_map]
  rfl

theorem nodup_rekey (nodup : (entries.map (·.1)).Nodup) (free : new ∉ entries.map (·.1)) :
    ((rekey key new entries).map (·.1)).Nodup := by
  rw [rekey_keys nodup]
  refine nodup.map_on fun a ha b hb same => ?_
  split_ifs at same with isA isB isB
  · rw [isA, isB]
  · exact absurd (same ▸ hb) free
  · exact absurd (same ▸ ha) free
  · exact same

/-- To rename an entry back restores the list. -/
theorem rekey_rekey (free : new ∉ entries.map (·.1)) :
    rekey new key (rekey key new entries) = entries := by
  induction entries with
  | nil => rfl
  | cons e rest ih =>
    simp only [List.map_cons, List.mem_cons, not_or] at free
    rw [rekey]
    split_ifs with same
    · rw [rekey, if_pos rfl, ← same]
    · rw [rekey, if_neg (Ne.symm free.1), ih free.2]

theorem lookup_isSome_iff {k : κ} : (entries.lookup k).isSome = true ↔ k ∈ entries.map (·.1) := by
  rw [List.lookup_isSome_iff, List.mem_map]
  exact exists_congr fun e => and_congr_right fun _ => beq_iff_eq.trans eq_comm

end MailStack.Lib.Assoc
