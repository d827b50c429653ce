import Mathlib.Data.List.AList
import Mathlib.Order.Bounds.Basic
import Mathlib.Order.MinMax

/-! Tables, in which a key has at most one value: getting, changing and removing the value of a key,
keeping the entries that meet a condition, and how many entries these leave. -/

namespace MailStack.Lib

abbrev Table (κ α : Type*) := AList fun _ : κ => α

namespace Table

variable {κ α : Type*} {key k : κ} {a fresh : α} {f : α → α} {p : κ → α → Bool} {t : Table κ α}
  {keys : List κ}

def size (t : Table κ α) : Nat := t.entries.length

/-- The entries that meet the condition. -/
def retain (p : κ → α → Bool) (t : Table κ α) : Table κ α where
  entries := t.entries.filter fun e => p e.1 e.2
  nodupKeys := t.nodupKeys.sublist List.filter_sublist

/-- Every value is changed. -/
def mapValues (f : α → α) (t : Table κ α) : Table κ α where
  entries := t.entries.map fun e => ⟨e.1, f e.2⟩
  nodupKeys := by
    have keys : (t.entries.map fun e : Sigma fun _ : κ => α =>
        (⟨e.1, f e.2⟩ : Sigma fun _ : κ => α)).keys = t.entries.keys := by simp [List.keys]
    rw [List.NodupKeys, keys]
    exact t.nodupKeys

theorem size_eq_length_keys : t.size = t.keys.length := (List.length_map _).symm

variable [DecidableEq κ]

def get (t : Table κ α) (key : κ) : Option α := AList.lookup key t

def put (key : κ) (a : α) (t : Table κ α) : Table κ α := AList.insert key a t

def remove (key : κ) (t : Table κ α) : Table κ α := AList.erase key t

/-- The value of the key, or `fresh` where it has none, is changed. -/
def update (key : κ) (fresh : α) (f : α → α) (t : Table κ α) : Table κ α :=
  t.put key (f ((t.get key).getD fresh))

@[simp] theorem get_empty : get (∅ : Table κ α) key = none := rfl

theorem get_eq_some_iff : t.get k = some a ↔ ⟨k, a⟩ ∈ t.entries :=
  List.mem_dlookup_iff t.nodupKeys

theorem get_eq_none_iff : t.get k = none ↔ k ∉ t := AList.lookup_eq_none

theorem mem_of_get (found : t.get k = some a) : k ∈ t :=
  AList.lookup_isSome.mp (Option.isSome_of_eq_some found)

@[simp] theorem get_put : (t.put key a).get key = some a := AList.lookup_insert t

theorem get_put_ne (other : k ≠ key) : (t.put key a).get k = t.get k :=
  AList.lookup_insert_ne other

@[simp] theorem get_remove : (t.remove key).get key = none := AList.lookup_erase key t

theorem get_remove_ne (other : k ≠ key) : (t.remove key).get k = t.get k :=
  AList.lookup_erase_ne other

@[simp] theorem get_update :
    (t.update key fresh f).get key = some (f ((t.get key).getD fresh)) := get_put

theorem get_update_ne (other : k ≠ key) : (t.update key fresh f).get k = t.get k :=
  get_put_ne other

theorem get_retain : (t.retain p).get k = (t.get k).filter (p k) := by
  apply Option.ext
  intro a
  rw [get_eq_some_iff, Option.filter_eq_some_iff, get_eq_some_iff]
  exact List.mem_filter

theorem get_mapValues : (t.mapValues f).get k = (t.get k).map f := by
  apply Option.ext
  intro a
  rw [get_eq_some_iff, Option.map_eq_some_iff]
  constructor
  · intro mem
    obtain ⟨⟨k', b⟩, inside, eq⟩ := List.mem_map.mp mem
    cases eq
    exact ⟨b, get_eq_some_iff.mpr inside, rfl⟩
  · rintro ⟨b, found, rfl⟩
    exact List.mem_map.mpr ⟨⟨k, b⟩, get_eq_some_iff.mp found, rfl⟩

/-- Only the keys of the list are removed. -/
theorem get_foldl_remove :
    (keys.foldl (fun t key => t.remove key) t).get k = if k ∈ keys then none else t.get k := by
  induction keys generalizing t with
  | nil => rfl
  | cons first rest ih =>
    rw [List.foldl_cons, ih]
    by_cases later : k ∈ rest
    · simp [later]
    · by_cases here : k = first
      · subst here
        simp [later]
      · simp [later, here, get_remove_ne here]

/-- The values of all keys of the other table are changed. -/
theorem get_foldl_update {β : Type*} {g : β → α → α} (other : Table κ β) :
    (other.entries.foldl (fun t e => t.update e.1 fresh (g e.2)) t).get k =
      match other.get k with
      | some b => some (g b ((t.get k).getD fresh))
      | none => t.get k := by
  obtain ⟨entries, nodup⟩ := other
  show _ = match List.dlookup k entries with
    | some b => some (g b ((t.get k).getD fresh))
    | none => t.get k
  simp only
  induction entries generalizing t with
  | nil => rfl
  | cons e entries ih =>
    obtain ⟨key, b⟩ := e
    obtain ⟨absent, nodup⟩ := List.nodupKeys_cons.mp nodup
    rw [List.foldl_cons, ih nodup]
    by_cases here : k = key
    · subst here
      have none : List.dlookup k entries = none := List.dlookup_eq_none.mpr absent
      rw [none, List.dlookup_cons_eq, get_update]
    · rw [List.dlookup_cons_ne _ _ here, get_update_ne here]

omit [DecidableEq κ] in
/-- There are no more entries than names for their keys. -/
theorem size_le_length {names : List κ} (named : ∀ k ∈ t, k ∈ names) : t.size ≤ names.length := by
  rw [size_eq_length_keys]
  exact List.Nodup.length_le_of_subset t.keys_nodup fun k mem => named k (AList.mem_keys.mpr mem)

variable {s : Table κ α}

theorem size_le_of_get (within : ∀ k a, s.get k = some a → t.get k = some a) :
    s.size ≤ t.size := by
  rw [@size_eq_length_keys _ _ t]
  apply size_le_length
  intro k mem
  obtain ⟨a, found⟩ := Option.isSome_iff_exists.mp (AList.lookup_isSome.mpr mem)
  exact AList.mem_keys.mp (mem_of_get (within k a found))

theorem size_put_le : (t.put key a).size ≤ t.size + 1 := by
  rw [size_eq_length_keys, put, AList.keys_insert, List.length_cons]
  exact Nat.succ_le_succ (List.length_erase_le.trans size_eq_length_keys.ge)

theorem size_remove_of_mem (mem : key ∈ t) : (t.remove key).size + 1 = t.size := by
  rw [size_eq_length_keys, size_eq_length_keys, remove, AList.keys_erase]
  exact List.length_erase_add_one (AList.mem_keys.mp mem)

theorem size_remove_le : (t.remove key).size ≤ t.size := by
  rw [size_eq_length_keys, size_eq_length_keys, remove, AList.keys_erase]
  exact List.length_erase_le

theorem size_foldl_remove (nodup : keys.Nodup) (present : ∀ k ∈ keys, k ∈ t) :
    size (keys.foldl (fun t key => t.remove key) t) + keys.length = t.size := by
  induction keys generalizing t with
  | nil => rfl
  | cons key keys ih =>
    obtain ⟨absent, nodup⟩ := List.nodup_cons.mp nodup
    have left : ∀ k ∈ keys, k ∈ t.remove key := by
      intro k mem
      have ne : k ≠ key := fun eq => absent (eq ▸ mem)
      exact AList.mem_erase.mpr ⟨ne, present k (List.mem_cons_of_mem _ mem)⟩
    have rest := ih nodup left
    have first := size_remove_of_mem (present key List.mem_cons_self)
    rw [List.foldl_cons, List.length_cons]
    omega

/-- Tables that give the same values have the same entries. -/
theorem entries_perm (same : ∀ k, s.get k = t.get k) :
    s.entries.Perm t.entries :=
  List.lookup_ext s.nodupKeys t.nodupKeys fun k a => by
    show a ∈ s.get k ↔ a ∈ t.get k
    rw [same k]

theorem size_congr (same : ∀ k, s.get k = t.get k) : s.size = t.size :=
  (entries_perm same).length_eq

/-- The values listed for the key. -/
def values (k : κ) (pairs : List (κ × α)) : List α := (pairs.filter (·.1 = k)).map (·.2)

theorem mem_values {pairs : List (κ × α)} : a ∈ values k pairs ↔ (k, a) ∈ pairs := by
  simp [values]

section Least

variable [LinearOrder α] {pairs other : List (κ × α)}

/-- The value is put under the key, unless a smaller one is there. -/
def putLeast (key : κ) (a : α) (t : Table κ α) : Table κ α :=
  t.put key (match t.get key with
    | some b => min b a
    | none => a)

/-- Each key gets the least of its values in the list. -/
def leastOf (pairs : List (κ × α)) : Table κ α :=
  pairs.foldl (fun t pair => t.putLeast pair.1 pair.2) ∅

theorem get_putLeast : (t.putLeast key a).get k =
    if k = key then some ((t.get key).elim a (min · a)) else t.get k := by
  by_cases here : k = key
  · subst here
    rw [putLeast, get_put, if_pos rfl]
    cases t.get k <;> rfl
  · rw [putLeast, get_put_ne here, if_neg here]

theorem get_foldl_putLeast :
    (pairs.foldl (fun t pair => t.putLeast pair.1 pair.2) t).get k =
      ((t.get k).toList ++ values k pairs).min? := by
  induction pairs generalizing t with
  | nil => cases old : t.get k <;> simp [values, old]
  | cons pair pairs ih =>
    rw [List.foldl_cons, ih, get_putLeast]
    by_cases here : pair.1 = k
    · subst here
      have first : values pair.1 (pair :: pairs) = pair.2 :: values pair.1 pairs := by
        simp [values]
      rw [if_pos rfl, first]
      cases t.get pair.1 with
      | none => rfl
      | some b =>
        show (min b pair.2 :: values pair.1 pairs).min? = (b :: pair.2 :: values pair.1 pairs).min?
        rw [List.min?_cons, List.min?_cons, List.min?_cons]
        cases (values pair.1 pairs).min? <;> simp [min_assoc]
    · rw [if_neg (Ne.symm here)]
      simp [values, here]

theorem get_leastOf : (leastOf pairs).get k = (values k pairs).min? := by
  rw [leastOf, get_foldl_putLeast, get_empty, Option.toList_none, List.nil_append]

theorem get_leastOf_iff :
    (leastOf pairs).get k = some a ↔ IsLeast {b | (k, b) ∈ pairs} a := by
  have lawful : Std.LawfulOrderMin α :=
    Std.LawfulOrderMin.of_le_min_iff (fun _ _ _ => le_min_iff) min_choice
  rw [get_leastOf, List.min?_eq_some_iff]
  simp only [mem_values]
  rfl

theorem mem_leastOf_iff : k ∈ leastOf pairs ↔ ∃ a, (k, a) ∈ pairs := by
  rw [← AList.lookup_isSome]
  show ((leastOf pairs).get k).isSome ↔ _
  rw [get_leastOf, List.isSome_min?_iff, Ne, List.eq_nil_iff_forall_not_mem]
  simp [mem_values]

theorem leastOf_perm (perm : pairs.Perm other) :
    (leastOf pairs).entries.Perm (leastOf other).entries := by
  apply entries_perm
  intro k
  apply Option.ext
  intro a
  rw [get_leastOf_iff, get_leastOf_iff]
  simp only [perm.mem_iff]

end Least

end Table

end MailStack.Lib
