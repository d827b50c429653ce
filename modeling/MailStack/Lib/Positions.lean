import Mathlib.Data.List.Sort

/-! Positions in a list, counted from 1, and lists from which the elements at some of them are taken
out, the last one first. -/

namespace MailStack.Lib

variable {α β : Type*}

/-- The positions of the elements that meet `p`, where the first one has the position `k`. -/
def positionsFrom (k : Nat) (p : α → Bool) (l : List α) : List Nat :=
  ((l.zipIdx k).filter fun e => p e.1).map (·.2)

theorem positionsFrom_cons (k : Nat) (p : α → Bool) (a : α) (l : List α) :
    positionsFrom k p (a :: l) =
      if p a then k :: positionsFrom (k + 1) p l else positionsFrom (k + 1) p l := by
  unfold positionsFrom
  rw [List.zipIdx_cons, List.filter_cons]
  split_ifs <;> rfl

theorem le_of_mem_positionsFrom {k n : Nat} {p : α → Bool} {l : List α}
    (mem : n ∈ positionsFrom k p l) : k ≤ n := by
  obtain ⟨e, inside, rfl⟩ := List.mem_map.mp mem
  exact (List.mem_zipIdx_iff_le_and_getElem?_sub.mp (List.mem_of_mem_filter inside)).1

theorem positionsFrom_ascending (k : Nat) (p : α → Bool) (l : List α) :
    (positionsFrom k p l).Pairwise (· < ·) := by
  induction l generalizing k with
  | nil => exact .nil
  | cons a l ih =>
    rw [positionsFrom_cons]
    split_ifs
    · exact List.pairwise_cons.mpr ⟨fun n mem => le_of_mem_positionsFrom mem, ih (k + 1)⟩
    · exact ih (k + 1)

/-- The numbers from the greatest to the least. -/
def descending (numbers : List Nat) : List Nat := numbers.mergeSort fun a b => decide (b ≤ a)

theorem descending_of_ascending {numbers : List Nat} (h : numbers.Pairwise (· < ·)) :
    descending numbers = numbers.reverse := by
  have sorted : (descending numbers).Pairwise fun a b => b ≤ a :=
    List.pairwise_mergeSort' (· ≥ ·) numbers
  have reversed : numbers.reverse.Pairwise fun a b => b ≤ a :=
    List.pairwise_reverse.mpr (h.imp le_of_lt)
  refine List.Perm.eq_of_pairwise (fun a b _ _ h h' => le_antisymm h' h) sorted reversed ?_
  exact (List.mergeSort_perm numbers _).trans (List.reverse_perm numbers).symm

/-- The element at a position is taken out. -/
def removeAt (l : List α) (position : Nat) : List α := l.eraseIdx (position - 1)

theorem removeAt_append (as l : List α) {position : Nat} (h : as.length < position) :
    removeAt (as ++ l) position = as ++ l.eraseIdx (position - 1 - as.length) := by
  rw [removeAt, List.eraseIdx_append_of_length_le (by omega)]

/-- Taking out the elements at all positions that do not meet `p`, the last one first, leaves those
that do. -/
theorem foldl_removeAt (p : α → Bool) (as l : List α) :
    (positionsFrom (as.length + 1) (fun a => !p a) l).reverse.foldl removeAt (as ++ l) =
      as ++ l.filter p := by
  induction l generalizing as with
  | nil => rfl
  | cons a l ih =>
    have ih := ih (as ++ [a])
    rw [List.length_append, List.length_singleton, List.append_assoc, List.singleton_append] at ih
    rw [positionsFrom_cons, List.filter_cons]
    cases keep : p a with
    | true => simpa using ih
    | false =>
      simp only [Bool.not_false, if_true, List.reverse_cons, List.foldl_append, List.foldl_cons,
        List.foldl_nil, ih, List.append_assoc, List.singleton_append]
      rw [removeAt_append _ _ (Nat.lt_succ_self _)]
      simp

theorem map_foldl_removeAt (f : α → β) (positions : List Nat) (l : List α) :
    positions.foldl removeAt (l.map f) = (positions.foldl removeAt l).map f := by
  induction positions generalizing l with
  | nil => rfl
  | cons n rest ih =>
    rw [List.foldl_cons, List.foldl_cons, ← ih, removeAt, removeAt, List.eraseIdx_eq_take_drop_succ,
      List.eraseIdx_eq_take_drop_succ, List.map_append, List.map_take, List.map_drop]

/-- A change of one element, seen through a function. -/
theorem map_modify (f : α → β) (g : α → α) (h : β → β) (commutes : ∀ a, f (g a) = h (f a))
    (i : Nat) (l : List α) : (l.modify i g).map f = (l.map f).modify i h := by
  induction l generalizing i with
  | nil => simp
  | cons a l ih =>
    cases i with
    | zero => simp [commutes]
    | succ i => simp [ih]

end MailStack.Lib
