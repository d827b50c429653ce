import Mathlib.Data.List.Nodup

/-! Forests that are given by the parent of each element: ancestors, the end of every line of
ancestors, and the elements below one up to a bound on the distance, each of them once. -/

namespace MailStack.Lib

variable {α : Type*} {roots : List α}

/-- The ancestor that is `k` steps up. -/
def ancestor (parent : α → Option α) : Nat → α → Option α
  | 0, a => some a
  | k + 1, a => (parent a).bind (ancestor parent k)

/-- No element is above itself. -/
def Acyclic (parent : α → Option α) : Prop := ∀ a k, 0 < k → ancestor parent k a ≠ some a

variable {parent : α → Option α}

@[simp] theorem ancestor_zero (a : α) : ancestor parent 0 a = some a := rfl

theorem ancestor_succ (k : Nat) (a : α) :
    ancestor parent (k + 1) a = (parent a).bind (ancestor parent k) := rfl

theorem ancestor_add (j k : Nat) (a : α) :
    ancestor parent (j + k) a = (ancestor parent j a).bind (ancestor parent k) := by
  induction j generalizing a with
  | zero => simp
  | succ j ih =>
    rw [Nat.succ_add, ancestor_succ, ancestor_succ, Option.bind_assoc]
    exact Option.bind_congr fun b _ => ih b

/-- What is `k + 1` steps up is the parent of what is `k` steps up. -/
theorem ancestor_succ_eq (k : Nat) (a : α) :
    ancestor parent (k + 1) a = (ancestor parent k a).bind parent := by
  rw [ancestor_add k 1]
  refine Option.bind_congr fun b _ => ?_
  rw [ancestor_succ]
  cases parent b <;> rfl

theorem ancestor_none_of_le {j k : Nat} {a : α} (le : j ≤ k) (h : ancestor parent j a = none) :
    ancestor parent k a = none := by
  obtain ⟨d, rfl⟩ := Nat.exists_eq_add_of_le le
  rw [ancestor_add, h, Option.bind_none]

/-- Where every line of ancestors ends, no element is above itself. -/
theorem acyclic_of_ends (h : ∀ a, ∃ k, ancestor parent k a = none) : Acyclic parent := by
  intro a k positive same
  have round : ∀ n, ancestor parent (n * k) a = some a := by
    intro n
    induction n with
    | zero => simp
    | succ n ih => rw [Nat.succ_mul, ancestor_add, ih, Option.bind_some, same]
  obtain ⟨m, ends⟩ := h a
  have := ancestor_none_of_le (Nat.le_mul_of_pos_right m positive) ends
  rw [round m] at this
  cases this

/-- Two ancestors of one element: the later one is above the other. -/
theorem ancestor_of_le {j k : Nat} {a b c : α} (le : j ≤ k) (hj : ancestor parent j a = some b)
    (hk : ancestor parent k a = some c) : ancestor parent (k - j) b = some c := by
  obtain ⟨d, rfl⟩ := Nat.exists_eq_add_of_le le
  rw [ancestor_add, hj, Option.bind_some] at hk
  rwa [Nat.add_sub_cancel_left]

/-- What is below two children of one element is below one child twice. -/
theorem child_eq_of_below (acyclic : Acyclic parent) {a b c c' : α} {j j' : Nat}
    (hc : parent c = some a) (hc' : parent c' = some a) (h : ancestor parent j b = some c)
    (h' : ancestor parent j' b = some c') : c = c' := by
  have later : ∀ {m n : Nat} {d d' : α}, parent d = some a → parent d' = some a →
      ancestor parent m b = some d → ancestor parent n b = some d' → ¬m < n := by
    intro m n d d' up up' reach reach' less
    have between := ancestor_of_le (Nat.le_of_lt less) reach reach'
    obtain ⟨e, steps⟩ : ∃ e, n - m = e + 1 := ⟨n - m - 1, by omega⟩
    rw [steps, ancestor_succ, up, Option.bind_some] at between
    -- from `a` down to `d'` and back to `a`
    refine acyclic a (e + 1) (Nat.succ_pos e) ?_
    rw [ancestor_succ_eq, between, Option.bind_some, up']
  rcases Nat.lt_trichotomy j j' with less | rfl | less
  · exact absurd less (later hc hc' h h')
  · exact Option.some.inj (h.symm.trans h')
  · exact absurd less (later hc' hc h' h)

/-- The element and what is at most `k` steps below it, each element before those below it. -/
def below (children : α → List α) : Nat → α → List α
  | 0, a => [a]
  | k + 1, a => a :: (children a).flatMap (below children k)

theorem below_leaf {children : α → List α} {a : α} (leaf : children a = []) (k : Nat) :
    below children k a = [a] := by
  cases k with
  | zero => rfl
  | succ k => rw [below, leaf, List.flatMap_nil]

section Below

variable {children : α → List α} (lists : ∀ a c, c ∈ children a ↔ parent c = some a)
include lists

theorem mem_below {k : Nat} {a b : α} :
    b ∈ below children k a ↔ ∃ j ≤ k, ancestor parent j b = some a := by
  induction k generalizing a with
  | zero =>
    simp only [below, List.mem_singleton, Nat.le_zero_eq, exists_eq_left, ancestor_zero,
      Option.some.injEq]
  | succ k ih =>
    simp only [below, List.mem_cons, List.mem_flatMap, ih, lists]
    constructor
    · rintro (rfl | ⟨c, up, j, le, reach⟩)
      · exact ⟨0, Nat.zero_le _, rfl⟩
      · exact ⟨j + 1, Nat.succ_le_succ le, by rw [ancestor_succ_eq, reach, Option.bind_some, up]⟩
    · rintro ⟨j, le, reach⟩
      cases j with
      | zero => exact .inl (Option.some.inj reach)
      | succ j =>
        rw [ancestor_succ_eq] at reach
        obtain ⟨c, here, up⟩ := Option.bind_eq_some_iff.mp reach
        exact .inr ⟨c, up, j, Nat.le_of_succ_le_succ le, here⟩

theorem below_nodup (acyclic : Acyclic parent) (once : ∀ a, (children a).Nodup) (k : Nat) (a : α) :
    (below children k a).Nodup := by
  induction k generalizing a with
  | zero => exact List.nodup_singleton a
  | succ k ih =>
    refine List.nodup_cons.mpr ⟨fun mem => ?_, ?_⟩
    · obtain ⟨c, child, inside⟩ := List.mem_flatMap.mp mem
      obtain ⟨j, -, reach⟩ := (mem_below lists).mp inside
      refine acyclic a (j + 1) (Nat.succ_pos j) ?_
      rw [ancestor_succ_eq, reach, Option.bind_some, (lists a c).mp child]
    · refine List.nodup_flatMap.mpr ⟨fun c _ => ih c, (once a).imp_of_mem ?_⟩
      intro c c' child child' ne b inside inside'
      obtain ⟨j, -, reach⟩ := (mem_below lists).mp inside
      obtain ⟨j', -, reach'⟩ := (mem_below lists).mp inside'
      exact ne (child_eq_of_below acyclic ((lists a c).mp child) ((lists a c').mp child') reach reach')

/-- Below the roots, up to a bound, is every element whose line of ancestors ends within it. The
roots are among the elements of `inside`, which is with each element its parent and its children. -/
theorem mem_below_roots {inside : α → Prop}
    (closed : ∀ {a b}, parent a = some b → (inside a ↔ inside b))
    (top : ∀ a, a ∈ roots ↔ parent a = none ∧ inside a) {k : Nat} {b : α} :
    b ∈ roots.flatMap (below children k) ↔ inside b ∧ ancestor parent (k + 1) b = none := by
  have along : ∀ {j : Nat} {a : α}, ancestor parent j b = some a → (inside b ↔ inside a) := by
    intro j
    induction j with
    | zero =>
      rintro a ⟨⟩
      exact Iff.rfl
    | succ j ih =>
      intro a reach
      rw [ancestor_succ_eq] at reach
      obtain ⟨c, here, up⟩ := Option.bind_eq_some_iff.mp reach
      exact (ih here).trans (closed up)
  simp only [List.mem_flatMap, mem_below lists, top]
  constructor
  · rintro ⟨a, ⟨ends, inA⟩, j, le, reach⟩
    refine ⟨(along reach).mpr inA, ancestor_none_of_le (Nat.succ_le_succ le) ?_⟩
    rw [ancestor_succ_eq, reach, Option.bind_some, ends]
  · rintro ⟨inB, ends⟩
    induction k with
    | zero =>
      rw [ancestor_succ_eq] at ends
      exact ⟨b, ⟨by simpa using ends, inB⟩, 0, Nat.le_refl _, rfl⟩
    | succ k ih =>
      cases above : ancestor parent (k + 1) b with
      | none =>
        obtain ⟨a, root, j, le, reach⟩ := ih above
        exact ⟨a, root, j, Nat.le_succ_of_le le, reach⟩
      | some a =>
        rw [ancestor_succ_eq, above, Option.bind_some] at ends
        exact ⟨a, ⟨ends, (along above).mp inB⟩, k + 1, Nat.le_refl _, above⟩

theorem below_roots_nodup (acyclic : Acyclic parent) (once : ∀ a, (children a).Nodup)
    (top : ∀ a ∈ roots, parent a = none) (nodup : roots.Nodup) (k : Nat) :
    (roots.flatMap (below children k)).Nodup := by
  refine List.nodup_flatMap.mpr
    ⟨fun a _ => below_nodup lists acyclic once k a, nodup.imp_of_mem ?_⟩
  intro a a' root root' ne b inside inside'
  obtain ⟨j, -, reach⟩ := (mem_below lists).mp inside
  obtain ⟨j', -, reach'⟩ := (mem_below lists).mp inside'
  -- a root has nothing above it, so both are as far up
  have same : ∀ {m n : Nat} {d d' : α}, d ∈ roots → ancestor parent m b = some d →
      ancestor parent n b = some d' → ¬m < n := by
    intro m n d d' root reach reach' less
    have ends : ancestor parent (m + 1) b = none := by
      rw [ancestor_succ_eq, reach, Option.bind_some, top d root]
    rw [ancestor_none_of_le less ends] at reach'
    cases reach'
  rcases Nat.lt_trichotomy j j' with less | rfl | less
  · exact same root reach reach' less
  · exact ne (Option.some.inj (reach.symm.trans reach'))
  · exact same root' reach' reach less

end Below

end MailStack.Lib
