import Mathlib.Data.List.Basic

/-! Chains of checks, of which the first that fails is the error. -/

namespace MailStack.Lib

variable {ε α β : Type} {f : α → Except ε β} {e : ε}

variable {b : β} {x : Except ε α}

theorem ok_of_bind (h : (x >>= f) = .ok b) :
    ∃ a, x = .ok a ∧ f a = .ok b := by
  cases x with
  | error e => cases h
  | ok a => exact ⟨a, rfl, h⟩

theorem ok_of_map {f : α → β} (h : x.map f = .ok b) :
    ∃ a, x = .ok a ∧ f a = b := by
  cases x with
  | error e => cases h
  | ok a => exact ⟨a, rfl, Except.ok.inj h⟩

theorem error_of_map {f : α → β} (h : x.map f = .error e) :
    x = .error e := by
  cases x with
  | error e' => exact congrArg _ (Except.error.inj h)
  | ok a => cases h

/-- What comes after a check that did not fail. -/
theorem ok_of_check {c : Prop} [Decidable c] {f : Unit → Except ε β}
    (h : (if c then throw e >>= f else f ()) = .ok b) : ¬c ∧ f () = .ok b := by
  by_cases holds : c
  · rw [if_pos holds] at h
    cases h
  · rw [if_neg holds] at h
    exact ⟨holds, h⟩

/-- What comes after a check in the other layout. -/
theorem ok_of_ite {c : Prop} [Decidable c] {x : Except ε β}
    (h : (if c then .error e else x) = .ok b) : ¬c ∧ x = .ok b := by
  by_cases holds : c
  · rw [if_pos holds] at h
    cases h
  · rw [if_neg holds] at h
    exact ⟨holds, h⟩

/-- Each result comes from one of the inputs. -/
theorem mem_of_mapM_ok {xs : List α} {ys : List β} (h : xs.mapM f = .ok ys)
    {y : β} (mem : y ∈ ys) : ∃ x ∈ xs, f x = .ok y := by
  induction xs generalizing ys with
  | nil =>
    cases h
    exact absurd mem List.not_mem_nil
  | cons x xs ih =>
    rw [List.mapM_cons] at h
    obtain ⟨first, here, h⟩ := ok_of_bind h
    obtain ⟨rest, later, h⟩ := ok_of_bind h
    cases h
    rcases List.mem_cons.mp mem with rfl | mem
    · exact ⟨x, List.mem_cons_self, here⟩
    · obtain ⟨x', inside, found⟩ := ih later mem
      exact ⟨x', List.mem_cons_of_mem _ inside, found⟩

end MailStack.Lib
