/-! A loop over a state, with a measure that says how many steps it can take. -/

namespace MailStack.Lib

variable {σ α : Type}

/-- Steps are taken until one ends, at most `fuel` of them. -/
def loopFor (step : σ → σ ⊕ α) (stuck : α) : Nat → σ → α
  | 0, _ => stuck
  | fuel + 1, s => (step s).elim (loopFor step stuck fuel) id

def loop (step : σ → σ ⊕ α) (stuck : α) (measure : σ → Nat) (s : σ) : α :=
  loopFor step stuck (measure s + 1) s

/-- Every step from a state of the invariant keeps it and lowers the measure. -/
def Lowers (step : σ → σ ⊕ α) (measure : σ → Nat) (inv : σ → Prop) : Prop :=
  ∀ s s', inv s → step s = .inl s' → inv s' ∧ measure s' < measure s

variable {step : σ → σ ⊕ α} {measure : σ → Nat} {inv : σ → Prop}

variable {s : σ}

theorem loopFor_eq (stuck : α) (lowers : Lowers step measure inv) {fuel fuel' : Nat}
    (holds : inv s) (enough : measure s < fuel) (enough' : measure s < fuel') :
    loopFor step stuck fuel s = loopFor step stuck fuel' s := by
  induction fuel generalizing fuel' s with
  | zero => omega
  | succ fuel ih =>
    cases fuel' with
    | zero => omega
    | succ fuel' =>
      unfold loopFor
      cases next : step s with
      | inl s' =>
        obtain ⟨holds', less⟩ := lowers s s' holds next
        exact ih holds' (by omega) (by omega)
      | inr a => rfl

/-- The loop never stops because its steps are used up. -/
theorem loop_eq (stuck : α) (lowers : Lowers step measure inv) (holds : inv s) :
    loop step stuck measure s = (step s).elim (loop step stuck measure) id := by
  rw [loop, loopFor]
  cases next : step s with
  | inl s' =>
    obtain ⟨holds', less⟩ := lowers s s' holds next
    exact loopFor_eq stuck lowers holds' less (Nat.lt_succ_self _)
  | inr a => rfl

/-- The steps from a state end with an answer. -/
inductive LoopRuns (step : σ → σ ⊕ α) : σ → α → Prop
  | stop {s : σ} {a : α} (ends : step s = .inr a) : LoopRuns step s a
  | next {s s' : σ} {a : α} (goes : step s = .inl s') (later : LoopRuns step s' a) : LoopRuns step s a

/-- The loop ends, and its answer is that of the steps. -/
theorem loop_runs (stuck : α) (lowers : Lowers step measure inv) (holds : inv s) :
    LoopRuns step s (loop step stuck measure s) := by
  generalize bound : measure s = n
  induction n using Nat.strongRecOn generalizing s with
  | ind n ih =>
    rw [loop_eq stuck lowers holds]
    cases result : step s with
    | inl s' =>
      obtain ⟨holds', less⟩ := lowers s s' holds result
      exact .next result (ih (measure s') (bound ▸ less) holds' rfl)
    | inr a => exact .stop result

/-- What holds of the answers, and of a state once it holds of the next one, holds of a run. -/
theorem LoopRuns.spec (keeps : ∀ s s', inv s → step s = .inl s' → inv s') {answers : σ → α → Prop}
    (ends : ∀ s a, inv s → step s = .inr a → answers s a)
    (next : ∀ s s' a, inv s → step s = .inl s' → answers s' a → answers s a) {a : α}
    (holds : inv s) (runs : LoopRuns step s a) : answers s a := by
  induction runs with
  | stop here => exact ends _ _ holds here
  | next goes later ih => exact next _ _ _ holds goes (ih (keeps _ _ holds goes))

/-- The same of the loop. -/
theorem loop_spec (stuck : α) (lowers : Lowers step measure inv) {answers : σ → α → Prop}
    (ends : ∀ s a, inv s → step s = .inr a → answers s a)
    (next : ∀ s s' a, inv s → step s = .inl s' → answers s' a → answers s a) {s : σ}
    (holds : inv s) : answers s (loop step stuck measure s) :=
  (loop_runs stuck lowers holds).spec (fun s s' holds goes => (lowers s s' holds goes).1) ends next
    holds

end MailStack.Lib
