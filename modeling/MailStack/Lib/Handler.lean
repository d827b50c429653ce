import Mathlib.Data.List.Basic

/-! Handlers: computations that change a state and may stop early with an answer. `wp` is the
condition under which a handler ends in a given way, and its rules run a handler symbolically. -/

namespace MailStack.Lib

variable {ε σ α β : Type}

/-- The handler, started in `s`, ends with a result and a state that meet `Q`, or stops early in a
state that meets `E`. -/
def wp (h : EStateM ε σ α) (Q : α → σ → Prop) (E : σ → Prop) (s : σ) : Prop :=
  match h s with
  | .ok a t => Q a t
  | .error _ t => E t

/-- The state that a handler leaves, however it ends. -/
def finalState (h : EStateM ε σ α) (s : σ) : σ :=
  match h s with
  | .ok _ t => t
  | .error _ t => t

/-- The handler, which does not stop early: its answer is handed on instead. -/
def caught (h : EStateM ε σ α) : EStateM ε σ (Except ε α) := fun s =>
  match h s with
  | .ok a t => .ok (.ok a) t
  | .error e t => .ok (.error e) t

theorem run_get (s : σ) : (get : EStateM ε σ σ) s = .ok s s := rfl

theorem run_set (s t : σ) : (set t : EStateM ε σ PUnit) s = .ok ⟨⟩ t := rfl

theorem run_bind {h : EStateM ε σ β} {f : β → EStateM ε σ α} {s t : σ} {b : β}
    (ran : h s = .ok b t) : (h >>= f) s = f b t := by
  simp only [bind, EStateM.bind, ran]

theorem run_throw (e : ε) (s : σ) : (throw e : EStateM ε σ α) s = .error e s := rfl

variable {Q Q' : α → σ → Prop} {E E' : σ → Prop} {s : σ}

@[simp] theorem wp_pure (a : α) : wp (pure a : EStateM ε σ α) Q E s ↔ Q a s := Iff.rfl

@[simp] theorem wp_throw (e : ε) : wp (throw e : EStateM ε σ α) Q E s ↔ E s := Iff.rfl

@[simp] theorem wp_bind (h : EStateM ε σ β) (f : β → EStateM ε σ α) :
    wp (h >>= f) Q E s ↔ wp h (fun b t => wp (f b) Q E t) E s := by
  simp only [wp, bind, EStateM.bind]
  cases h s <;> rfl

@[simp] theorem wp_get {Q : σ → σ → Prop} : wp (get : EStateM ε σ σ) Q E s ↔ Q s s := Iff.rfl

@[simp] theorem wp_modify {Q : Unit → σ → Prop} (f : σ → σ) :
    wp (modify f : EStateM ε σ Unit) Q E s ↔ Q () (f s) := Iff.rfl

@[simp] theorem wp_set {Q : PUnit → σ → Prop} (t : σ) :
    wp (set t : EStateM ε σ PUnit) Q E s ↔ Q ⟨⟩ t := Iff.rfl

theorem wp_ite (c : Prop) [Decidable c] (h h' : EStateM ε σ α) :
    wp (if c then h else h') Q E s ↔ (c → wp h Q E s) ∧ (¬c → wp h' Q E s) := by
  split <;> simp_all

/-- What holds of a handler holds of it in a weaker form. -/
theorem wp_mono {h : EStateM ε σ α} (run : wp h Q E s) (ok : ∀ a t, Q a t → Q' a t)
    (stopped : ∀ t, E t → E' t) : wp h Q' E' s := by
  unfold wp at *
  generalize h s = result at *
  cases result with
  | ok a t => exact ok a t run
  | error e t => exact stopped t run

theorem wp_and {h : EStateM ε σ α} (run : wp h Q E s) (run' : wp h Q' E' s) :
    wp h (fun a t => Q a t ∧ Q' a t) (fun t => E t ∧ E' t) s := by
  unfold wp at *
  generalize h s = result at *
  cases result with
  | ok a t => exact ⟨run, run'⟩
  | error e t => exact ⟨run, run'⟩

theorem wp_of_ok {h : EStateM ε σ α} {a : α} {t : σ} (run : h s = .ok a t) :
    wp h Q E s ↔ Q a t := by
  rw [wp, run]

theorem wp_of_error {h : EStateM ε σ α} {e : ε} {t : σ} (run : h s = .error e t) :
    wp h Q E s ↔ E t := by
  rw [wp, run]

/-- A handler that cannot end with a result stops early. -/
theorem exists_error_of_wp {h : EStateM ε σ α} (run : wp h (fun _ _ => False) E s) :
    ∃ e t, h s = .error e t ∧ E t := by
  unfold wp at run
  generalize h s = result at *
  cases result with
  | ok a t => exact run.elim
  | error e t => exact ⟨e, t, rfl, run⟩

theorem caught_eq (h : EStateM ε σ α)
    (s : σ) : ∃ result, caught h s = .ok result (finalState h s) := by
  unfold caught finalState
  cases h s with
  | ok a t => exact ⟨.ok a, rfl⟩
  | error e t => exact ⟨.error e, rfl⟩

/-- A handler that cannot stop early ends in its final state. -/
theorem eq_ok_of_wp {h : EStateM ε σ Unit} (run : wp h (fun _ _ => True) (fun _ => False) s) :
    h s = .ok () (finalState h s) := by
  unfold wp finalState at *
  cases result : h s with
  | ok a t => rfl
  | error e t =>
    rw [result] at run
    exact run.elim

theorem wp_caught {R : Except ε α → σ → Prop} {h : EStateM ε σ α} (run : wp h Q E s)
    (ok : ∀ a t, Q a t → R (.ok a) t) (stopped : ∀ e t, E t → R (.error e) t) :
    wp (caught h) R E' s := by
  unfold wp caught at *
  generalize h s = result at *
  cases result with
  | ok a t => exact ok a t run
  | error e t => exact stopped e t run

/-- A property of the state that a handler keeps, however it ends. -/
theorem finalState_of_wp {P : σ → Prop} {h : EStateM ε σ α} (run : wp h (fun _ => P) P s) :
    P (finalState h s) := by
  unfold wp at run
  unfold finalState
  generalize h s = result at *
  cases result <;> exact run

/-- The handler keeps a property of the state, however it ends. -/
def Keeps (P : σ → Prop) (h : EStateM ε σ α) : Prop := ∀ s, P s → wp h (fun _ => P) P s

section Keeps

variable {P : σ → Prop} {h : EStateM ε σ α} {f : α → EStateM ε σ β}

theorem Keeps.pure (a : α) : Keeps P (pure a : EStateM ε σ α) := fun _ good => good

theorem Keeps.throw (e : ε) : Keeps P (throw e : EStateM ε σ α) := fun _ good => good

theorem Keeps.get : Keeps P (get : EStateM ε σ σ) := fun _ good => good

theorem Keeps.bind (first : Keeps P h) (next : ∀ a, Keeps P (f a)) : Keeps P (h >>= f) := by
  intro s good
  rw [wp_bind]
  exact wp_mono (first s good) (fun a t good => next a t good) fun _ good => good

theorem Keeps.ite {c : Prop} [Decidable c] {h' : EStateM ε σ α} (first : Keeps P h)
    (second : Keeps P h') : Keeps P (if c then h else h') := by
  split
  · exact first
  · exact second

theorem Keeps.caught (keeps : Keeps P h) : Keeps P (caught h) := fun s good =>
  wp_caught (keeps s good) (fun _ _ good => good) fun _ _ good => good

theorem Keeps.finalState {s : σ} (keeps : Keeps P h) (good : P s) : P (finalState h s) :=
  finalState_of_wp (keeps s good)

end Keeps

end MailStack.Lib
