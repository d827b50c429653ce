import Mathlib.Data.List.Basic

/-! Machines with a partial step function: the runs of a machine, runs whose steps all meet a
condition, and the rule that derives a property of every run from what one step keeps. -/

namespace MailStack.Lib

variable {σ ι : Type*}

/-- The state after the labels `ls` from `s`, or `none` when one of them is not enabled. -/
def exec (step : σ → ι → Option σ) : σ → List ι → Option σ
  | s, [] => some s
  | s, l :: ls => (step s l).bind fun t => exec step t ls

/-- `Runs step ok s ls t`: the labels `ls` lead from `s` to `t`, and each of them meets `ok` in the
state it is taken in. -/
inductive Runs (step : σ → ι → Option σ) (ok : σ → ι → Prop) : σ → List ι → σ → Prop
  | nil (s : σ) : Runs step ok s [] s
  | snoc {s t u : σ} {ls : List ι} {l : ι} :
      Runs step ok s ls t → ok t l → step t l = some u → Runs step ok s (ls ++ [l]) u

/-- A run with no condition on its steps. -/
abbrev Reaches (step : σ → ι → Option σ) : σ → List ι → σ → Prop :=
  Runs step fun _ _ => True

variable {step : σ → ι → Option σ} {ok : σ → ι → Prop}

/-- A property of the first state that every step keeps holds in the last state of every run. -/
theorem Runs.invariant {Inv : σ → Prop} {s t : σ} {ls : List ι} (h : Runs step ok s ls t)
    (start : Inv s)
    (keep : ∀ s l t, Inv s → ok s l → step s l = some t → Inv t) : Inv t := by
  induction h with
  | nil => exact start
  | snoc _ hok hstep ih => exact keep _ _ _ ih hok hstep

variable {s t : σ}

/-- No step leads nowhere else. -/
theorem Runs.eq_of_nil (h : Runs step ok s [] t) : t = s := by
  generalize none_ : [] = ls at h
  cases h with
  | nil => rfl
  | snoc => simp at none_

variable {ls : List ι}

theorem Runs.mono {ok' : σ → ι → Prop} (h : Runs step ok s ls t)
    (imp : ∀ s l, ok s l → ok' s l) : Runs step ok' s ls t := by
  induction h with
  | nil => exact .nil _
  | snoc _ hok hstep ih => exact .snoc ih (imp _ _ hok) hstep

/-- A condition on the steps may be replaced by one that follows from it and from what every step
keeps. -/
theorem Runs.mono_of_invariant {Inv : σ → Prop} {ok' : σ → ι → Prop} {s t : σ} {ls : List ι}
    (h : Runs step ok s ls t) (start : Inv s)
    (keep : ∀ s l t, Inv s → ok s l → step s l = some t → Inv t)
    (imp : ∀ s l t, Inv s → ok s l → step s l = some t → ok' s l) : Runs step ok' s ls t := by
  induction h with
  | nil => exact .nil _
  | snoc first hok hstep ih =>
    have inv := first.invariant start keep
    exact .snoc ih (imp _ _ _ inv hok hstep) hstep

theorem Runs.trans {s t u : σ} {ls ms : List ι} (h : Runs step ok s ls t)
    (h' : Runs step ok t ms u) : Runs step ok s (ls ++ ms) u := by
  induction h' with
  | nil => simpa using h
  | snoc _ hok hstep ih => rw [← List.append_assoc]; exact .snoc ih hok hstep

/-- What `exec` computes is a run. -/
theorem reaches_of_exec (h : exec step s ls = some t) :
    Reaches step s ls t := by
  induction ls generalizing s with
  | nil => cases h; exact .nil _
  | cons l ls ih =>
    obtain ⟨u, hu, ht⟩ := Option.bind_eq_some_iff.mp h
    exact (Runs.snoc (.nil s) trivial hu).trans (ih ht)

/-- Each of the labels meets `ok` in the state that the ones before it lead to. -/
def OkAlong (step : σ → ι → Option σ) (ok : σ → ι → Prop) : σ → List ι → Prop
  | _, [] => True
  | s, l :: ls => ok s l ∧ ∀ t, step s l = some t → OkAlong step ok t ls

/-- What `exec` computes is a run with a condition on its steps, if they meet it. -/
theorem runs_of_exec (h : exec step s ls = some t)
    (along : OkAlong step ok s ls) : Runs step ok s ls t := by
  induction ls generalizing s with
  | nil => cases h; exact .nil _
  | cons l ls ih =>
    obtain ⟨u, hu, ht⟩ := Option.bind_eq_some_iff.mp h
    exact (Runs.snoc (.nil s) along.1 hu).trans (ih ht (along.2 u hu))

/-- `exec`, with `none` also when a label does not pass the check. -/
def checkedExec (step : σ → ι → Option σ) (check : σ → ι → Bool) : σ → List ι → Option σ
  | s, [] => some s
  | s, l :: ls => if check s l then (step s l).bind fun t => checkedExec step check t ls else none

/-- What `checkedExec` computes is a run whose steps meet every condition that the check implies. -/
theorem runs_of_checkedExec {check : σ → ι → Bool} (sound : ∀ s l, check s l = true → ok s l)
    (h : checkedExec step check s ls = some t) :
    Runs step ok s ls t := by
  induction ls generalizing s with
  | nil => cases h; exact .nil _
  | cons l ls ih =>
    unfold checkedExec at h
    split at h
    · rename_i passes
      obtain ⟨u, hu, ht⟩ := Option.bind_eq_some_iff.mp h
      exact (Runs.snoc (.nil s) (sound s l passes) hu).trans (ih ht)
    · cases h

/-! Lists of operations that may be cut off at any point. -/

section Prefixes

variable (apply : ι → σ → σ)

/-- The state after a list of operations. -/
def applyAll (s : σ) (ls : List ι) : σ := ls.foldl (fun s l => apply l s) s

/-- `P` holds in the first state and after each of the operations. -/
def Along (P : σ → Prop) : σ → List ι → Prop
  | s, [] => P s
  | s, l :: ls => P s ∧ Along P (apply l s) ls

variable {apply}

variable {P : σ → Prop}

theorem Along.head {s : σ} (h : Along apply P s ls) : P s := by
  cases ls with
  | nil => exact h
  | cons l ls => exact h.1

theorem Along.last {s : σ} (h : Along apply P s ls) :
    P (applyAll apply s ls) := by
  induction ls generalizing s with
  | nil => exact h
  | cons l ls ih => exact ih h.2

theorem Along.imp {P Q : σ → Prop} {s : σ} (h : Along apply P s ls)
    (imp : ∀ s, P s → Q s) : Along apply Q s ls := by
  induction ls generalizing s with
  | nil => exact imp _ h
  | cons l ls ih => exact ⟨imp _ h.1, ih h.2⟩

/-- To hold along a list of operations is to hold after every prefix of it. -/
theorem along_iff {s : σ} :
    Along apply P s ls ↔ ∀ k, P (applyAll apply s (ls.take k)) := by
  induction ls generalizing s with
  | nil => simp [Along, applyAll]
  | cons l ls ih =>
    constructor
    · rintro ⟨now, later⟩ k
      cases k with
      | zero => exact now
      | succ k => exact ih.mp later k
    · intro h
      exact ⟨h 0, ih.mpr fun k => h (k + 1)⟩

theorem along_append {s : σ} {as bs : List ι} :
    Along apply P s (as ++ bs) ↔ Along apply P s as ∧ Along apply P (applyAll apply s as) bs := by
  induction as generalizing s with
  | nil => exact ⟨fun h => ⟨h.head, h⟩, fun h => h.2⟩
  | cons a as ih =>
    simp only [List.cons_append, Along, ih, and_assoc]
    rfl

/-- Each operation with the state that it meets. -/
def trace (apply : ι → σ → σ) : σ → List ι → List (σ × ι)
  | _, [] => []
  | s, l :: ls => (s, l) :: trace apply (apply l s) ls

@[simp] theorem applyAll_nil (s : σ) : applyAll apply s [] = s := rfl

@[simp] theorem applyAll_cons (s : σ) (l : ι) (ls : List ι) :
    applyAll apply s (l :: ls) = applyAll apply (apply l s) ls := rfl

end Prefixes

end MailStack.Lib
