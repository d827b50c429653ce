import MailStack.Lib.Machine

/-! Requests that each read a shared value, change it and write it back, in two steps that other
requests may come between, and what becomes of their changes to the fields of the value. -/

namespace MailStack.Lib.ReadModifyWrite

variable {σ ι κ α : Type*}

inductive Phase (σ : Type*)
  | waiting
  | holding (read : σ)
  | done
deriving DecidableEq

/-- The stored value and how far each request is. -/
structure World (σ ι : Type*) where
  stored : σ
  phase : ι → Phase σ

inductive Step (ι : Type*)
  | read (i : ι)
  | write (i : ι)

def start (s : σ) : World σ ι := { stored := s, phase := fun _ => .waiting }

variable [DecidableEq ι] (change : ι → σ → σ)

def step (w : World σ ι) : Step ι → Option (World σ ι)
  | .read i =>
    match w.phase i with
    | .waiting => some { w with phase := Function.update w.phase i (.holding w.stored) }
    | _ => none
  | .write i =>
    match w.phase i with
    | .holding read =>
      some { stored := change i read, phase := Function.update w.phase i .done }
    | _ => none

omit [DecidableEq ι] in
/-- A write finds the value that its request read. -/
def Fresh (w : World σ ι) : Step ι → Prop
  | .read _ => True
  | .write i => w.phase i = .holding w.stored

/-- The requests patch fields of the values of a kind: `patch i k` is what request `i` has for the
field `k`. -/
structure Patches (kind : σ → Prop) (view : σ → κ → α) (patch : ι → κ → Option α) : Prop where
  kept : ∀ i s, kind s → kind (change i s)
  patched : ∀ i s k, kind s → view (change i s) k = (patch i k).getD (view s k)

/-- No field is patched by two requests. -/
def Disjoint (patch : ι → κ → Option α) : Prop :=
  ∀ i j k, i ≠ j → patch i k ≠ none → patch j k = none

/-- The stored value has the patches of the requests that are done, and is as it was elsewhere. -/
structure Holds (kind : σ → Prop) (view : σ → κ → α) (patch : ι → κ → Option α) (s : σ)
    (w : World σ ι) : Prop where
  kind : kind w.stored
  done : ∀ i k a, w.phase i = .done → patch i k = some a → view w.stored k = a
  untouched : ∀ k, (∀ i, patch i k = none) → view w.stored k = view s k

variable {change} {kind : σ → Prop} {view : σ → κ → α} {patch : ι → κ → Option α} {s : σ}
  {w w' : World σ ι}

omit [DecidableEq ι] in
theorem Holds.start (ofKind : kind s) : Holds kind view patch s (start s) :=
  ⟨ofKind, nofun, fun _ _ => rfl⟩

theorem Holds.step (patches : Patches change kind view patch) (disjoint : Disjoint patch)
    (h : Holds kind view patch s w) {l : Step ι} (fresh : Fresh w l)
    (taken : step change w l = some w') : Holds kind view patch s w' := by
  cases l with
  | read i =>
    simp only [ReadModifyWrite.step] at taken
    split at taken
    case h_2 => cases taken
    case h_1 =>
      cases taken
      refine ⟨h.kind, fun j k a finished found => ?_, h.untouched⟩
      by_cases same : j = i
      · rw [same] at finished
        simp at finished
      · exact h.done j k a (by simpa [same] using finished) found
  | write i =>
    have holding : w.phase i = .holding w.stored := fresh
    simp only [ReadModifyWrite.step, holding, Option.some.injEq] at taken
    subst taken
    refine ⟨patches.kept i _ h.kind, fun j k a finished found => ?_, fun k nobody => ?_⟩
    · show view (change i w.stored) k = a
      rw [patches.patched i _ k h.kind]
      by_cases same : j = i
      · rw [← same, found, Option.getD_some]
      · have other : patch i k = none := disjoint j i k same (by simp [found])
        rw [other, Option.getD_none]
        exact h.done j k a (by simpa [same] using finished) found
    · show view (change i w.stored) k = view s k
      rw [patches.patched i _ k h.kind, nobody i, Option.getD_none]
      exact h.untouched k nobody

/-- In a run whose writes are all fresh no patch is lost. -/
theorem Holds.of_runs (patches : Patches change kind view patch) (disjoint : Disjoint patch)
    (ofKind : kind s) {ls : List (Step ι)}
    (run : Runs (ReadModifyWrite.step change) Fresh (ReadModifyWrite.start s) ls w) :
    Holds kind view patch s w :=
  run.invariant (.start ofKind) fun _ _ _ h fresh taken => h.step patches disjoint fresh taken

end MailStack.Lib.ReadModifyWrite
