import MailStack.Lib.Machine
import MailStack.Queue.Runner

/-! The leases on queue entries: any number of runners claim, release and prune over one claims
directory. A release removes the claim file whoever wrote it, so a runner whose lease has run out
can take away the claim of its successor. -/

namespace MailStack.Queue

open Lib

section Leases

variable {R : Type} [DecidableEq R] {id : String}

/-- The claims directory, the claim guards that each runner has not dropped yet, and for the runs'
sake the clock and when each runner last took a claim that it has not released. -/
structure LeaseState (R : Type) where
  claims : ClaimDir
  guards : R → String → Nat
  held : R → String → Option Int
  clock : Int

/-- No runner has a claim yet. Claim files may be left from before. -/
def LeaseState.init (claims : ClaimDir) (clock : Int) : LeaseState R :=
  { claims, guards := fun _ _ => 0, held := fun _ _ => none, clock }

/-- The atomic steps. A try says whether the time could be written into the claim file. An entry
that is removed releases its claim while the guard is still there. -/
inductive LeaseStep (R : Type)
  | tryClaim (runner : R) (id : String) (now : Int) (wrote : Bool)
  | release (runner : R) (id : String)
  | removeEntry (runner : R) (id : String)
  | prune (now : Int)

/-- The claim file that a try at `now` leaves. -/
def claimFile (now : Int) (wrote : Bool) : ClaimFile :=
  { stamp := if wrote then some now else none, modified := now }

def setAt {α : Type} (f : R → String → α) (runner : R) (id : String) (value : α) :
    R → String → α :=
  Function.update f runner (Function.update (f runner) id value)

theorem setAt_self {α : Type} (f : R → String → α) (runner : R) (id : String) (value : α) :
    setAt f runner id value runner id = value := by
  simp [setAt]

theorem setAt_other {α : Type} (f : R → String → α) {runner r : R} {id i : String} (value : α)
    (h : r ≠ runner ∨ i ≠ id) : setAt f runner id value r i = f r i := by
  by_cases same : r = runner
  · subst same
    have other := h.resolve_left (by simp)
    simp [setAt, Function.update_of_ne other]
  · simp [setAt, Function.update_of_ne same]

/-- One step. The clocks are equal, so no step is taken at an earlier time than one before it. -/
def LeaseState.step (s : LeaseState R) : LeaseStep R → Option (LeaseState R)
  | .tryClaim runner id now wrote =>
    if now < s.clock then none
    else
      match Queue.tryClaim s.claims id now (claimFile now wrote) with
      | .ok (true, claims) =>
        some
          { claims
            guards := setAt s.guards runner id (s.guards runner id + 1)
            held := setAt s.held runner id (some now)
            clock := now }
      | _ => some { s with clock := now }
  | .release runner id =>
    if s.guards runner id = 0 then none
    else
      some
        { s with
          claims := releaseClaim s.claims id
          guards := setAt s.guards runner id (s.guards runner id - 1)
          held := setAt s.held runner id none }
  | .removeEntry runner id =>
    if s.guards runner id = 0 then none
    else
      some
        { s with
          claims := releaseClaim s.claims id
          held := setAt s.held runner id none }
  | .prune now =>
    if now < s.clock then none
    else some { s with claims := pruneClaims s.claims now, clock := now }

/-- Runner `r` took the claim of `id` at `t` and has not released it. -/
def LeaseState.Holds (s : LeaseState R) (r : R) (id : String) (t : Int) : Prop :=
  s.held r id = some t

/-- While a runner holds a claim that has not run out, no other runner's try succeeds. -/
def LeaseState.Exclusive (s : LeaseState R) : Prop :=
  ∀ (r r' : R) (id : String) (t now : Int) (wrote : Bool), r' ≠ r → s.Holds r id t →
    s.clock ≤ now → now < t + claimTtlSeconds →
    ∀ claims, Queue.tryClaim s.claims id now (claimFile now wrote) ≠ .ok (true, claims)

/-- A claim is released only while no other runner holds one on the same entry that has not run
out. -/
def LeaseState.Timely (s : LeaseState R) : LeaseStep R → Prop
  | .release runner id | .removeEntry runner id =>
    ∀ r t, r ≠ runner → s.Holds r id t → t + claimTtlSeconds ≤ s.clock
  | _ => True

def ClaimFile.claimedAt (file : ClaimFile) : Int :=
  match file.stamp with
  | some ts => ts
  | none => if file.modified < 0 then 0 else file.modified

theorem claimIsFresh_some {file : ClaimFile} {now : Int} :
    claimIsFresh (some file) now = true ↔ now < file.claimedAt + claimTtlSeconds := by
  have bounds : i64Min < claimTtlSeconds ∧ claimTtlSeconds ≤ i64Max := by decide
  have : claimIsFresh (some file) now =
      decide (clampI64 (now - file.claimedAt) < claimTtlSeconds) := rfl
  rw [this, decide_eq_true_iff, clampI64_lt_iff bounds.1 bounds.2]
  omega

theorem claimFile_claimedAt (now : Int) (wrote : Bool) : now ≤ (claimFile now wrote).claimedAt := by
  cases wrote with
  | true => exact le_refl now
  | false =>
    simp only [claimFile, ClaimFile.claimedAt, Bool.false_eq_true, if_false]
    split <;> omega

/-- A claim that is held has run out, or its file is there and not older than it. -/
def LeaseState.Inv (s : LeaseState R) : Prop :=
  ∀ r id t, s.Holds r id t → t + claimTtlSeconds ≤ s.clock ∨
    ∃ file, s.claims id = some file ∧ t ≤ file.claimedAt

variable {s : LeaseState R}

omit [DecidableEq R] in
theorem LeaseState.Inv.fresh (inv : s.Inv) {r : R} {t now : Int}
    (holds : s.Holds r id t) (later : s.clock ≤ now) (valid : now < t + claimTtlSeconds) :
    claimIsFresh (s.claims id) now = true := by
  obtain past | ⟨file, present, age⟩ := inv r id t holds
  · omega
  · rw [present, claimIsFresh_some]
    omega

theorem tryClaim_cases (claims : ClaimDir) (id : String) (now : Int) (written : ClaimFile) :
    (∀ claims', Queue.tryClaim claims id now written ≠ .ok (true, claims')) ∨
    (claimIsFresh (claims id) now = false ∧
      Queue.tryClaim claims id now written =
        .ok (true, Function.update claims id (some written))) := by
  unfold Queue.tryClaim
  split_ifs with unsafeName fresh
  · exact .inl fun _ => by simp
  · exact .inl fun _ => by simp
  · exact .inr ⟨by simpa using fresh, rfl⟩

omit [DecidableEq R] in
theorem LeaseState.Inv.exclusive (inv : s.Inv) : s.Exclusive := by
  intro r r' id t now wrote _ holds later valid claims
  have fresh := inv.fresh holds later valid
  obtain no | ⟨stale, -⟩ := tryClaim_cases s.claims id now (claimFile now wrote)
  · exact no claims
  · rw [fresh] at stale
    contradiction

omit [DecidableEq R] in
theorem LeaseState.Inv.later {s : LeaseState R} (inv : s.Inv) {now : Int} (h : s.clock ≤ now) :
    ({ s with clock := now } : LeaseState R).Inv := by
  intro r id t holds
  exact (inv r id t holds).imp_left fun past => le_trans past h

/-- A release or a removal of an entry keeps the invariant when nobody else holds a claim that has
not run out. -/
theorem LeaseState.Inv.dropped (inv : s.Inv) {runner : R} (guards : R → String → Nat)
    (timely : ∀ r t, r ≠ runner → s.Holds r id t → t + claimTtlSeconds ≤ s.clock) :
    ({ s with
        claims := releaseClaim s.claims id
        guards
        held := setAt s.held runner id none } : LeaseState R).Inv := by
  intro r i t holds
  simp only [LeaseState.Holds] at holds
  by_cases own : r = runner ∧ i = id
  · obtain ⟨rfl, rfl⟩ := own
    rw [setAt_self] at holds
    contradiction
  · rw [setAt_other _ _ (not_and_or.mp own)] at holds
    by_cases same : i = id
    · subst same
      exact .inl (timely r t (fun h => own ⟨h, rfl⟩) holds)
    · refine (inv r i t holds).imp_right ?_
      rintro ⟨file, present, age⟩
      refine ⟨file, ?_, age⟩
      unfold releaseClaim
      split_ifs
      · simpa [Function.update_of_ne same] using present
      · exact present

theorem LeaseState.Inv.step {s s' : LeaseState R} {l : LeaseStep R} (inv : s.Inv)
    (timely : s.Timely l) (h : s.step l = some s') : s'.Inv := by
  cases l with
  | tryClaim runner id now wrote =>
    simp only [LeaseState.step] at h
    split at h
    · contradiction
    rename_i early
    have later : s.clock ≤ now := by omega
    obtain no | ⟨stale, yes⟩ := tryClaim_cases s.claims id now (claimFile now wrote)
    · split at h
      · rename_i claims result
        exact absurd result (no claims)
      · cases h
        exact inv.later later
    · rw [yes] at h
      cases h
      intro r i t holds
      simp only [LeaseState.Holds] at holds
      by_cases own : r = runner ∧ i = id
      · obtain ⟨rfl, rfl⟩ := own
        rw [setAt_self] at holds
        cases holds
        exact .inr ⟨claimFile now wrote, by simp, claimFile_claimedAt now wrote⟩
      · rw [setAt_other _ _ (not_and_or.mp own)] at holds
        by_cases same : i = id
        · -- the claim of another runner: it was stale, so it has run out
          subst same
          refine .inl ?_
          by_contra valid
          have fresh := inv.fresh holds later (by simpa using valid)
          rw [fresh] at stale
          contradiction
        · obtain past | ⟨file, present, age⟩ := inv r i t holds
          · exact .inl (le_trans past later)
          · exact .inr ⟨file, by simpa [Function.update_of_ne same] using present, age⟩
  | release runner id =>
    simp only [LeaseState.step] at h
    split at h
    · contradiction
    · cases h
      exact inv.dropped _ timely
  | removeEntry runner id =>
    simp only [LeaseState.step] at h
    split at h
    · contradiction
    · cases h
      exact inv.dropped _ timely
  | prune now =>
    simp only [LeaseState.step] at h
    split at h
    · contradiction
    rename_i early
    cases h
    intro r i t holds
    by_cases past : t + claimTtlSeconds ≤ now
    · exact .inl past
    · have fresh := inv.fresh holds (by omega : s.clock ≤ now) (by omega)
      refine (inv r i t holds).imp (fun old => ?_) ?_
      · omega
      · rintro ⟨file, present, age⟩
        rw [present] at fresh
        exact ⟨file, by simp [pruneClaims, fresh, present], age⟩

omit [DecidableEq R] in
theorem LeaseState.init_inv (claims : ClaimDir) (clock : Int) :
    (LeaseState.init claims clock : LeaseState R).Inv := by
  intro r id t holds
  cases holds

/-- In every run in which no claim is released while another runner holds an unexpired one on the
same entry, claims are exclusive in every state. -/
theorem claims_exclusive_of_timely_releases {claims : ClaimDir} {clock : Int}
    {ls : List (LeaseStep R)} {s : LeaseState R}
    (run : Runs LeaseState.step LeaseState.Timely (LeaseState.init claims clock) ls s) :
    s.Exclusive :=
  (run.invariant (LeaseState.init_inv claims clock) fun _ _ _ inv timely h => inv.step timely h).exclusive

end Leases

/-- Runner 0 claims, its lease runs out, runner 1 takes over, runner 0 releases late. -/
def lateRelease : List (LeaseStep Nat) :=
  [.tryClaim 0 "q1" 0 true, .tryClaim 1 "q1" 900 true, .release 0 "q1"]

theorem claims_exclusive_after_takeover :
    ∃ s, Runs LeaseState.step LeaseState.Timely (LeaseState.init (fun _ => none) 0)
      (lateRelease.take 2) s ∧ s.Exclusive := by
  have run : Runs LeaseState.step LeaseState.Timely
      (LeaseState.init (fun _ => none) 0 : LeaseState Nat)
      ([] ++ [.tryClaim 0 "q1" 0 true] ++ [.tryClaim 1 "q1" 900 true]) _ :=
    (Runs.nil _).snoc trivial rfl |>.snoc trivial rfl
  exact ⟨_, run, claims_exclusive_of_timely_releases run⟩

/-- After the late release a third runner claims the entry that runner 1 holds. -/
theorem late_release_takes_successors_claim :
    ¬∀ (ls : List (LeaseStep Nat)) (s : LeaseState Nat),
      Reaches LeaseState.step (LeaseState.init (fun _ => none) 0) ls s → s.Exclusive := by
  intro claim
  have run : exec LeaseState.step (LeaseState.init (fun _ => none) 0) lateRelease = some _ := rfl
  exact claim lateRelease _ (reaches_of_exec run) 1 2 "q1" 900 901 true (by decide) rfl
    (by decide) (by decide) _ rfl

end MailStack.Queue
