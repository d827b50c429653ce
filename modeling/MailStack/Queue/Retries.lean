import MailStack.Queue.Crash

/-! The retry budget: how far the counter of attempts goes in a round, and when a recipient that is
only ever deferred is bounced. The halves of a round count separately. -/

namespace MailStack.Queue

open Lib Smtp

/-- A call that leaves recipients to be tried again. -/
def defers (attempted : List String) : DeliveryResult → Bool
  | .ok _ => false
  | .error failure =>
    !(failedOf attempted failure).isEmpty && failure.failureClass = .transient

theorem attemptsAfter_eq (attempts : Nat) (attempted : List String) (result : DeliveryResult) :
    attemptsAfter attempts attempted result =
      if defers attempted result then satAdd u32Max attempts 1 else attempts := by
  cases result with
  | ok receipt => rfl
  | error failure =>
    by_cases none : failedOf attempted failure = [] <;> cases cls : failure.failureClass <;>
      simp [attemptsAfter, defers, none, cls]

/-- The end of a round: the bounces name only recipients that were given up, and entries are new
bounces or have the counter of the round. -/
structure Closed (round : Round) (before after : World) (events : List Event) : Prop where
  trace : after.trace = before.trace ++ events
  named : ∀ r, NamedIn events r → r ∈ reported round.pending
  entries : ∀ id e, after.store.entries id = some e →
    before.store.entries id = some e ∨ e.attempts = round.entry.attempts ∨ e.attempts = 0

variable {id : String} {attempted : List String} {result : DeliveryResult} {events : List Event}
  {entry : QueueEntry}

theorem storeAfter_bounces {ops : List StoreOp}
    (h : ∀ op ∈ ops, ∃ dsn failed, op = .bounce dsn failed ∧ dsn.attempts = 0)
    (store : QueueStore) {e : QueueEntry} (stored : (storeAfter store ops).entries id = some e) :
    store.entries id = some e ∨ e.attempts = 0 := by
  induction ops generalizing store with
  | nil => exact .inl stored
  | cons op ops ih =>
    obtain ⟨dsn, failed, rfl, fresh⟩ := h op List.mem_cons_self
    rcases ih (fun op mem => h op (List.mem_cons_of_mem _ mem)) (store.put dsn) stored with old | new
    · rw [QueueStore.put_entries] at old
      by_cases same : id = dsn.id
      · rw [same, Function.update_self] at old
        cases old
        exact .inr fresh
      · rw [Function.update_of_ne same] at old
        exact .inl old
    · exact .inr new

theorem put_attempts {store : QueueStore} {entry e : QueueEntry}
    (stored : (store.put entry).entries id = some e) :
    store.entries id = some e ∨ e.attempts = entry.attempts := by
  rw [QueueStore.put_entries] at stored
  by_cases same : id = entry.id
  · rw [same, Function.update_self] at stored
    cases stored
    exact .inr rfl
  · rw [Function.update_of_ne same] at stored
    exact .inl stored

section Ends

variable (runner : QueueRunner) (env : Env) (now : Int) (round : Round)

theorem enqueue_closed (same : entry.attempts = round.entry.attempts)
    (world : World) :
    ∃ events, Closed round world (enqueue env entry world).2 events ∧
      ∀ r, ¬NamedIn events r := by
  obtain ⟨_, -, store, trace⟩ | ⟨-, store, trace⟩ := enqueue_cases env entry world
  · refine ⟨_, ⟨trace, fun r h => absurd h (by simp), fun id e stored => .inl ?_⟩, by simp⟩
    rwa [store] at stored
  · refine ⟨_, ⟨trace, fun r h => absurd h (by simp), fun id e stored => ?_⟩, by simp⟩
    rw [store] at stored
    rcases put_attempts stored with old | new
    · exact .inl old
    · exact .inr (.inl (new.trans same))

variable {r : String}

theorem namedIn_append {a b : List Event} :
    NamedIn (a ++ b) r ↔ NamedIn a r ∨ NamedIn b r := by
  constructor
  · rintro ⟨dsn, failed, mem, rest⟩
    exact (List.mem_append.mp mem).imp (⟨dsn, failed, ·, rest⟩) (⟨dsn, failed, ·, rest⟩)
  · rintro (⟨dsn, failed, mem, rest⟩ | ⟨dsn, failed, mem, rest⟩)
    · exact ⟨dsn, failed, List.mem_append_left _ mem, rest⟩
    · exact ⟨dsn, failed, List.mem_append_right _ mem, rest⟩

variable {round} in
theorem Closed.trans {a b c : World} {first second : List Event} (h : Closed round a b first)
    (h' : Closed round b c second) : Closed round a c (first ++ second) := by
  refine ⟨by rw [h'.trace, h.trace, List.append_assoc], fun r named => ?_, fun id e stored => ?_⟩
  · exact (namedIn_append.mp named).elim (h.named r) (h'.named r)
  · rcases h'.entries id e stored with old | new
    · exact h.entries id e old
    · exact .inr new

theorem flushBounces_closed (world : World) :
    ∃ events, Closed round world
      (runner.flushBounces env now round.entry round.outcome round.pending world).2 events := by
  obtain ⟨entry', outcome', error, world', events, run, spec⟩ :=
    flushLoop_spec runner env now round.pending round.entry round.outcome none world
  have closed : Closed round world world' events := by
    refine ⟨spec.trace, spec.named, fun id e stored => ?_⟩
    rw [spec.writes] at stored
    refine (storeAfter_bounces (fun op mem => ?_) _ stored).imp_right .inr
    obtain ⟨dsn, failed, rfl, -, -, -, fresh⟩ := spec.stored op mem
    exact ⟨dsn, failed, rfl, fresh⟩
  simp only [QueueRunner.flushBounces, run]
  cases error with
  | none => exact ⟨events, closed⟩
  | some e =>
    have same : entry'.attempts = round.entry.attempts := by rw [spec.shape]
    obtain ⟨more, written, -⟩ := enqueue_closed env round same world'
    exact ⟨events ++ more, closed.trans written⟩

theorem finish_closed (world : World) :
    ∃ events, Closed round world (runner.finish env now round world).2 events := by
  simp only [QueueRunner.finish]
  split
  · have step := remove_cases env round.entry.id world
    generalize remove env round.entry.id world = result at step ⊢
    obtain ⟨status, next⟩ := result
    obtain ⟨e, rfl, store, trace⟩ | ⟨existed, rfl, store, trace⟩ := step
    · refine ⟨_, trace, fun r h => absurd h (by simp), fun id e stored => .inl ?_⟩
      rwa [store] at stored
    · have removed : Closed round world next [.done (.remove round.entry.id)] := by
        refine ⟨trace, fun r h => absurd h (by simp), fun id e stored => .inl ?_⟩
        rw [show next.store.entries = _ from store, QueueStore.erase_entries] at stored
        by_cases same : id = round.entry.id
        · rw [same, Function.update_self] at stored
          cases stored
        · rwa [Function.update_of_ne same] at stored
      obtain ⟨more, flushed⟩ := flushBounces_closed runner env now round next
      exact ⟨_, removed.trans flushed⟩
  split
  · split
    · exact ⟨_, rfl, fun r h => absurd h (by simp), fun _ _ stored => .inl stored⟩
    · obtain ⟨events, written, -⟩ := enqueue_closed env round rfl world
      generalize enqueue env round.entry world = result at written ⊢
      obtain ⟨status, next⟩ := result
      cases status with
      | error e => exact ⟨events, written⟩
      | ok u =>
        obtain ⟨more, flushed⟩ := flushBounces_closed runner env now round next
        exact ⟨_, written.trans flushed⟩
  · exact flushBounces_closed runner env now round world

theorem abandon_closed (world : World) :
    ∃ events, Closed round world (runner.abandon env now round world) events := by
  simp only [QueueRunner.abandon]
  have first : ∃ events, Closed round world
      (if round.mutated then persistBestEffort env round.entry world else world) events := by
    split
    · obtain ⟨events, written, -⟩ := enqueue_closed env round rfl world
      exact ⟨events, written⟩
    · exact ⟨[], by simp, fun r h => absurd h (by simp), fun _ _ stored => .inl stored⟩
  obtain ⟨events, written⟩ := first
  generalize (if round.mutated then persistBestEffort env round.entry world else world) = next
    at written ⊢
  split
  · exact ⟨events, written⟩
  · obtain ⟨more, flushed⟩ := flushBounces_closed runner env now round next
    exact ⟨_, written.trans flushed⟩

end Ends

/-- A transport that was handed `r` failed for good. -/
def RejectedIn (trace : List Event) (r : String) : Prop :=
  ∃ target recipients failure,
    Event.delivered target recipients (.error failure) ∈ trace ∧ r ∈ recipients ∧
      failure.failureClass = .permanent

/-- How many of the halves of a round defer recipients. -/
def deferrals (runner : QueueRunner) (env : Env) (policy : RelayPolicy) (entry : QueueEntry)
    (world : World) : Nat :=
  let (locals, remotes) := partition entry policy
  (defers locals env.localResult).toNat +
    ((runner.mayAttemptRemote world).1 && defers remotes env.remoteResult).toNat

theorem defers_nil (result : DeliveryResult) : defers [] result = false := by
  cases result <;> simp [defers, failedOf]

variable {backoff : BackoffPolicy}

/-- Whom the result of a call gives up was rejected, or met the last attempt. -/
theorem bouncesOf_spent {attempts : Nat}
    (h : r ∈ reported (bouncesOf backoff attempts attempted result)) :
    (∃ failure, result = .error failure ∧ failure.failureClass = .permanent) ∨
      defers attempted result = true ∧ backoff.maxAttempts ≤ attempts + 1 := by
  cases result with
  | ok receipt => simp [bouncesOf, reported] at h
  | error failure =>
    simp only [bouncesOf] at h
    split at h
    · simp [reported] at h
    rename_i some
    split at h
    · rename_i larger
      cases cls : failure.failureClass with
      | permanent => exact .inl ⟨failure, rfl, cls⟩
      | transient =>
        have last : backoff.maxAttempts ≤ satAdd u32Max attempts 1 := by
          simpa [cls, BackoffPolicy.exhausted] using larger
        have step := satAdd_le u32Max attempts 1
        exact .inr ⟨by simpa [defers, cls] using some, by omega⟩
    · simp [reported] at h

/-- A half of a round counts one attempt if it defers, and gives up only whom it rejects or whose
attempts are spent. -/
theorem Half.spent {now : Int}
    {target : DeliveryTarget} {tried : Bool} {round round' : Round}
    {world world' : World}
    (h : Half backoff now attempted target result tried round world (some round', world')) :
    ∃ events, world'.trace = world.trace ++ events ∧ (∀ r, ¬NamedIn events r) ∧
      round'.entry.attempts ≤ round.entry.attempts + (tried && defers attempted result).toNat ∧
      ∀ r ∈ reported round'.pending, r ∈ reported round.pending ∨ RejectedIn events r ∨
        backoff.maxAttempts ≤ round.entry.attempts + (tried && defers attempted result).toNat := by
  cases h with
  | skipped tried entry pending mutated store trace =>
    refine ⟨[], by simp [trace], by simp, by simp [entry], fun r mem => .inl ?_⟩
    rwa [pending] at mem
  | counted tried applied store trace =>
    obtain ⟨-, -, -, -, -, pending, -⟩ := applyResult_spec applied
    refine ⟨_, trace, ?_, ?_, fun r mem => ?_⟩
    · rintro r ⟨_, _, mem, -⟩
      simp at mem
    · rw [applyResult_attempts applied, attemptsAfter_eq, tried, Bool.true_and]
      have step := satAdd_le u32Max round.entry.attempts 1
      cases defers attempted result
      · simp
      · simpa using step
    · rw [pending, reported_append, List.mem_append] at mem
      rcases mem with old | given
      · exact .inl old
      right
      have handed := bouncesOf_subset given
      obtain ⟨failure, rfl, cls⟩ | ⟨deferred, last⟩ := bouncesOf_spent given
      · exact .inl ⟨target, attempted, failure, by simp, handed, cls⟩
      · right
        rw [tried, deferred]
        exact last

/-- From `before` to `after` the counter of the entry went up by `spent` at most, and recipients
were bounced that were rejected or had so many attempts behind them. -/
def Spends (backoff : BackoffPolicy) (entry : QueueEntry) (spent : Nat) (before after : World) :
    Prop :=
  ∃ events, after.trace = before.trace ++ events ∧
    (∀ id e, after.store.entries id = some e →
      before.store.entries id = some e ∨ e.attempts ≤ entry.attempts + spent) ∧
    ∀ r, NamedIn events r → RejectedIn events r ∨ backoff.maxAttempts ≤ entry.attempts + spent

theorem RejectedIn.append (h : RejectedIn events r)
    (more : List Event) : RejectedIn (events ++ more) r := by
  obtain ⟨target, recipients, failure, mem, rest⟩ := h
  exact ⟨target, recipients, failure, List.mem_append_left _ mem, rest⟩

theorem RejectedIn.prepend (h : RejectedIn events r)
    (before : List Event) : RejectedIn (before ++ events) r := by
  obtain ⟨target, recipients, failure, mem, rest⟩ := h
  exact ⟨target, recipients, failure, List.mem_append_right _ mem, rest⟩

theorem Closed.spends {spent : Nat} {round : Round}
    {start before after : World} {events more : List Event} (h : Closed round before after more)
    (trace : before.trace = start.trace ++ events) (store : before.store = start.store)
    (unnamed : ∀ r, ¬NamedIn events r) (count : round.entry.attempts ≤ entry.attempts + spent)
    (given : ∀ r ∈ reported round.pending,
      RejectedIn events r ∨ backoff.maxAttempts ≤ entry.attempts + spent) :
    Spends backoff entry spent start after := by
  refine ⟨events ++ more, by rw [h.trace, trace, List.append_assoc], ?_, ?_⟩
  · intro id e stored
    rcases h.entries id e stored with old | same | zero
    · exact .inl (store ▸ old)
    · exact .inr (same ▸ count)
    · exact .inr (by omega)
  · intro r named
    have later := (namedIn_append.mp named).resolve_left (unnamed r)
    exact (given r (h.named r later)).imp_left (·.append more)

/-- A round spends as many attempts as halves of it defer. -/
theorem process_spends (runner : QueueRunner) (env : Env) (now : Int) (policy : RelayPolicy)
    (entry : QueueEntry) (world : World) :
    Spends runner.config.backoff entry (deferrals runner env policy entry world) world
      (runner.process env now policy entry world).2 := by
  have first := localHalf_spec runner env now (partition entry policy).1 (Round.start entry) world
  have circuit := mayAttemptRemote_congr runner
    (localHalf_health runner env now (partition entry policy).1 (Round.start entry) world).1
    (localHalf_health runner env now (partition entry policy).1 (Round.start entry) world).2
  have spent : deferrals runner env policy entry world =
      (defers (partition entry policy).1 env.localResult).toNat +
        ((runner.mayAttemptRemote world).1 &&
          defers (partition entry policy).2 env.remoteResult).toNat := rfl
  -- the store's claims are not looked at
  suffices body : Spends runner.config.backoff entry (deferrals runner env policy entry world) world
      (runner.processBody env now policy entry world).2 from body
  simp only [QueueRunner.processBody]
  generalize runner.localHalf env now (partition entry policy).1 (Round.start entry) world =
    half at first circuit ⊢
  obtain ⟨_ | round1, world1⟩ := half
  · cases first with
    | miscounted tried applied store trace =>
      refine ⟨_, trace, fun id e stored => .inl (store ▸ stored), ?_⟩
      rintro r ⟨_, _, mem, -⟩
      simp at mem
  obtain ⟨events1, trace1, unnamed1, count1, given1⟩ := first.spent
  have store1 : world1.store = world.store := by cases first <;> assumption
  have second := remoteHalf_spec runner env now (partition entry policy).2 round1 world1
  rw [circuit] at second
  simp only [Round.start] at count1 given1
  have locals : (!(partition entry policy).1.isEmpty && defers (partition entry policy).1
      env.localResult) = defers (partition entry policy).1 env.localResult := by
    cases (partition entry policy).1 with
    | nil => simp [defers_nil]
    | cons first rest => simp
  rw [locals] at count1 given1
  have given1' : ∀ r ∈ reported round1.pending, RejectedIn events1 r ∨
      runner.config.backoff.maxAttempts ≤
        entry.attempts + (defers (partition entry policy).1 env.localResult).toNat := by
    intro r mem
    exact (given1 r mem).resolve_left (by simp [reported])
  simp only
  generalize runner.remoteHalf env now (partition entry policy).2 round1 world1 = half at second ⊢
  obtain ⟨_ | round2, world2⟩ := half
  · -- the remote transport miscounted
    cases second with
    | miscounted tried applied store2 trace2 =>
      obtain ⟨more, closed⟩ := abandon_closed runner env now round1 world2
      refine closed.spends (by rw [trace2, trace1, List.append_assoc])
        (store2.trans store1) ?_ (by omega) fun r mem => ?_
      · intro r named
        refine (namedIn_append.mp named).elim (unnamed1 r) ?_
        rintro ⟨_, _, mem, -⟩
        simp at mem
      · exact (given1' r mem).imp (·.append _) (by omega)
  · obtain ⟨events2, trace2, unnamed2, count2, given2⟩ := second.spent
    have store2 : world2.store = world1.store := by cases second <;> assumption
    have remotes : (!(partition entry policy).2.isEmpty && (runner.mayAttemptRemote world).1 &&
        defers (partition entry policy).2 env.remoteResult) =
        ((runner.mayAttemptRemote world).1 &&
          defers (partition entry policy).2 env.remoteResult) := by
      cases (partition entry policy).2 with
      | nil => simp [defers_nil]
      | cons first rest => simp
    rw [remotes] at count2 given2
    obtain ⟨more, closed⟩ := finish_closed runner env now round2 world2
    refine closed.spends (by rw [trace2, trace1, List.append_assoc]) (store2.trans store1) ?_
      (by omega) fun r mem => ?_
    · exact fun r named => (namedIn_append.mp named).elim (unnamed1 r) (unnamed2 r)
    · rcases given2 r mem with old | rejected | last
      · exact (given1' r old).imp (·.append _) (by omega)
      · exact .inl (rejected.prepend _)
      · exact .inr (by omega)

/-- What a round of an entry finds, apart from the store: its surroundings, the time, the policy,
and what the rounds of other entries left in the runner's memory. -/
structure Turn where
  env : Env
  now : Int
  policy : RelayPolicy
  health : OutboundHealthState
  halfOpenUsed : Bool

def Turn.enter (turn : Turn) (world : World) : World :=
  { world with health := turn.health, halfOpenUsed := turn.halfOpenUsed }

/-- A round of the entry stored under `id`. -/
def QueueRunner.round (runner : QueueRunner) (id : String) (world : World) (turn : Turn) :
    Option World :=
  (world.store.entries id).map fun entry =>
    (runner.process turn.env turn.now turn.policy entry (turn.enter world)).2

/-- One transport at most defers in the turn. -/
def QueueRunner.OneDefers (runner : QueueRunner) (id : String) (world : World)
    (turn : Turn) : Prop :=
  ∀ entry, world.store.entries id = some entry →
    deferrals runner turn.env turn.policy entry (turn.enter world) ≤ 1

/-- The last of `rounds` rounds, from `s` to `t`, counts one attempt at most, and bounces a
recipient that was never rejected only if there were as many rounds as there are attempts. -/
def KeepsBudget (runner : QueueRunner) (id : String) (rounds : Nat) (s t : World) : Prop :=
  (∀ e e', s.store.entries id = some e → t.store.entries id = some e' →
    e'.attempts ≤ e.attempts + 1) ∧
  ∀ events, t.trace = s.trace ++ events → ∀ r, NamedIn events r → ¬RejectedIn t.trace r →
    runner.config.backoff.maxAttempts ≤ rounds

/-- A round in which one half defers at most counts one attempt. -/
theorem round_keeps {runner : QueueRunner} {rounds : Nat} {s t : World} {turn : Turn}
    (count : ∀ e, s.store.entries id = some e → e.attempts ≤ rounds)
    (ok : runner.OneDefers id s turn) (step : runner.round id s turn = some t) :
    (∀ e, t.store.entries id = some e → e.attempts ≤ rounds + 1) ∧
      KeepsBudget runner id (rounds + 1) s t := by
  obtain ⟨entry, stored, rfl⟩ := Option.map_eq_some_iff.mp step
  have one := ok entry stored
  have before := count entry stored
  obtain ⟨events, trace, entries, named⟩ :=
    process_spends runner turn.env turn.now turn.policy entry
    (turn.enter s)
  have grows : ∀ e',
      (runner.process turn.env turn.now turn.policy entry (turn.enter s)).2.store.entries
      id = some e' → e'.attempts ≤ entry.attempts + 1 := by
    intro e' after
    rcases entries id e' after with old | less
    · cases Option.some.inj (stored.symm.trans old)
      omega
    · omega
  refine ⟨fun e' after => by have := grows e' after; omega, fun e e' here after => ?_, ?_⟩
  · have same : entry = e := Option.some.inj (stored.symm.trans here)
    exact same ▸ grows e' after
  · intro events' trace' r bounced unrejected
    have same : events = events' := List.append_cancel_left (trace.symm.trans trace')
    rcases named r (same ▸ bounced) with rejected | spent
    · rw [trace] at unrejected
      exact absurd (rejected.prepend _) unrejected
    · omega

/-- Both transports defer, and no store operation fails. -/
def bothDefer : Turn :=
  { env := { deferringEnv with localResult := deferringEnv.remoteResult }
    now := 0
    policy := RelayPolicy.new ["example.org"]
    health := {}
    halfOpenUsed := false }

def mixedEntry : QueueEntry := plainEntry "a@example.org" ["r@example.org", "r@remote.net"]

/-- A check that gives `OneDefers` for the entry. -/
def oneDefers (world : World) (turn : Turn) : Bool :=
  (world.store.entries "q1").all fun entry =>
    decide (deferrals plainRunner turn.env turn.policy entry (turn.enter world) ≤ 1)

theorem oneDefers_sound (world : World) (turn : Turn) (check : oneDefers world turn = true) :
    plainRunner.OneDefers "q1" world turn := by
  intro entry stored
  rw [oneDefers, stored, Option.all_some] at check
  exact of_decide_eq_true check

end MailStack.Queue
