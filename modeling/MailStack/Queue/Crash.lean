import MailStack.Queue.Conservation

/-! Crashes in a delivery round: what is left of the recipients when the round is cut off between
two of its store operations. The entry is rewritten before the bounces are stored, so the recipients
that are given up are in no entry for a while. -/

namespace MailStack.Queue

open Lib Smtp

/-! ### What a round gives up -/

/-- The transport reports another number of accepted recipients than it was handed. -/
def miscounts (recipients : List String) : DeliveryResult → Bool
  | .ok receipt => receipt.accepted ≠ recipients.length
  | .error _ => false

def attemptsAfter (attempts : Nat) (attempted : List String) : DeliveryResult → Nat
  | .ok _ => attempts
  | .error failure =>
    if (failedOf attempted failure).isEmpty || failure.failureClass = .permanent then attempts
    else satAdd u32Max attempts 1

def accepts (tried : Bool) (recipients : List String) (result : DeliveryResult) : List String :=
  if tried then acceptedBy recipients result else []

/-- Whom a transport's result makes the runner give up, if the transport is tried. -/
def drops (backoff : BackoffPolicy) (attempts : Nat) (tried : Bool) (recipients : List String)
    (result : DeliveryResult) : List String :=
  if tried then reported (bouncesOf backoff attempts recipients result) else []

/-- The recipients that a round takes off the stored entry although no transport accepts them: a
transport fails for them for good, or at the last attempt. A local miscount ends the round at once.
After a remote miscount the entry is only rewritten if somebody is left on it. -/
def givenUp (runner : QueueRunner) (env : Env) (policy : RelayPolicy) (entry : QueueEntry)
    (world : World) : List String :=
  let backoff := runner.config.backoff
  let (locals, remotes) := partition entry policy
  let localTried := !locals.isEmpty
  let remoteTried := !remotes.isEmpty && (runner.mayAttemptRemote world).1
  let accepted := accepts localTried locals env.localResult
  let dropped := drops backoff entry.attempts localTried locals env.localResult
  let attempts :=
    if localTried then attemptsAfter entry.attempts locals env.localResult else entry.attempts
  if localTried && miscounts locals env.localResult then []
  else if remoteTried && miscounts remotes env.remoteResult then
    if entry.recipients.all fun r => accepted.contains r || dropped.contains r then []
    else dropped.filter fun r => !accepted.contains r
  else
    (dropped ++ drops backoff attempts remoteTried remotes env.remoteResult).filter fun r =>
      !accepted.contains r && !(accepts remoteTried remotes env.remoteResult).contains r

variable {result : DeliveryResult} {backoff : BackoffPolicy} {attempted : List String} {now : Int}
  {target : DeliveryTarget} {world world' : World} {policy : RelayPolicy} {tried : Bool}
  {op : StoreOp} {id : String}

theorem applyResult_attempts {round round' : Round}
    (h : applyResult backoff round attempted result now = some round') :
    round'.entry.attempts = attemptsAfter round.entry.attempts attempted result := by
  cases result with
  | ok receipt =>
    simp only [applyResult] at h
    split at h
    · cases h
    · cases h
      rfl
  | error failure =>
    simp only [applyResult, Option.some.injEq] at h
    subst h
    by_cases acc : failure.accepted = [] <;> by_cases none : failedOf attempted failure = [] <;>
      cases cls : failure.failureClass <;>
      by_cases ex : backoff.exhausted (satAdd u32Max round.entry.attempts 1) = true <;>
      simp [applyFailure, attemptsAfter, none, acc, cls, ex, removeRecipients,
        BackoffPolicy.onFailure]

theorem applyResult_miscounts {round : Round} :
    applyResult backoff round attempted result now = none ↔ miscounts attempted result = true := by
  cases result with
  | ok receipt => simp [applyResult, miscounts]
  | error failure => simp [applyResult, miscounts]

variable {r : String} {trace : List Event} {recipients : List String}

theorem acceptedIn_snoc :
    AcceptedIn (trace ++ [.delivered target recipients result]) r ↔
      AcceptedIn trace r ∨ r ∈ acceptedBy recipients result := by
  constructor
  · rintro ⟨t, rs, res, mem, hr⟩
    rcases List.mem_append.mp mem with old | new
    · exact .inl ⟨t, rs, res, old, hr⟩
    · cases List.mem_singleton.mp new
      exact .inr hr
  · rintro (h | h)
    · exact h.append _
    · exact ⟨target, recipients, result, by simp, h⟩

theorem Half.exact {round round' : Round}
    (h : Half backoff now attempted target result tried round world (some round', world')) :
    (tried && miscounts attempted result) = false ∧
      reported round'.pending = reported round.pending ++
        drops backoff round.entry.attempts tried attempted result ∧
      round'.entry.attempts = (if tried then attemptsAfter round.entry.attempts attempted result
        else round.entry.attempts) ∧
      (∀ r, r ∈ round'.entry.recipients ↔ r ∈ round.entry.recipients ∧
        r ∉ accepts tried attempted result ∧
        r ∉ drops backoff round.entry.attempts tried attempted result) ∧
      ∀ r, AcceptedIn world'.trace r ↔
        AcceptedIn world.trace r ∨ r ∈ accepts tried attempted result := by
  cases h with
  | skipped tried entry pending mutated store trace =>
    simp [tried, drops, accepts, entry, pending, trace]
  | counted tried applied store trace =>
    obtain ⟨-, -, -, -, -, hpend, hrec⟩ := applyResult_spec applied
    have right : miscounts attempted result = false := by
      by_contra wrong
      have := applied.symm.trans (applyResult_miscounts.mpr (Bool.not_eq_false _ ▸ wrong))
      contradiction
    refine ⟨by simp [right], ?_, ?_, ?_, ?_⟩
    · simp [tried, drops, hpend]
    · simp [tried, applyResult_attempts applied]
    · simpa [tried, drops, accepts] using hrec
    · intro r
      rw [trace, acceptedIn_snoc]
      simp [tried, accepts]

/-! ### The operations of a round, one after the other -/

/-- `r` is a recipient of a stored entry, or named in a stored bounce other than the entry `id`
itself. -/
def Held (id r : String) (store : QueueStore) : Prop :=
  (∃ id', ListedIn store id' r) ∨
    ∃ id' dsn, id' ≠ id ∧ store.entries id' = some dsn ∧ dsn.kind = .bounce ∧
      NamesFailed dsn.data r

/-- What the bounces of a round, and the write-back after a failed one, do to the stored entries:
who is on the stored entry and on the round's entry stays there, and who is on the stored entry and
to be bounced is held throughout. -/
structure FlushOps (round : Round) (store : QueueStore) (ops : List StoreOp) : Prop where
  listed : ∀ r ∈ round.entry.recipients, ListedIn store round.entry.id r →
    Along StoreOp.apply (fun s => ListedIn s round.entry.id r) store ops
  bounced : ∀ r ∈ reported round.pending, ListedIn store round.entry.id r →
    Along StoreOp.apply (Held round.entry.id r) store ops

theorem FlushOps.nil (round : Round) (store : QueueStore) : FlushOps round store [] :=
  ⟨fun _ _ h => h, fun _ _ h => .inl ⟨_, h⟩⟩

variable {entry : QueueEntry}

theorem along_bounces {store : QueueStore} {ops : List StoreOp}
    (bounces : ∀ op ∈ ops, ∃ dsn failed, op = .bounce dsn failed ∧ dsn.id ≠ id)
    (stored : store.entries id = some entry) :
    Along StoreOp.apply (fun s => s.entries id = some entry) store ops := by
  induction ops generalizing store with
  | nil => exact stored
  | cons op ops ih =>
    obtain ⟨dsn, failed, rfl, other⟩ := bounces op List.mem_cons_self
    refine ⟨stored, ih (fun op mem => bounces op (List.mem_cons_of_mem _ mem)) ?_⟩
    change (store.put dsn).entries id = some entry
    rw [QueueStore.put_entries, Function.update_of_ne other.symm, stored]

theorem mem_durableOps {events : List Event} :
    op ∈ durableOps events ↔ Event.done op ∈ events := by
  simp only [durableOps, List.mem_filterMap]
  constructor
  · rintro ⟨ev, mem, h⟩
    cases ev <;> simp_all
  · intro mem
    exact ⟨_, mem, rfl⟩

theorem flushBounces_ops (runner : QueueRunner) (env : Env) (now : Int) (round : Round)
    (world : World) :
    ∃ ops, durableOps
        (runner.flushBounces env now round.entry round.outcome round.pending world).2.trace =
        durableOps world.trace ++ ops ∧ FlushOps round world.store ops := by
  obtain ⟨entry', outcome', error, world', events, run, spec⟩ :=
    flushLoop_spec runner env now round.pending round.entry round.outcome none world
  have stays : ∀ {r}, ListedIn world.store round.entry.id r →
      Along StoreOp.apply (fun s => ListedIn s round.entry.id r) world.store
        (durableOps events) := by
    rintro r ⟨e, stored, mem⟩
    refine (along_bounces ?_ stored).imp fun s hs => ⟨e, hs, mem⟩
    intro op hop
    obtain ⟨dsn, failed, rfl, free, -, -⟩ := spec.stored op hop
    refine ⟨dsn, failed, rfl, fun same => ?_⟩
    rw [same, stored] at free
    contradiction
  cases error with
  | none =>
    have result : runner.flushBounces env now round.entry round.outcome round.pending world =
        (.ok outcome', world') := by
      simp only [QueueRunner.flushBounces, run]
      rfl
    rw [result]
    refine ⟨durableOps events, by rw [spec.trace, durableOps_append], ?_, ?_⟩
    · exact fun r _ listed => stays listed
    · exact fun r _ listed => (stays listed).imp fun s hs => .inl ⟨_, hs⟩
  | some e =>
    have result : runner.flushBounces env now round.entry round.outcome round.pending world =
        (.error e, (enqueue env entry' world').2) := by
      simp only [QueueRunner.flushBounces, run]
      rfl
    have id : entry'.id = round.entry.id := by rw [spec.shape]
    rw [result]
    obtain ⟨_, -, -, htrace⟩ | ⟨-, -, htrace⟩ := enqueue_cases env entry' world'
    · refine ⟨durableOps events, by rw [htrace, spec.trace]; simp, ?_, ?_⟩
      · exact fun r _ listed => stays listed
      · exact fun r _ listed => (stays listed).imp fun s hs => .inl ⟨_, hs⟩
    · have written : (StoreOp.apply (.update entry')
          (storeAfter world.store (durableOps events))).entries round.entry.id = some entry' := by
        change (QueueStore.put _ entry').entries _ = _
        rw [QueueStore.put_entries, id, Function.update_self]
      refine ⟨durableOps events ++ [.update entry'], by rw [htrace, spec.trace]; simp, ?_, ?_⟩
      · intro r hr listed
        refine along_append.mpr ⟨stays listed, (stays listed).last, ?_⟩
        exact (listedIn_of_stored written).mpr (spec.grows hr)
      · intro r hr listed
        have before := stays listed
        refine along_append.mpr ⟨before.imp fun s hs => .inl ⟨_, hs⟩, .inl ⟨_, before.last⟩, ?_⟩
        rcases spec.settled r hr with none | ⟨dsn, failed, mem, -, names⟩ | back
        · cases spec.silent none
        · -- the bounce that names `r` has an id of its own
          obtain ⟨dsn', failed', same, free, present, kind⟩ :=
            spec.stored _ (mem_durableOps.mpr mem)
          cases same
          have other : dsn.id ≠ round.entry.id := by
            rintro same
            obtain ⟨e, stored, -⟩ := listed
            rw [same, stored] at free
            contradiction
          refine .inr ⟨dsn.id, dsn, other, ?_, kind.1, names⟩
          change (QueueStore.put _ entry').entries _ = _
          rw [QueueStore.put_entries, id, Function.update_of_ne other]
          rwa [spec.writes] at present
        · exact .inl ⟨_, (listedIn_of_stored written).mpr back⟩

section NoFaults

variable {env : Env} (sound : ∀ n, env.fault n = none)

include sound

theorem enqueue_sound (valid : entry.validate = .ok ()) (world : World) :
    (enqueue env entry world).1 = .ok () ∧
      (enqueue env entry world).2.store = (StoreOp.update entry).apply world.store ∧
      (enqueue env entry world).2.trace = world.trace ++ [.done (.update entry)] := by
  simp [enqueue, valid, World.attempt, sound, StoreOp.apply]

theorem remove_sound (safe : isSafeId id = true) (world : World) :
    ∃ existed, (remove env id world).1 = .ok existed ∧
      (remove env id world).2.store = (StoreOp.remove id).apply world.store ∧
      (remove env id world).2.trace = world.trace ++ [.done (.remove id)] := by
  simp [remove, safe, World.attempt, sound, StoreOp.apply, QueueStore.erase, releaseClaim]

end NoFaults

/-- The first operation of a round that gives somebody up: it rewrites the entry, or removes it when
nobody is left. -/
def Rewrites (round : Round) (op : StoreOp) : Prop :=
  op = .remove round.entry.id ∧ round.entry.recipients = [] ∨ op = .update round.entry

/-! ### No transport is called at the end of a round -/

theorem enqueue_deliveries (env : Env) (entry : QueueEntry) (world : World) :
    deliveries (enqueue env entry world).2.trace = deliveries world.trace := by
  obtain ⟨_, -, -, h⟩ | ⟨-, -, h⟩ := enqueue_cases env entry world <;> simp [h]

theorem remove_deliveries (env : Env) (id : String) (world : World) :
    deliveries (remove env id world).2.trace = deliveries world.trace := by
  obtain ⟨_, -, -, h⟩ | ⟨_, -, -, h⟩ := remove_cases env id world <;> simp [h]

theorem flushBounces_deliveries (runner : QueueRunner) (env : Env) (now : Int)
    (entry : QueueEntry) (outcome : EntryOutcome) (pending : List PendingBounce) (world : World) :
    deliveries (runner.flushBounces env now entry outcome pending world).2.trace =
      deliveries world.trace := by
  obtain ⟨entry', outcome', error, world', events, run, spec⟩ :=
    flushLoop_spec runner env now pending entry outcome none world
  have flushed : deliveries world'.trace = deliveries world.trace := by
    rw [spec.trace, deliveries_append, spec.quiet, List.append_nil]
  unfold QueueRunner.flushBounces
  rw [run]
  cases error with
  | none => exact flushed
  | some e => exact (enqueue_deliveries env entry' world').trans flushed

theorem finish_deliveries (runner : QueueRunner) (env : Env) (now : Int) (round : Round)
    (world : World) :
    deliveries (runner.finish env now round world).2.trace = deliveries world.trace := by
  have gone := remove_deliveries env round.entry.id world
  have written := enqueue_deliveries env round.entry world
  unfold QueueRunner.finish
  simp only
  generalize remove env round.entry.id world = removed at gone ⊢
  generalize enqueue env round.entry world = enqueued at written ⊢
  obtain ⟨_ | _, _⟩ := removed <;> obtain ⟨_ | _, _⟩ := enqueued <;>
    cases round.entry.validate <;> split_ifs <;>
    simp_all [flushBounces_deliveries, World.refuse]

theorem abandon_deliveries (runner : QueueRunner) (env : Env) (now : Int) (round : Round)
    (world : World) :
    deliveries (runner.abandon env now round world).trace = deliveries world.trace := by
  unfold QueueRunner.abandon persistBestEffort
  simp only
  split_ifs <;> simp [flushBounces_deliveries, enqueue_deliveries]

section Ends

variable {orig : QueueEntry} {acc : String → Prop} {round : Round} {env : Env}
  (sound : ∀ n, env.fault n = none) (valid : orig.validate = .ok ())

include sound valid

theorem finish_ops (runner : QueueRunner) (now : Int) (acct : Accounted orig acc round)
    (world : World) :
    (round.pending = [] ∧
      durableOps (runner.finish env now round world).2.trace = durableOps world.trace ∧
      round.entry = orig) ∨
    ∃ op ops, durableOps (runner.finish env now round world).2.trace =
        durableOps world.trace ++ op :: ops ∧
      Rewrites round op ∧ FlushOps round (op.apply world.store) ops := by
  by_cases empty : round.entry.recipients = []
  · right
    have safe : isSafeId round.entry.id = true := by
      rw [acct.id]; exact (QueueEntry.validate_iff.mp valid).1
    obtain ⟨existed, h1, h2, h3⟩ := remove_sound sound safe world
    simp only [QueueRunner.finish, empty, List.isEmpty_nil, if_true]
    generalize remove env round.entry.id world = result at h1 h2 h3
    obtain ⟨status, next⟩ := result
    simp only at h1 h2 h3
    subst h1
    obtain ⟨ops, trace, flush⟩ := flushBounces_ops runner env now round next
    refine ⟨.remove round.entry.id, ops, ?_, .inl ⟨rfl, empty⟩, h2 ▸ flush⟩
    simp only
    rw [trace, h3]
    simp
  · have left : round.entry.recipients.isEmpty = false := by simpa using empty
    cases mutated : round.mutated with
    | true =>
      right
      have valid' : round.entry.validate = .ok () :=
        QueueEntry.validate_of_subset valid acct.id acct.mailFrom acct.data acct.subset empty
      obtain ⟨h1, h2, h3⟩ := enqueue_sound sound valid' world
      simp only [QueueRunner.finish, left, mutated, valid', Bool.false_eq_true, if_false, if_true]
      generalize enqueue env round.entry world = result at h1 h2 h3
      obtain ⟨status, next⟩ := result
      simp only at h1 h2 h3
      subst h1
      obtain ⟨ops, trace, flush⟩ := flushBounces_ops runner env now round next
      refine ⟨.update round.entry, ops, ?_, .inr rfl, h2 ▸ flush⟩
      simp only
      rw [trace, h3]
      simp
    | false =>
      obtain ⟨same, none⟩ := acct.untouched mutated
      refine .inl ⟨none, ?_, same⟩
      simp [QueueRunner.finish, left, mutated, none, QueueRunner.flushBounces,
        QueueRunner.flushLoop]

theorem abandon_ops (runner : QueueRunner) (now : Int) (acct : Accounted orig acc round)
    (world : World) :
    (round.pending = [] ∧ round.entry = orig ∧
      durableOps (runner.abandon env now round world).trace = durableOps world.trace) ∨
    (round.entry.recipients = [] ∧
      ∃ ops, durableOps (runner.abandon env now round world).trace = durableOps world.trace ++ ops ∧
        FlushOps round world.store ops) ∨
    (round.entry.recipients ≠ [] ∧
      ∃ op ops, durableOps (runner.abandon env now round world).trace =
          durableOps world.trace ++ op :: ops ∧
        Rewrites round op ∧ FlushOps round (op.apply world.store) ops) := by
  cases mutated : round.mutated with
  | false =>
    obtain ⟨same, none⟩ := acct.untouched mutated
    exact .inl ⟨none, same, by simp [QueueRunner.abandon, mutated, none]⟩
  | true =>
    right
    simp only [QueueRunner.abandon, mutated, if_true, persistBestEffort]
    by_cases empty : round.entry.recipients = []
    · -- an entry without recipients is not written
      left
      have refused : ∃ e, round.entry.validate = .error e := by
        cases h : round.entry.validate with
        | error e => exact ⟨e, rfl⟩
        | ok u => exact absurd empty (QueueEntry.validate_iff.mp h).2.1
      obtain ⟨e, refused⟩ := refused
      refine ⟨empty, ?_⟩
      simp only [enqueue, refused]
      by_cases none : round.pending.isEmpty = true
      · exact ⟨[], by simp [none, World.refuse], .nil _ _⟩
      · obtain ⟨ops, trace, flush⟩ := flushBounces_ops runner env now round
          (world.refuse (.update round.entry))
        refine ⟨ops, ?_, flush⟩
        simp only [none, Bool.false_eq_true, if_false]
        rw [trace]
        simp [World.refuse]
    · right
      refine ⟨empty, .update round.entry, ?_⟩
      have valid' : round.entry.validate = .ok () :=
        QueueEntry.validate_of_subset valid acct.id acct.mailFrom acct.data acct.subset empty
      obtain ⟨h1, h2, h3⟩ := enqueue_sound sound valid' world
      by_cases none : round.pending.isEmpty = true
      · refine ⟨[], ?_, .inr rfl, .nil _ _⟩
        simp [none, h3]
      · obtain ⟨ops, trace, flush⟩ := flushBounces_ops runner env now round
          (enqueue env round.entry world).2
        refine ⟨ops, ?_, .inr rfl, h2 ▸ flush⟩
        simp only [none, Bool.false_eq_true, if_false]
        rw [trace, h3]
        simp

end Ends

/-! ### A whole round -/

theorem mayAttemptRemote_congr (runner : QueueRunner)
    (health : world'.health = world.health) (used : world'.halfOpenUsed = world.halfOpenUsed) :
    (runner.mayAttemptRemote world').1 = (runner.mayAttemptRemote world).1 := by
  unfold QueueRunner.mayAttemptRemote
  rw [health, used]
  split_ifs <;> rfl

theorem localHalf_health (runner : QueueRunner) (env : Env) (now : Int) (recipients : List String)
    (round : Round) (world : World) :
    (runner.localHalf env now recipients round world).2.health = world.health ∧
      (runner.localHalf env now recipients round world).2.halfOpenUsed = world.halfOpenUsed := by
  unfold QueueRunner.localHalf
  split_ifs <;> exact ⟨rfl, rfl⟩

theorem acceptedBy_miscount
    (h : miscounts recipients result = true) : acceptedBy recipients result = [] := by
  cases result with
  | ok receipt =>
    have wrong : receipt.accepted ≠ recipients.length := by simpa [miscounts] using h
    simp [acceptedBy, wrong]
  | error failure => simp [miscounts] at h

theorem OnlyDeliveries.durableOps (h : OnlyDeliveries trace) :
    durableOps trace = [] := by
  refine List.eq_nil_iff_forall_not_mem.mpr fun op mem => ?_
  obtain ⟨_, _, _, impossible⟩ := h _ (mem_durableOps.mp mem)
  cases impossible

/-- The operations of a round: none, or the bounces alone when a miscount left an entry that is not
rewritten, or first the entry is rewritten without the recipients that were given up. -/
theorem process_ops (runner : QueueRunner) {env : Env} (now : Int) (policy : RelayPolicy)
    (world : World) (sound : ∀ n, env.fault n = none)
    (valid : entry.validate = .ok ()) (start : world.trace = [])
    (ht : trace = (runner.process env now policy entry world).2.trace) :
    (durableOps trace = [] ∧ givenUp runner env policy entry world = []) ∨
    (∃ round, Accounted entry (AcceptedIn trace) round ∧ round.entry.recipients = [] ∧
      givenUp runner env policy entry world = [] ∧
      FlushOps round world.store (durableOps trace)) ∨
    ∃ round op ops, Accounted entry (AcceptedIn trace) round ∧ durableOps trace = op :: ops ∧
      Rewrites round op ∧ FlushOps round (op.apply world.store) ops ∧
      ∀ r, r ∈ givenUp runner env policy entry world ↔
        r ∈ reported round.pending ∧ ¬AcceptedIn trace r := by
  have body : trace = (runner.processBody env now policy entry world).2.trace := ht
  have first := localHalf_spec runner env now (partition entry policy).1 (Round.start entry) world
  have circuit := mayAttemptRemote_congr runner
    (localHalf_health runner env now (partition entry policy).1 (Round.start entry) world).1
    (localHalf_health runner env now (partition entry policy).1 (Round.start entry) world).2
  simp only [QueueRunner.processBody] at body
  generalize runner.localHalf env now (partition entry policy).1 (Round.start entry) world =
    half at first body circuit
  obtain ⟨_ | round1, world1⟩ := half
  · cases first with
    | miscounted tried applied store trace1 =>
      have wrong := applyResult_miscounts.mp applied
      refine .inl ⟨?_, ?_⟩
      · rw [body, trace1, start]
        rfl
      · simp only [givenUp, tried, wrong, Bool.and_self, if_true]
  · obtain ⟨acct1, store1, quiet1, apart1⟩ := first.begins start
    obtain ⟨right1, pending1, attempts1, listed1, accepted1⟩ := first.exact
    have second := remoteHalf_spec runner env now (partition entry policy).2 round1 world1
    rw [show reported (Round.start entry).pending = [] from rfl, List.nil_append] at pending1
    simp only [Round.start] at pending1 listed1 attempts1
    have accepted1 : ∀ r, AcceptedIn world1.trace r ↔
        r ∈ accepts (!(partition entry policy).1.isEmpty) (partition entry policy).1
          env.localResult := by
      intro r
      rw [accepted1 r, start]
      simp [AcceptedIn]
    simp only at body
    rw [circuit] at second
    generalize runner.remoteHalf env now (partition entry policy).2 round1 world1 =
      half at second body
    obtain ⟨_ | round2, world2⟩ := half
    · -- the remote transport miscounted
      cases second with
      | miscounted tried applied store2 trace2 =>
        have wrong := applyResult_miscounts.mp applied
        have quiet2 : OnlyDeliveries world2.trace := by rw [trace2]; exact quiet1.snoc _ _ _
        have accepted : ∀ r, AcceptedIn trace r ↔ AcceptedIn world1.trace r := by
          intro r
          rw [← acceptedIn_deliveries, body, abandon_deliveries, acceptedIn_deliveries, trace2,
            acceptedIn_snoc, acceptedBy_miscount wrong]
          simp
        have acct2 : Accounted entry (AcceptedIn trace) round1 :=
          acct1.weaken fun r hr => (accepted r).mpr hr
        have given : givenUp runner env policy entry world =
            if entry.recipients.all fun r =>
              (accepts (!(partition entry policy).1.isEmpty) (partition entry policy).1
                env.localResult).contains r || (reported round1.pending).contains r then []
            else (reported round1.pending).filter fun r =>
              !(accepts (!(partition entry policy).1.isEmpty) (partition entry policy).1
                env.localResult).contains r := by
          simp only [givenUp, right1, tried, wrong, Bool.and_self, if_true, Bool.false_eq_true,
            if_false]
          rw [← pending1]
        obtain ⟨none, same, ops⟩ | ⟨empty, ops, htrace, flush⟩ |
          ⟨left, op, ops, htrace, rewrites, flush⟩ :=
          abandon_ops sound valid runner now acct2 world2
        · refine .inl ⟨by rw [body, ops, quiet2.durableOps], ?_⟩
          rw [given, none]
          simp [reported]
        · refine .inr (.inl ⟨round1, acct2, empty, ?_, ?_⟩)
          · rw [given, if_pos]
            simp only [List.all_eq_true, Bool.or_eq_true, List.contains_iff_mem]
            intro r hr
            by_contra stays
            rw [not_or] at stays
            have listed := (listed1 r).mpr ⟨hr, stays.1, pending1 ▸ stays.2⟩
            rw [empty] at listed
            exact List.not_mem_nil listed
          · rw [body, htrace, quiet2.durableOps, List.nil_append, ← store1, ← store2]
            exact flush
        · refine .inr (.inr ⟨round1, op, ops, acct2, ?_, rewrites, ?_, ?_⟩)
          · rw [body, htrace, quiet2.durableOps, List.nil_append]
          · rw [← store1, ← store2]
            exact flush
          · intro r
            rw [given, if_neg, List.mem_filter, accepted r, accepted1 r]
            · simp
            · obtain ⟨x, hx⟩ := List.exists_mem_of_ne_nil _ left
              obtain ⟨here, notAccepted, notDropped⟩ := (listed1 x).mp hx
              rw [← pending1] at notDropped
              simp only [List.all_eq_true, Bool.or_eq_true, List.contains_iff_mem]
              exact fun all => (all x here).elim notAccepted notDropped
    · -- both were counted right
      obtain ⟨acct2, store2, quiet2, -⟩ := second.accounted acct1 apart1 quiet1
      obtain ⟨right2, pending2, -, -, accepted2⟩ := second.exact
      have accepted : ∀ r, AcceptedIn trace r ↔ AcceptedIn world2.trace r := by
        intro r
        rw [← acceptedIn_deliveries, body, finish_deliveries, acceptedIn_deliveries]
      have acct : Accounted entry (AcceptedIn trace) round2 :=
        acct2.weaken fun r hr => (accepted r).mpr hr
      have given : ∀ r, r ∈ givenUp runner env policy entry world ↔
          r ∈ reported round2.pending ∧ ¬AcceptedIn trace r := by
        intro r
        rw [accepted r, accepted2 r, accepted1 r, pending2, pending1, attempts1]
        simp only [givenUp, right1, right2, Bool.false_eq_true, if_false, List.mem_filter]
        simp
      obtain ⟨none, htrace, same⟩ | ⟨op, ops, htrace, rewrites, flush⟩ :=
        finish_ops sound valid runner now acct world2
      · refine .inl ⟨by rw [body, htrace, quiet2.durableOps], ?_⟩
        refine List.eq_nil_iff_forall_not_mem.mpr fun r hr => ?_
        have lost := ((given r).mp hr).1
        rw [none] at lost
        simp [reported] at lost
      · refine .inr (.inr ⟨round2, op, ops, acct, ?_, rewrites, ?_, given⟩)
        · rw [body, htrace, quiet2.durableOps, List.nil_append]
        · rw [← store1, ← store2]
          exact flush

theorem drops_subset {attempts : Nat}
    (h : r ∈ drops backoff attempts tried recipients result) : r ∈ recipients := by
  unfold drops at h
  split_ifs at h
  · exact bouncesOf_subset h
  · exact absurd h List.not_mem_nil

theorem partition_subset
    (h : r ∈ (partition entry policy).1 ∨ r ∈ (partition entry policy).2) :
    r ∈ entry.recipients :=
  h.elim List.mem_of_mem_filter List.mem_of_mem_filter

theorem givenUp_subset {runner : QueueRunner} {env : Env} {world : World}
    (h : r ∈ givenUp runner env policy entry world) : r ∈ entry.recipients := by
  apply partition_subset
  simp only [givenUp] at h
  split_ifs at h
  · exact absurd h List.not_mem_nil
  · exact absurd h List.not_mem_nil
  · exact .inl (drops_subset (List.mem_of_mem_filter h))
  all_goals
    rcases List.mem_append.mp (List.mem_of_mem_filter h) with h | h
    · exact .inl (drops_subset h)
    · exact .inr (drops_subset h)

def World.onStore (world : World) (store : QueueStore) : World := { world with store }

theorem givenUp_congr (runner : QueueRunner) (env : Env) (policy : RelayPolicy)
    (entry : QueueEntry) (world : World) (store : QueueStore) :
    givenUp runner env policy entry (world.onStore store) =
      givenUp runner env policy entry world := by
  have circuit : (runner.mayAttemptRemote (world.onStore store)).1 =
      (runner.mayAttemptRemote world).1 := mayAttemptRemote_congr runner rfl rfl
  simp only [givenUp, circuit]

/-- A round may be cut off after any of its operations: each recipient that no transport accepted is
then on a stored entry or named in a stored bounce, unless the sender is null. -/
def CrashSafe (runner : QueueRunner) (env : Env) (now : Int) (policy : RelayPolicy)
    (entry : QueueEntry) (world : World) : Prop :=
  ∀ store : QueueStore, store.entries entry.id = some entry →
    ∀ r ∈ entry.recipients,
      ¬AcceptedIn (runner.process env now policy entry (world.onStore store)).2.trace r →
      entry.isNullSender = false →
      ∀ k, Held entry.id r (storeAfter store ((durableOps
        (runner.process env now policy entry (world.onStore store)).2.trace).take k))

/-- The queue that holds `entry` and nothing else. -/
def QueueStore.single (entry : QueueEntry) : QueueStore :=
  { entries := Function.update (fun _ => none) entry.id (some entry)
    reserved := fun _ => false
    claims := fun _ => none }

theorem not_held_after_rewrite {acc : String → Prop} {round : Round}
    (acct : Accounted entry acc round) (rewrites : Rewrites round op)
    (off : r ∉ round.entry.recipients) : ¬Held entry.id r (op.apply (.single entry)) := by
  have others : ∀ id, id ≠ entry.id → (op.apply (.single entry)).entries id = none := by
    intro id other
    obtain ⟨rfl, -⟩ | rfl := rewrites <;>
      simp [StoreOp.apply, QueueStore.put, QueueStore.erase, QueueStore.single, acct.id, other]
  rintro (⟨id, e, stored, listed⟩ | ⟨id, dsn, other, stored, -, -⟩)
  · by_cases same : id = entry.id
    · subst same
      obtain ⟨rfl, -⟩ | rfl := rewrites
      · simp [StoreOp.apply, QueueStore.erase, acct.id] at stored
      · simp only [StoreOp.apply, QueueStore.put, acct.id, Function.update_self,
          Option.some.injEq] at stored
        exact off (stored ▸ listed)
    · rw [others id same] at stored
      contradiction
  · rw [others id other] at stored
    contradiction

/-- A round of a stored entry whose operations do not fail is safe against a crash exactly when
nobody is given up in it, or the sender is null. -/
theorem crashSafe_iff (runner : QueueRunner) (env : Env) (now : Int) (policy : RelayPolicy)
    (entry : QueueEntry) (world : World) (sound : ∀ n, env.fault n = none)
    (valid : entry.validate = .ok ()) (start : world.trace = []) :
    CrashSafe runner env now policy entry world ↔
      entry.isNullSender = true ∨ givenUp runner env policy entry world = [] := by
  constructor
  · intro safe
    by_contra both
    obtain ⟨sender, given⟩ := not_or.mp both
    obtain ⟨r, lost⟩ := List.exists_mem_of_ne_nil _ given
    rw [← givenUp_congr runner env policy entry world (.single entry)] at lost given
    obtain ⟨-, none⟩ | ⟨_, -, -, none, -⟩ | ⟨round, op, ops, acct, htrace, rewrites, -, hgiven⟩ :=
      process_ops runner now policy (world.onStore (.single entry)) sound valid start rfl
    · exact given none
    · exact given none
    · obtain ⟨bounced, unaccepted⟩ := (hgiven r).mp lost
      have held := safe (.single entry) (by simp [QueueStore.single]) r (givenUp_subset lost)
        unaccepted (by simpa using sender) 1
      rw [htrace] at held
      exact not_held_after_rewrite acct rewrites (acct.apart r bounced) held
  · rintro (null | none) store stored r hr unaccepted sender
    · rw [null] at sender
      contradiction
    · refine along_iff (P := Held entry.id r) |>.mp ?_
      rw [← givenUp_congr runner env policy entry world store] at none
      have listed : ListedIn store entry.id r := (listedIn_of_stored stored).mpr hr
      obtain ⟨ops, -⟩ | ⟨round, acct, empty, -, flush⟩ |
          ⟨round, op, ops, acct, htrace, rewrites, flush, hgiven⟩ :=
        process_ops runner now policy (world.onStore store) sound valid start rfl
      · rw [ops]
        exact .inl ⟨_, listed⟩
      · rcases acct.cover r hr with h | h | h
        · exact absurd h unaccepted
        · rw [empty] at h
          exact absurd h List.not_mem_nil
        · rw [← acct.id] at listed ⊢
          exact flush.bounced r h listed
      · rcases acct.cover r hr with h | h | h
        · exact absurd h unaccepted
        · rw [htrace]
          refine ⟨.inl ⟨_, listed⟩, ?_⟩
          obtain ⟨-, empty⟩ | rfl := rewrites
          · rw [empty] at h
            exact absurd h List.not_mem_nil
          · have written : ListedIn ((StoreOp.update round.entry).apply store) round.entry.id r :=
              ⟨round.entry, by simp [StoreOp.apply], h⟩
            exact (flush.listed r h written).imp fun s hs => .inl ⟨_, hs⟩
        · have lost := (hgiven r).mpr ⟨h, unaccepted⟩
          rw [none] at lost
          exact absurd lost List.not_mem_nil

def deferringEnv : Env :=
  { rejectingEnv none with
    remoteResult := .error { rejected with failureClass := .transient, code := some 451 } }

/-- A deferred recipient survives a crash at every point. -/
theorem crashSafe_deferred :
    CrashSafe plainRunner deferringEnv 0 (RelayPolicy.new ["example.org"]) rejectedEntry
      (plainWorld rejectedEntry) :=
  (crashSafe_iff plainRunner deferringEnv 0 (RelayPolicy.new ["example.org"]) rejectedEntry
    (plainWorld rejectedEntry) (fun _ => rfl) rfl rfl).mpr (.inr (by decide +kernel))

/-- The remote transport rejects the only recipient: after the entry is removed and before the
bounce is stored, the queue holds nothing of it. -/
theorem crash_loses_rejected_recipient :
    ¬CrashSafe plainRunner (rejectingEnv none) 0 (RelayPolicy.new ["example.org"]) rejectedEntry
      (plainWorld rejectedEntry) := by
  intro safe
  have unaccepted : ¬AcceptedIn (afterRejection none rejectedEntry).trace "r@remote.net" := by
    rw [← acceptedIn_deliveries, show deliveries (afterRejection none rejectedEntry).trace =
      [.delivered (.remote .direct) ["r@remote.net"] (.error rejected)] by decide +kernel]
    rintro ⟨_, _, _, mem, accepted⟩
    cases List.mem_singleton.mp mem
    simp [acceptedBy, rejected] at accepted
  have first : (durableOps (afterRejection none rejectedEntry).trace).take 1 =
      [.remove "q1"] := by decide +kernel
  have whole : (plainWorld rejectedEntry).onStore (plainWorld rejectedEntry).store =
      plainWorld rejectedEntry := rfl
  have held := safe (plainWorld rejectedEntry).store rfl "r@remote.net" (by decide)
  rw [whole, show (plainRunner.process (rejectingEnv none) 0 (RelayPolicy.new ["example.org"])
    rejectedEntry (plainWorld rejectedEntry)).2 = afterRejection none rejectedEntry from rfl]
    at held
  replace held := held unaccepted (by decide) 1
  rw [first] at held
  have empty : ∀ id, (storeAfter (plainWorld rejectedEntry).store [.remove "q1"]).entries id =
      none := by
    intro id
    by_cases same : id = "q1"
    · rw [same]; rfl
    · simp [storeAfter, StoreOp.apply, plainWorld, same, rejectedEntry, plainEntry,
        QueueEntry.draft]
  rcases held with ⟨id, e, stored, -⟩ | ⟨id, dsn, -, stored, -⟩ <;> cases (empty id).symm.trans stored

end MailStack.Queue
