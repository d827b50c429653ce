import MailStack.Lib.Machine
import MailStack.Queue.Runner

/-! What the parts of a delivery round can do: the store operations, the two calls of a transport,
and the bounces. -/

namespace MailStack.Queue

open Lib Smtp

def acceptedBy (recipients : List String) : DeliveryResult → List String
  | .ok receipt => if receipt.accepted = recipients.length then recipients else []
  | .error failure => failure.accepted

/-- Some transport reported `r` as accepted. -/
def AcceptedIn (trace : List Event) (r : String) : Prop :=
  ∃ target recipients result,
    Event.delivered target recipients result ∈ trace ∧ r ∈ acceptedBy recipients result

/-- A bounce that reports `r` was stored. -/
def NamedIn (trace : List Event) (r : String) : Prop :=
  ∃ dsn failed, Event.done (.bounce dsn failed) ∈ trace ∧ r ∈ failed ∧ NamesFailed dsn.data r

/-- `r` is a recipient of the entry stored under `id`. -/
def ListedIn (store : QueueStore) (id r : String) : Prop :=
  ∃ entry, store.entries id = some entry ∧ r ∈ entry.recipients

/-- No bounce is sent for the entry: it is a bounce itself, or its sender is null or no address that
a bounce can be sent to. -/
def NoBounce (entry : QueueEntry) : Prop := entry.kind = .bounce ∨ dsnRecipient entry = none

def Event.isFailed : Event → Bool
  | .failed _ => true
  | _ => false

def failures (trace : List Event) : Nat := trace.countP Event.isFailed

@[simp] theorem failures_append (a b : List Event) :
    failures (a ++ b) = failures a + failures b := List.countP_append

@[simp] theorem failures_nil : failures [] = 0 := rfl

@[simp] theorem failures_done (op : StoreOp) (events : List Event) :
    failures (.done op :: events) = failures events :=
  List.countP_cons_of_neg (by simp [Event.isFailed])

@[simp] theorem failures_failed (op : StoreOp) (events : List Event) :
    failures (.failed op :: events) = failures events + 1 := List.countP_cons_of_pos rfl

@[simp] theorem failures_delivered (target : DeliveryTarget) (recipients : List String)
    (result : DeliveryResult) (events : List Event) :
    failures (.delivered target recipients result :: events) = failures events :=
  List.countP_cons_of_neg (by simp [Event.isFailed])

/-- The operations of a round that took effect. -/
def durableOps (trace : List Event) : List StoreOp :=
  trace.filterMap fun
    | .done op => some op
    | _ => none

@[simp] theorem durableOps_append (a b : List Event) :
    durableOps (a ++ b) = durableOps a ++ durableOps b := List.filterMap_append

@[simp] theorem durableOps_nil : durableOps [] = [] := rfl

@[simp] theorem durableOps_done (op : StoreOp) (events : List Event) :
    durableOps (.done op :: events) = op :: durableOps events := rfl

@[simp] theorem durableOps_failed (op : StoreOp) (events : List Event) :
    durableOps (.failed op :: events) = durableOps events := rfl

@[simp] theorem durableOps_delivered (target : DeliveryTarget) (recipients : List String)
    (result : DeliveryResult) (events : List Event) :
    durableOps (.delivered target recipients result :: events) = durableOps events := rfl

def Event.isDelivery : Event → Bool
  | .delivered _ _ _ => true
  | _ => false

def deliveries (trace : List Event) : List Event := trace.filter Event.isDelivery

@[simp] theorem deliveries_append (a b : List Event) :
    deliveries (a ++ b) = deliveries a ++ deliveries b := List.filter_append ..

@[simp] theorem deliveries_nil : deliveries [] = [] := rfl

@[simp] theorem deliveries_done (op : StoreOp) (events : List Event) :
    deliveries (.done op :: events) = deliveries events := rfl

@[simp] theorem deliveries_failed (op : StoreOp) (events : List Event) :
    deliveries (.failed op :: events) = deliveries events := rfl

variable {r : String}

theorem acceptedIn_deliveries {trace : List Event} :
    AcceptedIn (deliveries trace) r ↔ AcceptedIn trace r := by
  simp [AcceptedIn, deliveries, Event.isDelivery]

abbrev storeAfter (store : QueueStore) (ops : List StoreOp) : QueueStore :=
  applyAll StoreOp.apply store ops

theorem attempt_cases (world : World) (env : Env) (op : StoreOp) (error : String → QueueError) :
    (∃ message, world.attempt env op error = (.error (error message),
      { world with calls := world.calls + 1, trace := world.trace ++ [.failed op] })) ∨
    world.attempt env op error = (.ok (),
      { world with
        store := op.apply world.store
        calls := world.calls + 1
        trace := world.trace ++ [.done op] }) := by
  unfold World.attempt
  cases env.fault world.calls with
  | none => exact .inr rfl
  | some message => exact .inl ⟨message, rfl⟩

/-- Writing an entry either leaves the store as it was and counts as a failure, or the entry passed
the check and is stored. -/
theorem enqueue_cases (env : Env) (entry : QueueEntry) (world : World) :
    (∃ e, (enqueue env entry world).1 = .error e ∧
      (enqueue env entry world).2.store = world.store ∧
      (enqueue env entry world).2.trace = world.trace ++ [.failed (.update entry)]) ∨
    ((enqueue env entry world).1 = .ok () ∧
      (enqueue env entry world).2.store = world.store.put entry ∧
      (enqueue env entry world).2.trace = world.trace ++ [.done (.update entry)]) := by
  unfold enqueue
  cases entry.validate with
  | error e => exact .inl ⟨e, rfl, rfl, rfl⟩
  | ok u =>
    obtain ⟨message, h⟩ | h := attempt_cases world env (.update entry) .storage
    · exact .inl ⟨_, by rw [h], by rw [h], by rw [h]⟩
    · exact .inr ⟨by rw [h], by rw [h]; rfl, by rw [h]⟩

theorem remove_cases (env : Env) (id : String) (world : World) :
    (∃ e, (remove env id world).1 = .error e ∧
      (remove env id world).2.store.entries = world.store.entries ∧
      (remove env id world).2.trace = world.trace ++ [.failed (.remove id)]) ∨
    (∃ existed, (remove env id world).1 = .ok existed ∧
      (remove env id world).2.store.entries = (world.store.erase id).entries ∧
      (remove env id world).2.trace = world.trace ++ [.done (.remove id)]) := by
  unfold remove
  by_cases safe : isSafeId id = true
  · simp only [safe, Bool.not_true, Bool.false_eq_true, if_false]
    obtain ⟨message, h⟩ | h := attempt_cases
      { world with store := { world.store with claims := releaseClaim world.store.claims id } }
      env (.remove id) (.io id)
    · exact .inl ⟨_, by rw [h], by rw [h], by rw [h]⟩
    · exact .inr ⟨_, by rw [h], by rw [h]; rfl, by rw [h]⟩
  · exact .inl ⟨unsafeId id, by simp [safe], by simp [safe, World.refuse],
      by simp [safe, World.refuse]⟩

/-- What one try to store a new entry can do: nothing is stored, or the entry is stored under an id
that was free and is its own or a drawn one. -/
theorem enqueueNewLoop_cases (env : Env) (failed : List String) (n : Nat) (entry : QueueEntry)
    (world : World) :
    (∃ e d, (enqueueNewLoop env failed n entry world).1 = .error e ∧
      (enqueueNewLoop env failed n entry world).2.store = world.store ∧
      (enqueueNewLoop env failed n entry world).2.trace =
        world.trace ++ [.failed (.bounce d failed)]) ∨
    (∃ id, (enqueueNewLoop env failed n entry world).1 = .ok { entry with id } ∧
      (id = entry.id ∨ ∃ k, id = env.newId k) ∧ world.store.entries id = none ∧
      (enqueueNewLoop env failed n entry world).2.store = world.store.put { entry with id } ∧
      (enqueueNewLoop env failed n entry world).2.trace =
        world.trace ++ [.done (.bounce { entry with id } failed)]) := by
  induction n generalizing entry world with
  | zero => exact .inl ⟨_, entry, rfl, rfl, rfl⟩
  | succ n ih =>
    unfold enqueueNewLoop
    by_cases safe : isSafeId entry.id = true
    · by_cases taken :
          (world.store.reserved entry.id || (world.store.entries entry.id).isSome) = true
      · simp only [safe, taken, Bool.not_true, Bool.false_eq_true, if_false, if_true]
        obtain ⟨e, d, h1, h2, h3⟩ | ⟨id, h1, h2, h3, h4, h5⟩ :=
          ih { entry with id := env.newId world.drawn } { world with drawn := world.drawn + 1 }
        · exact .inl ⟨e, d, h1, h2, h3⟩
        · refine .inr ⟨id, h1, .inr ?_, h3, h4, h5⟩
          obtain h | h := h2
          · exact ⟨_, h⟩
          · exact h
      · simp only [safe, taken, Bool.not_true, Bool.false_eq_true, if_false]
        have free : world.store.entries entry.id = none := by
          simp only [Bool.or_eq_true, not_or] at taken
          simpa using taken.2
        obtain ⟨message, h⟩ | h := attempt_cases world env (.bounce entry failed) .storage
        · exact .inl ⟨_, entry, by rw [h], by rw [h], by rw [h]⟩
        · exact .inr ⟨entry.id, by rw [h], .inl rfl, free, by rw [h]; rfl, by rw [h]⟩
    · exact .inl ⟨unsafeId entry.id, entry, by simp [safe], by simp [safe, World.refuse],
        by simp [safe, World.refuse]⟩

/-- What one bounce can do: it is not sent, or it is stored and names its recipients, or it fails
and the store is as it was. -/
theorem bounce_cases (runner : QueueRunner) (env : Env) (entry : QueueEntry)
    (pending : PendingBounce) (now : Int) (world : World) :
    ((runner.bounce env entry pending now world).1 = .ok false ∧ NoBounce entry ∧
      (runner.bounce env entry pending now world).2 = world) ∨
    (∃ dsn, (runner.bounce env entry pending now world).1 = .ok true ∧ ¬NoBounce entry ∧
      (∃ k, dsn.id = env.newId k) ∧ (dsn.kind = .bounce ∧ dsn.attempts = 0) ∧
      world.store.entries dsn.id = none ∧
      (∀ r ∈ pending.failed, NamesFailed dsn.data r) ∧
      (runner.bounce env entry pending now world).2.store = world.store.put dsn ∧
      (runner.bounce env entry pending now world).2.trace =
        world.trace ++ [.done (.bounce dsn pending.failed)]) ∨
    (∃ e d, (runner.bounce env entry pending now world).1 = .error e ∧ ¬NoBounce entry ∧
      (runner.bounce env entry pending now world).2.store = world.store ∧
      (runner.bounce env entry pending now world).2.trace =
        world.trace ++ [.failed (.bounce d pending.failed)]) := by
  unfold QueueRunner.bounce
  by_cases refused : (entry.kind = .bounce || entry.isNullSender) = true
  · refine .inl ⟨by simp [refused], ?_, by simp [refused]⟩
    rcases Bool.or_eq_true_iff.mp refused with h | h
    · exact .inl (by simpa using h)
    · exact .inr (by simp [dsnRecipient, h])
  · simp only [refused, Bool.false_eq_true, if_false]
    cases recipient : dsnRecipient entry with
    | none => exact .inl ⟨rfl, .inr recipient, rfl⟩
    | some address =>
      have sent : ¬NoBounce entry := by
        rintro (h | h)
        · simp [h] at refused
        · rw [recipient] at h; contradiction
      right
      simp only
      generalize message : buildDsn _ _ _ = text
      generalize built : QueueEntry.draft _ _ _ _ _ text _ = draft
      have names : ∀ r ∈ pending.failed, NamesFailed draft.data r := by
        intro r hr
        rw [← built, ← message]
        exact buildDsn_names _ _ _ _ hr
      have drawn : draft.id = env.newId world.drawn := by rw [← built]; rfl
      have kind : draft.kind = .bounce ∧ draft.attempts = 0 := by rw [← built]; exact ⟨rfl, rfl⟩
      cases draft.validate with
      | error e => exact .inr ⟨e, draft, rfl, sent, rfl, rfl⟩
      | ok u =>
        simp only [enqueueNew]
        cases draft.validate with
        | error e => exact .inr ⟨e, draft, rfl, sent, rfl, rfl⟩
        | ok u =>
          obtain ⟨e, d, h1, h2, h3⟩ | ⟨id, h1, h2, h3, h4, h5⟩ :=
            enqueueNewLoop_cases env pending.failed enqueueNewAttempts draft
              { world with drawn := world.drawn + 1 }
          · refine .inr ⟨e, d, ?_, sent, ?_, ?_⟩ <;>
              generalize enqueueNewLoop _ _ _ _ _ = result at * <;>
              obtain ⟨a, b⟩ := result <;> simp_all
          · refine .inl ⟨{ draft with id }, ?_, sent, ?_, kind, h3, names, ?_, ?_⟩
            · generalize enqueueNewLoop _ _ _ _ _ = result at *
              obtain ⟨a, b⟩ := result
              simp_all
            · obtain rfl | h := h2
              · exact ⟨_, drawn⟩
              · exact h
            all_goals
              generalize enqueueNewLoop _ _ _ _ _ = result at *
              obtain ⟨a, b⟩ := result
              simp_all

/-- The bounce that the result of a call leaves behind, if it gives up on recipients. -/
def bouncesOf (backoff : BackoffPolicy) (attempts : Nat) (attempted : List String) :
    DeliveryResult → List PendingBounce
  | .ok _ => []
  | .error failure =>
    let failed := failedOf attempted failure
    if failed.isEmpty then []
    else if failure.failureClass = .permanent || backoff.exhausted (satAdd u32Max attempts 1) then
      [⟨failed, failure.message, failure.code⟩]
    else []

def reported (pending : List PendingBounce) : List String := pending.flatMap (·.failed)

theorem mem_reported {pending : List PendingBounce} :
    r ∈ reported pending ↔ ∃ p ∈ pending, r ∈ p.failed := List.mem_flatMap

@[simp] theorem reported_append (a b : List PendingBounce) :
    reported (a ++ b) = reported a ++ reported b := List.flatMap_append

variable {backoff : BackoffPolicy} {attempted : List String} {result : DeliveryResult}

/-- A result takes off the entry whom the transport accepted and whom it gave up, and the bounces it
leaves report exactly the latter. -/
theorem applyResult_spec {round round' : Round} {now : Int}
    (h : applyResult backoff round attempted result now = some round') :
    round'.entry.id = round.entry.id ∧ round'.entry.kind = round.entry.kind ∧
      round'.entry.mailFrom = round.entry.mailFrom ∧ round'.entry.data = round.entry.data ∧
      round'.mutated = true ∧
      round'.pending =
        round.pending ++ bouncesOf backoff round.entry.attempts attempted result ∧
      ∀ r, r ∈ round'.entry.recipients ↔ r ∈ round.entry.recipients ∧
        r ∉ acceptedBy attempted result ∧
        r ∉ reported (bouncesOf backoff round.entry.attempts attempted result) := by
  cases result with
  | ok receipt =>
    simp only [applyResult] at h
    split at h
    · cases h
    · rename_i count
      cases h
      simp only [ne_eq, not_not] at count
      simp [applyReceipt, removeRecipients, acceptedBy, count, bouncesOf, reported]
  | error failure =>
    simp only [applyResult, Option.some.injEq] at h
    subst h
    by_cases none : failedOf attempted failure = []
    · by_cases acc : failure.accepted = [] <;>
        simp [applyFailure, bouncesOf, none, acc, acceptedBy, reported, removeRecipients]
    · by_cases acc : failure.accepted = [] <;> cases cls : failure.failureClass <;>
        by_cases ex : backoff.exhausted (satAdd u32Max round.entry.attempts 1) = true <;>
        simp [applyFailure, bouncesOf, none, acc, cls, ex, acceptedBy, reported, removeRecipients,
          BackoffPolicy.onFailure] <;>
        exact fun _ _ => and_comm

theorem bouncesOf_subset {attempts : Nat}
    (h : r ∈ reported (bouncesOf backoff attempts attempted result)) : r ∈ attempted := by
  cases result with
  | ok receipt => simp [bouncesOf, reported] at h
  | error failure =>
    simp only [bouncesOf] at h
    split_ifs at h
    · simp [reported] at h
    · simp only [reported, List.flatMap_cons, List.flatMap_nil, List.append_nil, failedOf] at h
      exact List.mem_of_mem_filter h
    · simp [reported] at h

theorem bouncesOf_length (backoff : BackoffPolicy) (attempts : Nat) (attempted : List String)
    (result : DeliveryResult) : (bouncesOf backoff attempts attempted result).length ≤ 1 := by
  cases result with
  | ok receipt => simp [bouncesOf]
  | error failure =>
    simp only [bouncesOf]
    split_ifs <;> simp

theorem partition_apart {entry : QueueEntry} {policy : RelayPolicy}
    (h : r ∈ (partition entry policy).1) : r ∉ (partition entry policy).2 := by
  simp only [partition, List.mem_filter] at h ⊢
  simp [h.2]

theorem applyResult_none {round : Round} {now : Int}
    (h : applyResult backoff round attempted result now = none) :
    ∃ receipt, result = .ok receipt ∧ receipt.accepted ≠ attempted.length := by
  cases result with
  | ok receipt =>
    simp only [applyResult] at h
    split at h
    · exact ⟨receipt, rfl, by assumption⟩
    · cases h
  | error failure => simp [applyResult] at h

/-- What a half of a round can do: it is skipped, or the transport is tried and miscounts, or the
result is applied. The store is left alone. -/
inductive Half (backoff : BackoffPolicy) (now : Int) (attempted : List String)
    (target : DeliveryTarget) (result : DeliveryResult) (tried : Bool) (round : Round)
    (world : World) : Option Round × World → Prop
  | skipped {round' world'} : tried = false → round'.entry = round.entry →
      round'.pending = round.pending → round'.mutated = round.mutated →
      world'.store = world.store → world'.trace = world.trace →
      Half backoff now attempted target result tried round world (some round', world')
  | miscounted {world'} : tried = true → applyResult backoff round attempted result now = none →
      world'.store = world.store →
      world'.trace = world.trace ++ [.delivered target attempted result] →
      Half backoff now attempted target result tried round world (none, world')
  | counted {round' world'} : tried = true →
      applyResult backoff round attempted result now = some round' →
      world'.store = world.store →
      world'.trace = world.trace ++ [.delivered target attempted result] →
      Half backoff now attempted target result tried round world (some round', world')

theorem localHalf_spec (runner : QueueRunner) (env : Env) (now : Int) (recipients : List String)
    (round : Round) (world : World) :
    Half runner.config.backoff now recipients .localDelivery env.localResult (!recipients.isEmpty)
      round world (runner.localHalf env now recipients round world) := by
  unfold QueueRunner.localHalf
  split
  · rename_i empty
    exact .skipped (by simp [empty]) rfl rfl rfl rfl rfl
  · rename_i some'
    have tried : (!recipients.isEmpty) = true := by simpa using some'
    cases applied : applyResult runner.config.backoff round recipients env.localResult now with
    | none => exact .miscounted tried applied rfl rfl
    | some round' => exact .counted tried applied rfl rfl

theorem recordRemote_store (env : Env) (world : World) :
    (recordRemote env world).store = world.store ∧
      (recordRemote env world).trace = world.trace := by
  unfold recordRemote recordRemoteSuccess recordRemoteFailure
  split
  · exact ⟨rfl, rfl⟩
  · split <;> exact ⟨rfl, rfl⟩

theorem mayAttemptRemote_store (runner : QueueRunner) (world : World) :
    (runner.mayAttemptRemote world).2.store = world.store ∧
      (runner.mayAttemptRemote world).2.trace = world.trace := by
  unfold QueueRunner.mayAttemptRemote
  split <;> exact ⟨rfl, rfl⟩

theorem remoteHalf_spec (runner : QueueRunner) (env : Env) (now : Int) (recipients : List String)
    (round : Round) (world : World) :
    Half runner.config.backoff now recipients (.remote runner.outboundRoute) env.remoteResult
      (!recipients.isEmpty && (runner.mayAttemptRemote world).1) round world
      (runner.remoteHalf env now recipients round world) := by
  unfold QueueRunner.remoteHalf
  split
  · rename_i empty
    exact .skipped (by simp [empty]) rfl rfl rfl rfl rfl
  · rename_i some'
    obtain ⟨hstore, htrace⟩ := mayAttemptRemote_store runner world
    generalize runner.mayAttemptRemote world = result at hstore htrace
    obtain ⟨passes, next⟩ := result
    simp only at hstore htrace
    cases passes with
    | false => exact .skipped (by simp) rfl rfl rfl hstore htrace
    | true =>
      have tried : (!recipients.isEmpty && true) = true := by simpa using some'
      simp only
      cases applied : applyResult runner.config.backoff round recipients env.remoteResult now with
      | none => exact .miscounted tried applied hstore (by simp [htrace])
      | some round' =>
        refine .counted tried applied ?_ ?_
        · rw [(recordRemote_store _ _).1]; exact hstore
        · rw [(recordRemote_store _ _).2]; simp [htrace]

def Disjoint (pending : List PendingBounce) : Prop :=
  pending.Pairwise fun p q => ∀ r ∈ p.failed, r ∉ q.failed

theorem mem_readd {recipients failed : List String} :
    r ∈ readd recipients failed ↔ r ∈ recipients ∨ r ∈ failed := by
  induction failed generalizing recipients with
  | nil => simp [readd]
  | cons f rest ih =>
    rw [readd, ih]
    by_cases known : f ∈ recipients
    · simp only [List.contains_eq_mem, known, decide_true, if_true, List.mem_cons]
      constructor
      · rintro (h | h)
        · exact .inl h
        · exact .inr (.inr h)
      · rintro (h | rfl | h)
        · exact .inl h
        · exact .inl known
        · exact .inr h
    · simp [known, or_assoc]

theorem noBounce_congr {entry entry' : QueueEntry} (kind : entry'.kind = entry.kind)
    (mailFrom : entry'.mailFrom = entry.mailFrom) : NoBounce entry' ↔ NoBounce entry := by
  simp [NoBounce, dsnRecipient, QueueEntry.isNullSender, kind, mailFrom]

/-- The events of a list of bounces, and what they leave of the entry and the store. -/
structure Flushed (env : Env) (pending : List PendingBounce) (entry entry' : QueueEntry)
    (before after : World) (error : Option QueueError) (events : List Event) : Prop where
  trace : after.trace = before.trace ++ events
  shape : entry' = { entry with recipients := entry'.recipients }
  grows : entry.recipients ⊆ entry'.recipients
  source : ∀ r ∈ entry'.recipients, r ∈ entry.recipients ∨ r ∈ reported pending
  settled : ∀ r ∈ reported pending, NoBounce entry ∨ NamedIn events r ∨ r ∈ entry'.recipients
  named : ∀ r, NamedIn events r → r ∈ reported pending
  clean : error = none → entry' = entry ∧ failures events = 0
  dirty : error ≠ none → 1 ≤ failures events
  frame : ∀ id, (∀ k, env.newId k ≠ id) → after.store.entries id = before.store.entries id
  writes : after.store = storeAfter before.store (durableOps events)
  quiet : deliveries events = []
  silent : NoBounce entry → error = none
  stored : ∀ op ∈ durableOps events, ∃ dsn failed, op = .bounce dsn failed ∧
    before.store.entries dsn.id = none ∧ after.store.entries dsn.id = some dsn ∧
    dsn.kind = .bounce ∧ dsn.attempts = 0
  stable : ∀ id e, before.store.entries id = some e → after.store.entries id = some e
  apart : Disjoint pending → (∀ r ∈ reported pending, r ∉ entry.recipients) →
    ∀ r, NamedIn events r → r ∉ entry'.recipients

theorem namedIn_cons {ev : Event} {events : List Event} :
    NamedIn (ev :: events) r ↔ NamedIn [ev] r ∨ NamedIn events r := by
  simp only [NamedIn, List.mem_cons, List.mem_nil_iff, or_false, or_and_right, exists_or]

@[simp] theorem not_namedIn_failed (op : StoreOp) (r : String) : ¬NamedIn [.failed op] r := by
  simp [NamedIn]

@[simp] theorem not_namedIn_update (entry : QueueEntry) (r : String) :
    ¬NamedIn [.done (.update entry)] r := by
  simp [NamedIn]

@[simp] theorem not_namedIn_remove (id r : String) : ¬NamedIn [.done (.remove id)] r := by
  simp [NamedIn]

@[simp] theorem not_namedIn_nil (r : String) : ¬NamedIn [] r := by
  simp [NamedIn]

theorem namedIn_bounce {dsn : QueueEntry} {failed : List String} :
    NamedIn [.done (.bounce dsn failed)] r ↔ r ∈ failed ∧ NamesFailed dsn.data r := by
  simp [NamedIn]

theorem flushLoop_spec (runner : QueueRunner) (env : Env) (now : Int)
    (pending : List PendingBounce) (entry : QueueEntry) (outcome : EntryOutcome)
    (error : Option QueueError) (world : World) :
    ∃ entry' outcome' error' world' events,
      runner.flushLoop env now pending entry outcome error world =
        (entry', outcome', error <|> error', world') ∧
      Flushed env pending entry entry' world world' error' events := by
  induction pending generalizing entry outcome error world with
  | nil =>
    refine ⟨entry, outcome, none, world, [], by cases error <;> rfl, ?_⟩
    exact ⟨by simp, rfl, fun _ h => h, fun _ h => .inl h, by simp [reported], by simp,
      fun _ => ⟨rfl, rfl⟩, fun h => absurd rfl h, fun _ _ => rfl, rfl, rfl,
      fun _ => rfl, by simp, fun _ _ h => h, by simp⟩
  | cons p rest ih =>
    have step := bounce_cases runner env entry p now world
    generalize bounced : runner.bounce env entry p now world = result at step
    obtain ⟨status, next⟩ := result
    obtain ⟨rfl, refused, rfl⟩ | ⟨dsn, rfl, sent, ⟨k, hk⟩, kind, free, names, hstore, htrace⟩ |
      ⟨e, d, rfl, sent, hstore, htrace⟩ := step
    · -- no bounce is sent for this entry
      obtain ⟨entry', outcome', error', world', events, run, spec⟩ :=
        ih entry { outcome with discarded := outcome.discarded + p.failed.length } error next
      refine ⟨entry', outcome', error', world', events, ?_, ?_⟩
      · simp only [QueueRunner.flushLoop, bounced]; exact run
      · refine { spec with
          source := ?_, settled := fun _ _ => .inl refused, named := ?_, apart := ?_ }
        · intro r hr
          exact (spec.source r hr).imp_right fun h => List.mem_append_right _ h
        · intro r hr
          exact List.mem_append_right _ (spec.named r hr)
        · intro disjoint apart
          exact spec.apart disjoint.of_cons fun r hr => apart r (List.mem_append_right _ hr)
    · -- the bounce was stored
      obtain ⟨entry', outcome', error', world', events, run, spec⟩ :=
        ih entry { outcome with bounced := outcome.bounced + p.failed.length } error next
      refine ⟨entry', outcome', error', world', .done (.bounce dsn p.failed) :: events, ?_, ?_⟩
      · simp only [QueueRunner.flushLoop, bounced]; exact run
      · refine ⟨?_, spec.shape, spec.grows, ?_, ?_, ?_, ?_, ?_, ?_, ?_, ?_, ?_, ?_, ?_, ?_⟩
        · rw [spec.trace]; simp only at htrace; rw [htrace]; simp
        · intro r hr
          exact (spec.source r hr).imp_right fun h => List.mem_append_right _ h
        · intro r hr
          rcases List.mem_append.mp hr with here | later
          · exact .inr (.inl (namedIn_cons.mpr (.inl (namedIn_bounce.mpr ⟨here, names r here⟩))))
          · rcases spec.settled r later with h | h | h
            · exact .inl h
            · exact .inr (.inl (namedIn_cons.mpr (.inr h)))
            · exact .inr (.inr h)
        · intro r hr
          rcases namedIn_cons.mp hr with h | h
          · exact List.mem_append_left _ (namedIn_bounce.mp h).1
          · exact List.mem_append_right _ (spec.named r h)
        · intro none
          obtain ⟨same, clean⟩ := spec.clean none
          exact ⟨same, by rw [failures_done, clean]⟩
        · intro some
          rw [failures_done]
          exact spec.dirty some
        · intro id fresh
          rw [spec.frame id fresh]
          simp only at hstore
          rw [hstore, QueueStore.put_entries, Function.update_of_ne]
          rintro rfl
          exact fresh k hk.symm
        · simp only at hstore
          rw [spec.writes, hstore]
          rfl
        · simpa using spec.quiet
        · exact fun silent => absurd silent sent
        · intro op mem
          simp only at hstore
          rcases List.mem_cons.mp mem with rfl | later
          · refine ⟨dsn, p.failed, rfl, free, spec.stable dsn.id dsn ?_, kind⟩
            rw [hstore, QueueStore.put_entries, Function.update_self]
          · obtain ⟨dsn', failed', rfl, free', after', kind'⟩ := spec.stored op later
            refine ⟨dsn', failed', rfl, ?_, after', kind'⟩
            rw [hstore, QueueStore.put_entries] at free'
            by_cases same : dsn'.id = dsn.id
            · rw [same]; exact free
            · rwa [Function.update_of_ne same] at free'
        · intro id e present
          refine spec.stable id e ?_
          simp only at hstore
          rw [hstore, QueueStore.put_entries, Function.update_of_ne, present]
          rintro rfl
          rw [free] at present
          contradiction
        · intro disjoint apart r named listed
          have apart' : ∀ r ∈ reported rest, r ∉ entry.recipients :=
            fun r hr => apart r (List.mem_append_right _ hr)
          rcases namedIn_cons.mp named with here | later
          · have hr := (namedIn_bounce.mp here).1
            rcases spec.source r listed with old | other
            · exact apart r (List.mem_append_left _ hr) old
            · obtain ⟨q, hq, hr'⟩ := mem_reported.mp other
              exact List.rel_of_pairwise_cons disjoint hq r hr hr'
          · exact spec.apart disjoint.of_cons apart' r later listed
    · -- the bounce failed: its recipients go back onto the entry
      obtain ⟨entry', outcome', error', world', events, run, spec⟩ :=
        ih { entry with recipients := readd entry.recipients p.failed } outcome
          (error <|> some e) next
      refine ⟨entry', outcome', some e <|> error', world',
        .failed (.bounce d p.failed) :: events, ?_, ?_⟩
      · simp only [QueueRunner.flushLoop, bounced]
        rw [run]
        cases error <;> rfl
      · have same : NoBounce { entry with recipients := readd entry.recipients p.failed } ↔
            NoBounce entry := noBounce_congr rfl rfl
        refine ⟨?_, spec.shape, ?_, ?_, ?_, ?_, ?_, ?_, ?_, ?_, ?_, ?_, ?_, ?_, ?_⟩
        · rw [spec.trace]; simp only at htrace; rw [htrace]; simp
        · exact fun r hr => spec.grows (mem_readd.mpr (.inl hr))
        · intro r hr
          rcases spec.source r hr with h | h
          · exact (mem_readd.mp h).imp_right fun h => List.mem_append_left _ h
          · exact .inr (List.mem_append_right _ h)
        · intro r hr
          rcases List.mem_append.mp hr with here | later
          · exact .inr (.inr (spec.grows (mem_readd.mpr (.inr here))))
          · rcases spec.settled r later with h | h | h
            · exact .inl (same.mp h)
            · exact .inr (.inl (namedIn_cons.mpr (.inr h)))
            · exact .inr (.inr h)
        · intro r hr
          rcases namedIn_cons.mp hr with h | h
          · exact absurd h (not_namedIn_failed _ _)
          · exact List.mem_append_right _ (spec.named r h)
        · intro none
          simp at none
        · intro _
          rw [failures_failed]
          exact Nat.le_add_left 1 _
        · intro id fresh
          rw [spec.frame id fresh]
          simp only at hstore
          rw [hstore]
        · simp only at hstore
          rw [spec.writes, hstore]
          rfl
        · simpa using spec.quiet
        · exact fun silent => absurd silent sent
        · intro op mem
          simp only at hstore
          have later := spec.stored op mem
          rwa [hstore] at later
        · intro id e present
          refine spec.stable id e ?_
          simp only at hstore
          rw [hstore, present]
        · intro disjoint apart r named
          have later := (namedIn_cons.mp named).resolve_left (not_namedIn_failed _ _)
          refine spec.apart disjoint.of_cons ?_ r later
          intro r hr back
          rcases mem_readd.mp back with old | failed
          · exact apart r (List.mem_append_right _ hr) old
          · obtain ⟨q, hq, hr'⟩ := mem_reported.mp hr
            exact List.rel_of_pairwise_cons disjoint hq r failed hr'

end MailStack.Queue
