import MailStack.Queue.Delivery

/-! The queue directory: the entry files, the reservations and the claims, the operations on them,
and the record of the operations that one delivery round makes. -/

namespace MailStack.Queue

open Lib

/-- A claim file: the time stamp in its text, if the text holds one, and its modification time. -/
structure ClaimFile where
  stamp : Option Int
  modified : Int

abbrev ClaimDir := String → Option ClaimFile

def claimTtlSeconds : Int := 900

def claimIsFresh (file : Option ClaimFile) (now : Int) : Bool :=
  match file with
  | none => false
  | some file =>
    let claimedAt := match file.stamp with
      | some ts => ts
      | none => if file.modified < 0 then 0 else file.modified
    clampI64 (now - claimedAt) < claimTtlSeconds

/-- `try_claim` under the lock of the claims directory. `written` is the file that a new claim
leaves: its text is the time, unless the write failed. -/
def tryClaim (claims : ClaimDir) (id : String) (now : Int) (written : ClaimFile) :
    Except QueueError (Bool × ClaimDir) :=
  if !isSafeId id then .error (unsafeId id)
  else if claimIsFresh (claims id) now then .ok (false, claims)
  else .ok (true, Function.update claims id (some written))

def releaseClaim (claims : ClaimDir) (id : String) : ClaimDir :=
  if isSafeId id then Function.update claims id none else claims

def pruneClaims (claims : ClaimDir) (now : Int) : ClaimDir :=
  fun id => if claimIsFresh (claims id) now then claims id else none

def claimedIds (claims : ClaimDir) (now : Int) (id : String) : Bool :=
  claimIsFresh (claims id) now

structure QueueStore where
  entries : String → Option QueueEntry
  reserved : String → Bool
  claims : ClaimDir

def QueueStore.put (store : QueueStore) (entry : QueueEntry) : QueueStore :=
  { store with entries := Function.update store.entries entry.id (some entry) }

def QueueStore.erase (store : QueueStore) (id : String) : QueueStore :=
  { store with
    entries := Function.update store.entries id none
    claims := releaseClaim store.claims id }

@[simp] theorem QueueStore.put_entries (store : QueueStore) (entry : QueueEntry) :
    (store.put entry).entries = Function.update store.entries entry.id (some entry) := rfl

@[simp] theorem QueueStore.erase_entries (store : QueueStore) (id : String) :
    (store.erase id).entries = Function.update store.entries id none := rfl

/-- The operations of a round on the stored entries. A bounce goes with the recipients it
reports. -/
inductive StoreOp
  | update (entry : QueueEntry)
  | remove (id : String)
  | bounce (dsn : QueueEntry) (failed : List String)
deriving DecidableEq

def StoreOp.apply : StoreOp → QueueStore → QueueStore
  | .update entry, store => store.put entry
  | .remove id, store => store.erase id
  | .bounce dsn _, store => store.put dsn

inductive Event
  | delivered (target : DeliveryTarget) (recipients : List String) (result : DeliveryResult)
  | done (op : StoreOp)
  | failed (op : StoreOp)
deriving DecidableEq

structure OutboundHealthState where
  consecutiveFailures : Nat := 0
  lastSuccessAt : Option String := none
  lastFailure : Option String := none

/-- What a round reads from outside the program: the results of the two transports, which store
operations fail and with what message, the ids, dates and boundaries drawn for bounces, and the
time. -/
structure Env where
  localResult : DeliveryResult
  remoteResult : DeliveryResult
  fault : Nat → Option String
  newId : Nat → String
  date : Nat → String
  boundary : Nat → String
  nowIso : String

/-- The state of a round: the store, the runner's memory, how many operations were tried and ids
drawn, and what happened so far. -/
structure World where
  store : QueueStore
  health : OutboundHealthState
  halfOpenUsed : Bool
  calls : Nat
  drawn : Nat
  trace : List Event

/-- One store operation: it fails when the environment says so, else it takes effect. -/
def World.attempt (world : World) (env : Env) (op : StoreOp) (error : String → QueueError) :
    Except QueueError Unit × World :=
  match env.fault world.calls with
  | some message =>
    (.error (error message),
      { world with calls := world.calls + 1, trace := world.trace ++ [.failed op] })
  | none =>
    (.ok (),
      { world with
        store := op.apply world.store
        calls := world.calls + 1
        trace := world.trace ++ [.done op] })

def World.refuse (world : World) (op : StoreOp) : World :=
  { world with trace := world.trace ++ [.failed op] }

def enqueue (env : Env) (entry : QueueEntry) (world : World) : Except QueueError Unit × World :=
  match entry.validate with
  | .error e => (.error e, world.refuse (.update entry))
  | .ok () => world.attempt env (.update entry) .storage

/-- Removes the file of an entry, after its claim. -/
def remove (env : Env) (id : String) (world : World) : Except QueueError Bool × World :=
  if !isSafeId id then (.error (unsafeId id), world.refuse (.remove id))
  else
    let existed := (world.store.entries id).isSome
    let world :=
      { world with store := { world.store with claims := releaseClaim world.store.claims id } }
    match world.attempt env (.remove id) (.io id) with
    | (.error e, world) => (.error e, world)
    | (.ok (), world) => (.ok existed, world)

def enqueueNewAttempts : Nat := 5

/-- The loop of `enqueue_new`: a taken id is replaced by a new one. -/
def enqueueNewLoop (env : Env) (failed : List String) :
    Nat → QueueEntry → World → Except QueueError QueueEntry × World
  | 0, entry, world =>
    (.error (.invalid ("queue id collision persisted after 5 attempts (entry " ++ entry.id ++ ")")),
      world.refuse (.bounce entry failed))
  | n + 1, entry, world =>
    if !isSafeId entry.id then
      (.error (unsafeId entry.id), world.refuse (.bounce entry failed))
    else if world.store.reserved entry.id || (world.store.entries entry.id).isSome then
      enqueueNewLoop env failed n { entry with id := env.newId world.drawn }
        { world with drawn := world.drawn + 1 }
    else
      match world.attempt env (.bounce entry failed) .storage with
      | (.error e, world) => (.error e, world)
      | (.ok (), world) => (.ok entry, world)

/-- Stores a new entry under an id that no entry has. `failed` is what the entry reports. -/
def enqueueNew (env : Env) (failed : List String) (entry : QueueEntry) (world : World) :
    Except QueueError QueueEntry × World :=
  match entry.validate with
  | .error e => (.error e, world.refuse (.bounce entry failed))
  | .ok () => enqueueNewLoop env failed enqueueNewAttempts entry world

end MailStack.Queue

/-! The delivery round of one queue entry: both transports, the rewriting of the entry and the
bounces. -/

namespace MailStack.Queue

open Lib Smtp

structure QueueConfig where
  backoff : BackoffPolicy
  reportingMta : String
  managedDomains : List String
  blockedThreshold : Nat

structure QueueRunner where
  config : QueueConfig
  relay : Option RelayEndpoint

def QueueRunner.outboundRoute (runner : QueueRunner) : OutboundRoute :=
  selectOutboundRoute runner.relay

/-- The circuit in front of the remote transport. Past the threshold one attempt a round is let
through. -/
def QueueRunner.mayAttemptRemote (runner : QueueRunner) (world : World) : Bool × World :=
  if world.health.consecutiveFailures < max runner.config.blockedThreshold 1 then (true, world)
  else (!world.halfOpenUsed, { world with halfOpenUsed := true })

def recordRemoteSuccess (env : Env) (world : World) : World :=
  { world with
    health := { consecutiveFailures := 0, lastSuccessAt := some env.nowIso, lastFailure := none } }

def recordRemoteFailure (failure : DeliveryFailure) (world : World) : World :=
  if failure.localFault || failure.failureClass != .transient then world
  else
    { world with
      health.consecutiveFailures := satAdd u32Max world.health.consecutiveFailures 1
      health.lastFailure := some failure.message }

def miscount (side : String) (accepted attempted : Nat) (id : String) : QueueError :=
  .invalid (side ++ " transport reported " ++ toString accepted ++ " accepted of " ++
    toString attempted ++ " attempted recipients (entry " ++ id ++
    "); refusing to drop the remainder silently")

/-- Enqueues the notification of the failed recipients. The result is `false` when no bounce is
sent for this entry. -/
def QueueRunner.bounce (runner : QueueRunner) (env : Env) (entry : QueueEntry)
    (pending : PendingBounce) (now : Int) (world : World) : Except QueueError Bool × World :=
  if entry.kind = .bounce || entry.isNullSender then (.ok false, world)
  else
    match dsnRecipient entry with
    | none => (.ok false, world)
    | some recipient =>
      let message := buildDsn
        { reportingMta := runner.config.reportingMta
          original := entry
          failedRecipients := pending.failed
          diagnostic := pending.diagnostic
          statusCode := pending.code }
        (env.date world.drawn) (env.boundary world.drawn)
      let draft := QueueEntry.draft (env.newId world.drawn) env.nowIso .bounce dsnEnvelopeFrom
        [recipient] message now
      let world := { world with drawn := world.drawn + 1 }
      match draft.validate with
      | .error e => (.error e, world.refuse (.bounce draft pending.failed))
      | .ok () =>
        match enqueueNew env pending.failed draft world with
        | (.error e, world) => (.error e, world)
        | (.ok _, world) => (.ok true, world)

/-- The recipients that are not on the entry any more, put back in order. -/
def readd (recipients : List String) : List String → List String
  | [] => recipients
  | r :: rest => readd (if recipients.contains r then recipients else recipients ++ [r]) rest

def QueueRunner.flushLoop (runner : QueueRunner) (env : Env) (now : Int) :
    List PendingBounce → QueueEntry → EntryOutcome → Option QueueError → World →
      QueueEntry × EntryOutcome × Option QueueError × World
  | [], entry, outcome, firstError, world => (entry, outcome, firstError, world)
  | pending :: rest, entry, outcome, firstError, world =>
    match runner.bounce env entry pending now world with
    | (.ok true, world) =>
      let outcome := { outcome with bounced := outcome.bounced + pending.failed.length }
      runner.flushLoop env now rest entry outcome firstError world
    | (.ok false, world) =>
      let outcome := { outcome with discarded := outcome.discarded + pending.failed.length }
      runner.flushLoop env now rest entry outcome firstError world
    | (.error e, world) =>
      let entry := { entry with recipients := readd entry.recipients pending.failed }
      runner.flushLoop env now rest entry outcome (firstError <|> some e) world

/-- Sends the pending bounces. The recipients of a bounce that cannot be stored go back onto the
entry. -/
def QueueRunner.flushBounces (runner : QueueRunner) (env : Env) (now : Int) (entry : QueueEntry)
    (outcome : EntryOutcome) (pending : List PendingBounce) (world : World) :
    Except QueueError EntryOutcome × World :=
  match runner.flushLoop env now pending entry outcome none world with
  | (_, outcome, none, world) => (.ok outcome, world)
  | (entry, _, some e, world) => (.error e, (enqueue env entry world).2)

/-- The local half of a round. `none` is a miscount of the transport. -/
def QueueRunner.localHalf (runner : QueueRunner) (env : Env) (now : Int)
    (recipients : List String) (round : Round) (world : World) : Option Round × World :=
  if recipients.isEmpty then (some round, world)
  else
    (applyResult runner.config.backoff round recipients env.localResult now,
      { world with
        trace := world.trace ++ [.delivered .localDelivery recipients env.localResult] })

def recordRemote (env : Env) (world : World) : World :=
  match env.remoteResult with
  | .ok _ => recordRemoteSuccess env world
  | .error failure => recordRemoteFailure failure world

/-- The remote half of a round, which is skipped while the circuit is open. `none` is a miscount of
the transport. -/
def QueueRunner.remoteHalf (runner : QueueRunner) (env : Env) (now : Int)
    (recipients : List String) (round : Round) (world : World) : Option Round × World :=
  if recipients.isEmpty then (some round, world)
  else
    match runner.mayAttemptRemote world with
    | (false, world) =>
      (some { round with
        outcome := { round.outcome with
          fastFailed := true, deferred := round.outcome.deferred + 1 } }, world)
    | (true, world) =>
      let world := { world with
        trace := world.trace ++
          [.delivered (.remote runner.outboundRoute) recipients env.remoteResult] }
      match applyResult runner.config.backoff round recipients env.remoteResult now with
      | none => (none, world)
      | some round => (some round, recordRemote env world)

/-- The error of a transport that reports another number than it was handed. -/
def miscountOf (side : String) (result : DeliveryResult) (recipients : List String)
    (id : String) : QueueError :=
  match result with
  | .ok receipt => miscount side receipt.accepted recipients.length id
  | .error _ => miscount side 0 recipients.length id

/-- Writes the entry back without stopping at an error. -/
def persistBestEffort (env : Env) (entry : QueueEntry) (world : World) : World :=
  (enqueue env entry world).2

/-- The end of a round in which both halves were counted right. -/
def QueueRunner.finish (runner : QueueRunner) (env : Env) (now : Int) (round : Round)
    (world : World) : Except QueueError EntryOutcome × World :=
  let flush (world : World) :=
    runner.flushBounces env now round.entry round.outcome round.pending world
  if round.entry.recipients.isEmpty then
    match remove env round.entry.id world with
    | (.error e, world) => (.error e, world)
    | (.ok _, world) => flush world
  else if round.mutated then
    match round.entry.validate with
    | .error e => (.error e, world.refuse (.update round.entry))
    | .ok () =>
      match enqueue env round.entry world with
      | (.error e, world) => (.error e, world)
      | (.ok (), world) => flush world
  else flush world

/-- The end of a round in which the remote transport miscounted. -/
def QueueRunner.abandon (runner : QueueRunner) (env : Env) (now : Int) (round : Round)
    (world : World) : World :=
  let world := if round.mutated then persistBestEffort env round.entry world else world
  if round.pending.isEmpty then world
  else (runner.flushBounces env now round.entry round.outcome round.pending world).2

/-- A delivery round up to the release of the claim. -/
def QueueRunner.processBody (runner : QueueRunner) (env : Env) (now : Int) (policy : RelayPolicy)
    (entry : QueueEntry) (world : World) : Except QueueError EntryOutcome × World :=
  let (localRecipients, remoteRecipients) := partition entry policy
  match runner.localHalf env now localRecipients (Round.start entry) world with
  | (none, world) => (.error (miscountOf "local" env.localResult localRecipients entry.id), world)
  | (some round, world) =>
    match runner.remoteHalf env now remoteRecipients round world with
    | (none, world) =>
      (.error (miscountOf "remote" env.remoteResult remoteRecipients round.entry.id),
        runner.abandon env now round world)
    | (some round, world) => runner.finish env now round world

/-- A delivery round. The claim of the entry is released whatever the result. -/
def QueueRunner.process (runner : QueueRunner) (env : Env) (now : Int) (policy : RelayPolicy)
    (entry : QueueEntry) (world : World) : Except QueueError EntryOutcome × World :=
  let (result, world) := runner.processBody env now policy entry world
  (result, { world with
    store := { world.store with claims := releaseClaim world.store.claims entry.id } })

end MailStack.Queue
