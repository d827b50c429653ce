import MailStack.Queue.Interleaving

/-! The circuit in front of the remote transport while many entries are processed at once: the count
of failures in a row and the flag of the one attempt that a round makes past the threshold are
shared by the tasks of a round, which read and write them in any order. -/

namespace MailStack.Queue

open Lib Smtp

/-- Where a task of a round is: before the local transport, before it reads the count of failures,
before it swaps the flag, in the remote transport, before its entry is written back, or at the end
after an error. -/
inductive TaskPhase
  | localHalf
  | looking
  | swapping
  | sending
  | finishing
  | abandoning
  | closing
deriving DecidableEq

structure EntryTask where
  orig : QueueEntry
  round : Round
  phase : TaskPhase

/-- A runner in its rounds. The last three are a record of this round: the entries that it began
with, the remote deliveries that were started with the count of failures then, and the tasks that
were refused; and the last remote outcome of all rounds. -/
structure Circuit where
  world : World
  now : Int
  todo : String → Option QueueEntry
  tasks : String → Option EntryTask
  before : String → Option QueueEntry
  started : List (String × Nat)
  refused : List QueueEntry
  recorded : Option DeliveryResult

inductive CircuitStep
  | submit (entry : QueueEntry)
  | begin (now : Int)
  | claim (id : String) (wrote : Bool)
  | deliverLocal (id : String) (env : Env)
  | look (id : String)
  | swap (id : String)
  | outcome (id : String) (env : Env)
  | finish (id : String) (env : Env)

def Circuit.start (world : World) : Circuit :=
  { world, now := 0, todo := fun _ => none, tasks := fun _ => none, before := fun _ => none
    started := [], refused := [], recorded := none }

variable (runner : QueueRunner) {pending : List PendingBounce} {recipients : List String}
  {backoff : BackoffPolicy} {attempted : List String} {round' : Round}

def QueueRunner.threshold : Nat := max runner.config.blockedThreshold 1

def QueueRunner.policy : RelayPolicy := RelayPolicy.new runner.config.managedDomains

def Circuit.setTask (s : Circuit) (id : String) (task : EntryTask) : Circuit :=
  { s with tasks := Function.update s.tasks id (some task) }

/-- `run_once` up to the first claim. Tasks of a round before that was given up are gone. -/
def Circuit.begin (s : Circuit) (now : Int) : Circuit :=
  let claims := pruneClaims s.world.store.claims now
  { s with
    world := { s.world with store := { s.world.store with claims }, halfOpenUsed := false }
    now
    todo := loadDue s.world.store (claimedIds claims now) now
    tasks := fun _ => none
    before := s.world.store.entries
    started := []
    refused := [] }

def Circuit.claim (s : Circuit) (id : String) (wrote : Bool) : Option Circuit :=
  match s.todo id with
  | none => none
  | some entry =>
    let s := { s with todo := Function.update s.todo id none }
    match tryClaim s.world.store.claims id s.now (claimFile s.now wrote) with
    | .ok (true, claims) =>
      some ({ s with world := { s.world with store := { s.world.store with claims } } }.setTask id
        { orig := entry, round := Round.start entry, phase := .localHalf })
    | _ => some s

def Circuit.deliverLocal (s : Circuit) (id : String) (env : Env) (task : EntryTask) : Circuit :=
  let (localRecipients, remoteRecipients) := partition task.orig runner.policy
  match runner.localHalf env s.now localRecipients task.round s.world with
  | (none, world) => { s with world }.setTask id { task with phase := .closing }
  | (some round, world) =>
    { s with world }.setTask id
      { task with round, phase := if remoteRecipients.isEmpty then .finishing else .looking }

/-- The first half of `may_attempt_remote`: below the threshold the delivery is started. -/
def Circuit.look (s : Circuit) (id : String) (task : EntryTask) : Circuit :=
  let failures := s.world.health.consecutiveFailures
  if failures < runner.threshold then
    { s with started := s.started ++ [(id, failures)] }.setTask id { task with phase := .sending }
  else s.setTask id { task with phase := .swapping }

/-- The second half: whoever finds the flag down starts the delivery, the others are refused. -/
def Circuit.swap (s : Circuit) (id : String) (task : EntryTask) : Circuit :=
  let s' := { s with world := { s.world with halfOpenUsed := true } }
  if s.world.halfOpenUsed then
    { s' with refused := s.refused ++ [task.orig] }.setTask id
      { task with
        round := { task.round with
          outcome := { task.round.outcome with
            fastFailed := true, deferred := task.round.outcome.deferred + 1 } }
        phase := .finishing }
  else
    { s' with started := s.started ++ [(id, s.world.health.consecutiveFailures)] }.setTask id
      { task with phase := .sending }

/-- The remote transport returns, and its outcome is recorded. -/
def Circuit.outcome (s : Circuit) (id : String) (env : Env) (task : EntryTask) : Circuit :=
  let recipients := (partition task.orig runner.policy).2
  let world := { s.world with
    trace := s.world.trace ++
      [.delivered (.remote runner.outboundRoute) recipients env.remoteResult] }
  match applyResult runner.config.backoff task.round recipients env.remoteResult s.now with
  | none => { s with world }.setTask id { task with phase := .abandoning }
  | some round =>
    { s with world := recordRemote env world, recorded := some env.remoteResult }.setTask id
      { task with round, phase := .finishing }

/-- The end of a task, with the release of its claim. -/
def Circuit.finish (s : Circuit) (id : String) (env : Env) (task : EntryTask) : Option Circuit :=
  let ended (world : World) : Circuit :=
    { s with
      world := { world with
        store := { world.store with claims := releaseClaim world.store.claims task.orig.id } }
      tasks := Function.update s.tasks id none }
  match task.phase with
  | .finishing => some (ended (runner.finish env s.now task.round s.world).2)
  | .abandoning => some (ended (runner.abandon env s.now task.round s.world))
  | .closing => some (ended s.world)
  | _ => none

/-- One step. Anybody may add an entry under a new id at any time. The semaphore, which only holds
tasks back, is left out. -/
def Circuit.step (s : Circuit) : CircuitStep → Option Circuit
  | .submit entry =>
    if (s.world.store.entries entry.id).isSome then none
    else some { s with world := { s.world with store := s.world.store.put entry } }
  | .begin now => some (s.begin now)
  | .claim id wrote => s.claim id wrote
  | .deliverLocal id env =>
    match s.tasks id with
    | some task => if task.phase = .localHalf then some (s.deliverLocal runner id env task) else none
    | none => none
  | .look id =>
    match s.tasks id with
    | some task => if task.phase = .looking then some (s.look runner id task) else none
    | none => none
  | .swap id =>
    match s.tasks id with
    | some task => if task.phase = .swapping then some (s.swap id task) else none
    | none => none
  | .outcome id env =>
    match s.tasks id with
    | some task => if task.phase = .sending then some (s.outcome runner id env task) else none
    | none => none
  | .finish id env =>
    match s.tasks id with
    | some task => s.finish runner id env task
    | none => none

/-! ### What the end of a task changes -/

/-- The stored entries of the other ids stay, and what is new is stored under its own id. -/
structure StoreConfined (id : String) (store store' : QueueStore) : Prop where
  kept : ∀ j entry, j ≠ id → store.entries j = some entry → store'.entries j = some entry
  named : ∀ j entry, store'.entries j = some entry → store.entries j = some entry ∨ entry.id = j

/-- And the memory of the runner stays. -/
structure Confined (id : String) (world world' : World) : Prop where
  store : StoreConfined id world.store world'.store
  health : world'.health = world.health
  flag : world'.halfOpenUsed = world.halfOpenUsed

variable {runner} {id : String} {env : Env} {entry : QueueEntry} {world world' world'' : World}
  {store store' store'' : QueueStore} {now : Int}

theorem StoreConfined.refl (id : String) (store : QueueStore) : StoreConfined id store store :=
  ⟨fun _ _ _ stored => stored, fun _ _ stored => Or.inl stored⟩

theorem StoreConfined.trans (first : StoreConfined id store store')
    (second : StoreConfined id store' store'') : StoreConfined id store store'' where
  kept j entry other stored := second.kept j entry other (first.kept j entry other stored)
  named j entry stored := by
    rcases second.named j entry stored with before | own
    · exact first.named j entry before
    · exact Or.inr own

theorem StoreConfined.of_entries (same : store'.entries = store.entries) :
    StoreConfined id store store' :=
  ⟨fun _ _ _ stored => same ▸ stored, fun _ _ stored => Or.inl (same ▸ stored)⟩

theorem StoreConfined.put (place : entry.id = id ∨ store.entries entry.id = none) :
    StoreConfined id store (store.put entry) where
  kept j stored other found := by
    have ne : j ≠ entry.id := by
      rintro rfl
      rcases place with own | free
      · exact other own
      · rw [free] at found
        cases found
    rw [QueueStore.put_entries, Function.update_of_ne ne]
    exact found
  named j stored found := by
    rw [QueueStore.put_entries] at found
    by_cases own : j = entry.id
    · subst own
      rw [Function.update_self] at found
      exact Or.inr (congrArg QueueEntry.id (Option.some.inj found).symm)
    · rw [Function.update_of_ne own] at found
      exact Or.inl found

theorem StoreConfined.erase : StoreConfined id store (store.erase id) where
  kept j stored other found := by
    rw [QueueStore.erase_entries, Function.update_of_ne other]
    exact found
  named j stored found := by
    rw [QueueStore.erase_entries] at found
    by_cases own : j = id
    · subst own
      rw [Function.update_self] at found
      cases found
    · rw [Function.update_of_ne own] at found
      exact Or.inl found

theorem Confined.refl (id : String) (world : World) : Confined id world world :=
  ⟨StoreConfined.refl id _, rfl, rfl⟩

theorem Confined.trans (first : Confined id world world') (second : Confined id world' world'') :
    Confined id world world'' :=
  ⟨first.store.trans second.store, second.health.trans first.health, second.flag.trans first.flag⟩

theorem confined_drawn (n : Nat) : Confined id world { world with drawn := n } :=
  ⟨StoreConfined.refl id _, rfl, rfl⟩

theorem confined_attempt {op : StoreOp} {error : String → QueueError}
    (applied : StoreConfined id world.store (op.apply world.store)) :
    Confined id world (world.attempt env op error).2 := by
  unfold World.attempt
  split
  · exact ⟨StoreConfined.refl id _, rfl, rfl⟩
  · exact ⟨applied, rfl, rfl⟩

theorem confined_refuse (op : StoreOp) : Confined id world (world.refuse op) :=
  ⟨StoreConfined.refl id _, rfl, rfl⟩

theorem confined_enqueue (own : entry.id = id) : Confined id world (enqueue env entry world).2 := by
  unfold enqueue
  split
  · exact confined_refuse _
  · exact confined_attempt (StoreConfined.put (Or.inl own))

theorem confined_remove : Confined id world (remove env id world).2 := by
  unfold remove
  split
  · exact confined_refuse _
  · have released : Confined id world { world with
        store := { world.store with claims := releaseClaim world.store.claims id } } :=
      ⟨StoreConfined.of_entries rfl, rfl, rfl⟩
    have both : Confined id world (World.attempt _ env (.remove id) (.io id)).2 :=
      released.trans (confined_attempt StoreConfined.erase)
    simp only
    revert both
    generalize World.attempt _ env (.remove id) (.io id) = result
    obtain ⟨status, next⟩ := result
    cases status <;> exact fun both => both

theorem confined_enqueueNewLoop {failed : List String} {n : Nat} :
    Confined id world (enqueueNewLoop env failed n entry world).2 := by
  induction n generalizing entry world with
  | zero => exact confined_refuse _
  | succ n ih =>
    unfold enqueueNewLoop
    split
    · exact confined_refuse _
    split
    case isTrue taken => exact (confined_drawn (world.drawn + 1)).trans ih
    case isFalse free =>
      have unused : world.store.entries entry.id = none := by
        simp only [Bool.or_eq_true, not_or] at free
        simpa using free.2
      have stored : Confined id world (world.attempt env (.bounce entry failed) .storage).2 :=
        confined_attempt (StoreConfined.put (Or.inr unused))
      revert stored
      generalize World.attempt world env (.bounce entry failed) .storage = result
      obtain ⟨status, next⟩ := result
      cases status <;> exact fun stored => stored

theorem confined_bounce {pending : PendingBounce} :
    Confined id world (runner.bounce env entry pending now world).2 := by
  unfold QueueRunner.bounce
  split
  · exact Confined.refl id world
  split
  · exact Confined.refl id world
  · simp only
    split
    · exact (confined_drawn (world.drawn + 1)).trans (confined_refuse _)
    · generalize QueueEntry.draft _ _ _ _ _ _ _ = draft
      have drawn : Confined id world _ := confined_drawn (world.drawn + 1)
      have stored : Confined id { world with drawn := world.drawn + 1 }
          (enqueueNew env pending.failed draft { world with drawn := world.drawn + 1 }).2 := by
        unfold enqueueNew
        split
        · exact confined_refuse _
        · exact confined_enqueueNewLoop
      have both := drawn.trans stored
      revert both
      generalize enqueueNew env pending.failed draft _ = result
      obtain ⟨status, next⟩ := result
      cases status <;> exact fun both => both

theorem confined_flushLoop {outcome : EntryOutcome}
    {error : Option QueueError} (own : entry.id = id) :
    let result := runner.flushLoop env now pending entry outcome error world
    result.1.id = id ∧ Confined id world result.2.2.2 := by
  induction pending generalizing entry outcome error world with
  | nil => exact ⟨own, Confined.refl id world⟩
  | cons bounce rest ih =>
    have first : Confined id world (runner.bounce env entry bounce now world).2 := confined_bounce
    unfold QueueRunner.flushLoop
    revert first
    generalize runner.bounce env entry bounce now world = result
    obtain ⟨status, next⟩ := result
    intro first
    cases status with
    | ok sent => cases sent <;> exact ⟨(ih own).1, first.trans (ih own).2⟩
    | error e =>
      have own' : { entry with recipients := readd entry.recipients bounce.failed }.id = id := own
      exact ⟨(ih own').1, first.trans (ih own').2⟩

theorem confined_flushBounces {outcome : EntryOutcome}
    (own : entry.id = id) :
    Confined id world (runner.flushBounces env now entry outcome pending world).2 := by
  have loop : (runner.flushLoop env now pending entry outcome none world).1.id = id ∧
      Confined id world (runner.flushLoop env now pending entry outcome none world).2.2.2 :=
    confined_flushLoop own
  unfold QueueRunner.flushBounces
  revert loop
  generalize runner.flushLoop env now pending entry outcome none world = result
  obtain ⟨entry', outcome', error, next⟩ := result
  intro loop
  cases error with
  | none => exact loop.2
  | some e => exact loop.2.trans (confined_enqueue loop.1)

variable {round : Round}

theorem confined_finish (own : round.entry.id = id) :
    Confined id world (runner.finish env now round world).2 := by
  subst own
  unfold QueueRunner.finish
  simp only
  split
  · have removed : Confined round.entry.id world (remove env round.entry.id world).2 :=
      confined_remove
    revert removed
    generalize remove env round.entry.id world = result
    obtain ⟨status, next⟩ := result
    intro removed
    cases status with
    | error e => exact removed
    | ok existed => exact removed.trans (confined_flushBounces rfl)
  split
  · split
    · exact confined_refuse _
    · have written : Confined round.entry.id world (enqueue env round.entry world).2 :=
        confined_enqueue rfl
      revert written
      generalize enqueue env round.entry world = result
      obtain ⟨status, next⟩ := result
      intro written
      cases status with
      | error e => exact written
      | ok u => exact written.trans (confined_flushBounces rfl)
  · exact confined_flushBounces rfl

theorem confined_abandon (own : round.entry.id = id) :
    Confined id world (runner.abandon env now round world) := by
  subst own
  have written : Confined round.entry.id world
      (if round.mutated then persistBestEffort env round.entry world else world) := by
    split
    · exact confined_enqueue rfl
    · exact Confined.refl _ _
  unfold QueueRunner.abandon
  simp only
  split
  · exact written
  · exact written.trans (confined_flushBounces rfl)

theorem finish_untouched (some : round.entry.recipients ≠ []) (clean : round.mutated = false)
    (none : round.pending = []) : (runner.finish env now round world).2 = world := by
  have recipients : round.entry.recipients.isEmpty = false := List.isEmpty_eq_false_iff.mpr some
  simp only [QueueRunner.finish, recipients, clean, none, Bool.false_eq_true, if_false]
  rfl

/-! ### What every step keeps -/

theorem applyFailure_id
    {failure : DeliveryFailure} :
    (applyFailure backoff round attempted failure now).entry.id = round.entry.id := by
  unfold applyFailure
  simp only
  split_ifs <;> first
    | rfl
    | (split <;> rfl)

theorem applyResult_id {result : DeliveryResult}
    (applied : applyResult backoff round attempted result now = some round') :
    round'.entry.id = round.entry.id := by
  unfold applyResult at applied
  split at applied
  · split at applied
    · cases applied
    · cases applied
      rfl
  · cases applied
    exact applyFailure_id

/-- What a task looks like: its entry is stored as it was when the round began, and a task without
local recipients that was refused has changed nothing. -/
structure Circuit.TaskInv (runner : QueueRunner) (s : Circuit) (id : String) (task : EntryTask) :
    Prop where
  orig : task.orig.id = id
  before : s.before id = some task.orig
  stored : s.world.store.entries id = some task.orig
  unplanned : s.todo id = none
  entry : task.round.entry.id = id
  remote : task.phase = .looking ∨ task.phase = .swapping →
    (partition task.orig runner.policy).2 ≠ []
  idle : (partition task.orig runner.policy).1 = [] →
    task.phase = .localHalf ∨ task.phase = .looking ∨ task.phase = .swapping →
      task.round = Round.start task.orig
  untouched : task.orig ∈ s.refused → task.phase = .finishing ∧
    ((partition task.orig runner.policy).1 = [] →
      task.round.entry = task.orig ∧ task.round.mutated = false ∧ task.round.pending = [] ∧
        (partition task.orig runner.policy).2 ≠ [])

structure Circuit.Inv (runner : QueueRunner) (s : Circuit) : Prop where
  named : ∀ id entry, s.world.store.entries id = some entry → entry.id = id
  probes : (s.started.filter fun start => runner.threshold ≤ start.2).length ≤
    s.world.halfOpenUsed.toNat
  success : ∀ receipt, s.recorded = some (.ok receipt) → s.world.health.consecutiveFailures = 0
  planned : ∀ id entry, s.todo id = some entry →
    entry.id = id ∧ s.before id = some entry ∧ s.world.store.entries id = some entry
  tasks : ∀ id task, s.tasks id = some task → s.TaskInv runner id task
  refused : ∀ entry ∈ s.refused, s.before entry.id = some entry ∧ s.todo entry.id = none ∧
    ((partition entry runner.policy).1 = [] → s.world.store.entries entry.id = some entry)

variable {s s' : Circuit} {task task' : EntryTask}

theorem Circuit.TaskInv.frame (inv : s.TaskInv runner id task) (before : s'.before = s.before)
    (todo : s'.todo id = none) (stored : s'.world.store.entries id = s.world.store.entries id)
    (refused : task.orig ∈ s'.refused → task.orig ∈ s.refused) : s'.TaskInv runner id task where
  orig := inv.orig
  before := before ▸ inv.before
  stored := stored.trans inv.stored
  unplanned := todo
  entry := inv.entry
  remote := inv.remote
  idle := inv.idle
  untouched mem := inv.untouched (refused mem)

theorem Circuit.TaskInv.move (inv : s.TaskInv runner id task) (fresh : task.orig ∉ s.refused)
    (orig : task'.orig = task.orig) (entry : task'.round.entry.id = id)
    (remote : task'.phase = .looking ∨ task'.phase = .swapping →
      (partition task.orig runner.policy).2 ≠ [])
    (idle : (partition task.orig runner.policy).1 = [] →
      task'.phase = .localHalf ∨ task'.phase = .looking ∨ task'.phase = .swapping →
        task'.round = Round.start task.orig) : s.TaskInv runner id task' where
  orig := orig ▸ inv.orig
  before := orig ▸ inv.before
  stored := orig ▸ inv.stored
  unplanned := inv.unplanned
  entry := entry
  remote := orig ▸ remote
  idle := orig ▸ idle
  untouched mem := absurd (orig ▸ mem) fresh

theorem Circuit.TaskInv.fresh (inv : s.TaskInv runner id task) (early : task.phase ≠ .finishing) :
    task.orig ∉ s.refused :=
  fun mem => early (inv.untouched mem).1

theorem Circuit.Inv.retask (inv : s.Inv runner) (named : s'.world.store = s.world.store)
    (before : s'.before = s.before) (todo : s'.todo = s.todo) (refused : s'.refused = s.refused)
    (tasks : s'.tasks = Function.update s.tasks id (some task'))
    (moved : s.TaskInv runner id task')
    (probes : (s'.started.filter fun start => runner.threshold ≤ start.2).length ≤
      s'.world.halfOpenUsed.toNat)
    (success : ∀ receipt, s'.recorded = some (.ok receipt) →
      s'.world.health.consecutiveFailures = 0) : s'.Inv runner where
  named j entry stored := inv.named j entry (named ▸ stored)
  probes := probes
  success := success
  planned j entry mem := by
    rw [before, named]
    exact inv.planned j entry (todo ▸ mem)
  tasks j other found := by
    rw [tasks] at found
    by_cases own : j = id
    · subst own
      rw [Function.update_self] at found
      cases found
      exact moved.frame before (by rw [todo]; exact moved.unplanned) (by rw [named])
        (by rw [refused]; exact fun mem => mem)
    · rw [Function.update_of_ne own] at found
      have old := inv.tasks j other found
      exact old.frame before (by rw [todo]; exact old.unplanned) (by rw [named])
        (by rw [refused]; exact fun mem => mem)
  refused entry mem := by
    rw [before, todo, named]
    exact inv.refused entry (refused ▸ mem)

theorem Circuit.inv_start
    (named : ∀ id entry, world.store.entries id = some entry → entry.id = id) :
    (Circuit.start world).Inv runner where
  named := named
  probes := Nat.zero_le _
  success _ none := by cases none
  planned _ _ none := by cases none
  tasks _ _ none := by cases none
  refused _ none := by cases none

theorem Circuit.Inv.submit (inv : s.Inv runner) {entry : QueueEntry}
    (free : s.world.store.entries entry.id = none) :
    { s with world := { s.world with store := s.world.store.put entry } }.Inv runner := by
  have kept : ∀ j stored, s.world.store.entries j = some stored →
      (s.world.store.put entry).entries j = some stored := by
    intro j stored found
    have ne : j ≠ entry.id := by
      rintro rfl
      rw [free] at found
      cases found
    have put : StoreConfined entry.id s.world.store _ := StoreConfined.put (Or.inr free)
    exact put.kept j stored ne found
  constructor
  case named =>
    intro j stored found
    have put : StoreConfined entry.id s.world.store _ := StoreConfined.put (Or.inr free)
    rcases put.named j stored found with old | own
    · exact inv.named j stored old
    · exact own
  case probes => exact inv.probes
  case success => exact inv.success
  case planned =>
    intro j planned mem
    obtain ⟨own, before, stored⟩ := inv.planned j planned mem
    exact ⟨own, before, kept _ _ stored⟩
  case tasks =>
    intro j task found
    have old := inv.tasks j task found
    exact old.frame rfl old.unplanned ((kept _ _ old.stored).trans old.stored.symm) fun mem => mem
  case refused =>
    intro refused mem
    obtain ⟨before, todo, stored⟩ := inv.refused refused mem
    exact ⟨before, todo, fun none => kept _ _ (stored none)⟩

theorem loadDue_some {store : QueueStore} {claimed : String → Bool}
    (loaded : loadDue store claimed now id = some entry) : store.entries id = some entry := by
  unfold loadDue at loaded
  split at loaded
  · split at loaded
    · cases loaded
      assumption
    · cases loaded
  · cases loaded

theorem Circuit.Inv.begin (inv : s.Inv runner) (now : Int) : (s.begin now).Inv runner where
  named := inv.named
  probes := Nat.zero_le _
  success := inv.success
  planned j entry mem := by
    have stored := loadDue_some mem
    exact ⟨inv.named j entry stored, stored, stored⟩
  tasks _ _ none := by cases none
  refused _ none := by cases none

theorem Circuit.Inv.unplan (inv : s.Inv runner) (id : String) :
    { s with todo := Function.update s.todo id none }.Inv runner := by
  have fewer : ∀ j, Function.update s.todo id none j = none ∨
      Function.update s.todo id none j = s.todo j := by
    intro j
    by_cases own : j = id
    · subst own
      exact Or.inl (Function.update_self ..)
    · exact Or.inr (Function.update_of_ne own ..)
  have still : ∀ j, s.todo j = none → Function.update s.todo id none j = none := by
    intro j none
    rcases fewer j with gone | same
    · exact gone
    · exact same.trans none
  constructor
  case named => exact inv.named
  case probes => exact inv.probes
  case success => exact inv.success
  case planned =>
    intro j entry mem
    rcases fewer j with gone | same
    · exact absurd (mem.symm.trans gone) (by simp)
    · exact inv.planned j entry (same ▸ mem)
  case tasks =>
    intro j task found
    have old := inv.tasks j task found
    exact old.frame rfl (still j old.unplanned) rfl fun mem => mem
  case refused =>
    intro entry mem
    obtain ⟨before, todo, stored⟩ := inv.refused entry mem
    exact ⟨before, still _ todo, stored⟩

theorem Circuit.Inv.reclaim (inv : s.Inv runner) (claims : ClaimDir) :
    { s with world := { s.world with store := { s.world.store with claims } } }.Inv runner where
  named := inv.named
  probes := inv.probes
  success := inv.success
  planned := inv.planned
  tasks id task found :=
    (inv.tasks id task found).frame rfl (inv.tasks id task found).unplanned rfl fun mem => mem
  refused := inv.refused

theorem Circuit.Inv.claim (inv : s.Inv runner) {wrote : Bool} (h : s.claim id wrote = some s') :
    s'.Inv runner := by
  unfold Circuit.claim at h
  split at h
  · cases h
  rename_i entry planned
  obtain ⟨own, before, stored⟩ := inv.planned id entry planned
  have fewer := inv.unplan id
  simp only at h
  split at h
  · cases h
    refine (fewer.reclaim _).retask rfl rfl rfl rfl rfl ?_ fewer.probes fewer.success
    constructor
    case orig => exact own
    case before => exact before
    case stored => exact stored
    case unplanned => exact Function.update_self ..
    case entry => exact own
    case remote => rintro (h | h) <;> cases h
    case idle => exact fun _ _ => rfl
    case untouched =>
      intro mem
      obtain ⟨_, unplanned, _⟩ := inv.refused entry mem
      rw [own, planned] at unplanned
      cases unplanned
  · cases h
    exact fewer

theorem localHalf_store :
    (runner.localHalf env now recipients round world).2.store = world.store := by
  unfold QueueRunner.localHalf
  split <;> rfl

theorem localHalf_id
    (delivered : (runner.localHalf env now recipients round world).1 = some round') :
    round'.entry.id = round.entry.id ∧ (recipients = [] → round' = round) := by
  unfold QueueRunner.localHalf at delivered
  split at delivered
  · cases delivered
    exact ⟨rfl, fun _ => rfl⟩
  · rename_i some
    exact ⟨applyResult_id delivered, fun none => absurd (by simp [none]) some⟩

theorem Circuit.Inv.deliverLocal (inv : s.Inv runner) (found : s.tasks id = some task)
    (phase : task.phase = .localHalf) : (s.deliverLocal runner id env task).Inv runner := by
  have old := inv.tasks id task found
  have fresh := old.fresh (by rw [phase]; decide)
  unfold Circuit.deliverLocal
  simp only
  have health := (localHalf_health runner env s.now (partition task.orig runner.policy).1 task.round
    s.world).1
  have flag := (localHalf_health runner env s.now (partition task.orig runner.policy).1 task.round
    s.world).2
  have store : (runner.localHalf env s.now (partition task.orig runner.policy).1 task.round
      s.world).2.store = s.world.store := localHalf_store
  have spec : ∀ round', (runner.localHalf env s.now (partition task.orig runner.policy).1 task.round
      s.world).1 = some round' → _ := fun _ => localHalf_id
  revert health flag store spec
  generalize runner.localHalf env s.now (partition task.orig runner.policy).1 task.round s.world =
    result
  obtain ⟨delivered, world⟩ := result
  intro health flag store spec
  simp only at health flag store spec
  cases delivered with
  | none =>
    refine inv.retask store rfl rfl rfl rfl ?_ ?_ ?_
    · exact old.move fresh rfl old.entry (by rintro (h | h) <;> cases h)
        (by rintro _ (h | h | h) <;> cases h)
    · simpa only [Circuit.setTask, flag] using inv.probes
    · simpa only [Circuit.setTask, health] using inv.success
  | some round =>
    obtain ⟨same, idle⟩ := spec round rfl
    refine inv.retask store rfl rfl rfl rfl ?_ ?_ ?_
    · refine old.move fresh rfl (same.trans old.entry) ?_ ?_
      · intro later none
        simp [none] at later
      · intro none _
        show round = _
        rw [idle none]
        exact old.idle none (Or.inl phase)
    · simpa only [Circuit.setTask, flag] using inv.probes
    · simpa only [Circuit.setTask, health] using inv.success

theorem Circuit.Inv.look (inv : s.Inv runner) (found : s.tasks id = some task)
    (phase : task.phase = .looking) : (s.look runner id task).Inv runner := by
  have old := inv.tasks id task found
  have fresh := old.fresh (by rw [phase]; decide)
  unfold Circuit.look
  simp only
  split
  case isTrue below =>
    refine inv.retask rfl rfl rfl rfl rfl ?_ ?_ inv.success
    · exact old.move fresh rfl old.entry (by rintro (h | h) <;> cases h)
        (by rintro _ (h | h | h) <;> cases h)
    · show ((s.started ++ [(id, s.world.health.consecutiveFailures)]).filter _).length ≤ _
      have small : ¬ runner.threshold ≤ s.world.health.consecutiveFailures := by omega
      rw [List.filter_append, List.filter_cons_of_neg (by simpa using small), List.filter_nil,
        List.append_nil]
      exact inv.probes
  case isFalse =>
    refine inv.retask rfl rfl rfl rfl rfl ?_ inv.probes inv.success
    exact old.move fresh rfl old.entry (fun _ => old.remote (Or.inl phase))
      fun none _ => old.idle none (Or.inr (Or.inl phase))

theorem Circuit.Inv.swap_started (inv : s.Inv runner) (old : s.TaskInv runner id task)
    (phase : task.phase = .swapping) (down : s.world.halfOpenUsed = false) :
    ({ s with
        world := { s.world with halfOpenUsed := true }
        started := s.started ++ [(id, s.world.health.consecutiveFailures)] }.setTask id
      { task with phase := .sending }).Inv runner := by
  refine inv.retask rfl rfl rfl rfl rfl ?_ ?_ inv.success
  · exact old.move (old.fresh (by rw [phase]; decide)) rfl old.entry (by rintro (h | h) <;> cases h)
      (by rintro _ (h | h | h) <;> cases h)
  · have none := inv.probes
    rw [down] at none
    show ((s.started ++ [(id, s.world.health.consecutiveFailures)]).filter _).length ≤ 1
    have last := List.length_filter_le (fun start : String × Nat => runner.threshold ≤ start.2)
      [(id, s.world.health.consecutiveFailures)]
    rw [List.filter_append, List.length_append]
    rw [List.length_singleton] at last
    have zero : (false.toNat : Nat) = 0 := rfl
    omega

theorem Circuit.Inv.swap_refused (inv : s.Inv runner) (old : s.TaskInv runner id task)
    (phase : task.phase = .swapping) (up : s.world.halfOpenUsed = true) (outcome : EntryOutcome) :
    ({ s with
        world := { s.world with halfOpenUsed := true }
        refused := s.refused ++ [task.orig] }.setTask id
      { task with round := { task.round with outcome }, phase := .finishing }).Inv runner := by
  have named := old.orig
  constructor
  case named => exact inv.named
  case probes =>
    have most := inv.probes
    rw [up] at most
    exact most
  case success => exact inv.success
  case planned => exact inv.planned
  case tasks =>
    intro j other found
    by_cases own : j = id
    · subst own
      have eq : Function.update s.tasks j (some _) j = some other := found
      rw [Function.update_self] at eq
      cases eq
      constructor
      case orig => exact old.orig
      case before => exact old.before
      case stored => exact old.stored
      case unplanned => exact old.unplanned
      case entry => exact old.entry
      case remote => rintro (h | h) <;> cases h
      case idle => rintro _ (h | h | h) <;> cases h
      case untouched =>
        refine fun _ => ⟨rfl, fun none => ?_⟩
        have start := old.idle none (Or.inr (Or.inr phase))
        show task.round.entry = task.orig ∧ task.round.mutated = false ∧ task.round.pending = [] ∧ _
        rw [start]
        exact ⟨rfl, rfl, rfl, old.remote (Or.inr phase)⟩
    · have before : Function.update s.tasks id (some _) j = some other := found
      rw [Function.update_of_ne own] at before
      have theirs := inv.tasks j other before
      refine theirs.frame rfl theirs.unplanned rfl fun mem => ?_
      rcases List.mem_append.mp mem with there | here
      · exact there
      · rw [List.mem_singleton] at here
        exact absurd (theirs.orig.symm.trans ((congrArg QueueEntry.id here).trans named)) own
  case refused =>
    intro entry mem
    rcases List.mem_append.mp mem with there | here
    · exact inv.refused entry there
    · rw [List.mem_singleton] at here
      subst here
      rw [named]
      exact ⟨old.before, old.unplanned, fun _ => old.stored⟩

theorem Circuit.Inv.swap (inv : s.Inv runner) (found : s.tasks id = some task)
    (phase : task.phase = .swapping) : (s.swap id task).Inv runner := by
  have old := inv.tasks id task found
  unfold Circuit.swap
  simp only
  split
  case isTrue up => exact inv.swap_refused old phase up _
  case isFalse down => exact inv.swap_started old phase (Bool.eq_false_iff.mpr down)

theorem recordRemote_success {receipt : DeliveryReceipt} (ok : env.remoteResult = .ok receipt) :
    (recordRemote env world).health.consecutiveFailures = 0 := by
  unfold recordRemote
  rw [ok]
  rfl

theorem recordRemote_flag : (recordRemote env world).halfOpenUsed = world.halfOpenUsed := by
  unfold recordRemote recordRemoteSuccess recordRemoteFailure
  split
  · rfl
  · split <;> rfl

theorem Circuit.Inv.outcome (inv : s.Inv runner) (found : s.tasks id = some task)
    (phase : task.phase = .sending) : (s.outcome runner id env task).Inv runner := by
  have old := inv.tasks id task found
  have fresh := old.fresh (by rw [phase]; decide)
  unfold Circuit.outcome
  simp only
  split
  · refine inv.retask rfl rfl rfl rfl rfl ?_ inv.probes inv.success
    exact old.move fresh rfl old.entry (by rintro (h | h) <;> cases h)
      (by rintro _ (h | h | h) <;> cases h)
  · rename_i round applied
    refine inv.retask (recordRemote_store env _).1 rfl rfl rfl rfl ?_ ?_ ?_
    · exact old.move fresh rfl ((applyResult_id applied).trans old.entry)
        (by rintro (h | h) <;> cases h) (by rintro _ (h | h | h) <;> cases h)
    · simpa only [Circuit.setTask, recordRemote_flag] using inv.probes
    · intro receipt recorded
      exact recordRemote_success (Option.some.inj recorded)

theorem Circuit.Inv.ended (inv : s.Inv runner) (found : s.tasks id = some task)
    (confined : Confined id s.world world) (claims : ClaimDir)
    (untouched : task.orig ∈ s.refused → (partition task.orig runner.policy).1 = [] →
      world.store.entries = s.world.store.entries) :
    { s with
        world := { world with store := { world.store with claims } }
        tasks := Function.update s.tasks id none }.Inv runner := by
  have own := inv.tasks id task found
  have apart : ∀ j entry, s.todo j = some entry → j ≠ id := by
    rintro j entry planned rfl
    rw [own.unplanned] at planned
    cases planned
  constructor
  case named =>
    intro j entry stored
    rcases confined.store.named j entry stored with old | named
    · exact inv.named j entry old
    · exact named
  case probes => simpa only [confined.flag] using inv.probes
  case success => simpa only [confined.health] using inv.success
  case planned =>
    intro j entry planned
    obtain ⟨named, before, stored⟩ := inv.planned j entry planned
    exact ⟨named, before, confined.store.kept j entry (apart j entry planned) stored⟩
  case tasks =>
    intro j other there
    by_cases same : j = id
    · subst same
      have gone : Function.update s.tasks j none j = some other := there
      rw [Function.update_self] at gone
      cases gone
    · have before : Function.update s.tasks id none j = some other := there
      rw [Function.update_of_ne same] at before
      have theirs := inv.tasks j other before
      exact theirs.frame rfl theirs.unplanned
        ((confined.store.kept j _ same theirs.stored).trans theirs.stored.symm) fun mem => mem
  case refused =>
    intro entry mem
    obtain ⟨before, todo, stored⟩ := inv.refused entry mem
    refine ⟨before, todo, fun none => ?_⟩
    by_cases same : entry.id = id
    · have eq : entry = task.orig := by
        rw [same, own.before] at before
        exact (Option.some.inj before).symm
      subst eq
      exact (congrFun (untouched mem none) _).trans (stored none)
    · exact confined.store.kept _ _ same (stored none)

theorem Circuit.Inv.finish (inv : s.Inv runner) (found : s.tasks id = some task)
    (h : s.finish runner id env task = some s') : s'.Inv runner := by
  have old := inv.tasks id task found
  unfold Circuit.finish at h
  simp only at h
  split at h
  case h_1 phase =>
    cases h
    refine inv.ended found (confined_finish old.entry) _ fun mem none => ?_
    obtain ⟨entry, clean, pending, remote⟩ := (old.untouched mem).2 none
    have some : task.round.entry.recipients ≠ [] := by
      intro empty
      rw [entry] at empty
      simp [partition, empty] at remote
    rw [finish_untouched some clean pending]
  case h_2 phase =>
    cases h
    exact inv.ended found (confined_abandon old.entry) _ fun mem _ =>
      absurd ((old.untouched mem).1.symm.trans phase) (by decide)
  case h_3 phase =>
    cases h
    exact inv.ended found (Confined.refl id _) _ fun _ _ => rfl
  case h_4 => cases h

theorem Circuit.Inv.step (inv : s.Inv runner) {l : CircuitStep}
    (h : s.step runner l = some s') : s'.Inv runner := by
  cases l with
  | submit entry =>
    simp only [Circuit.step] at h
    split at h
    · cases h
    case isFalse free =>
      cases h
      exact inv.submit (by simpa using free)
  | begin now =>
    cases h
    exact inv.begin now
  | claim id wrote => exact inv.claim h
  | deliverLocal id env =>
    simp only [Circuit.step] at h
    split at h
    · rename_i task found
      split at h
      case isTrue phase => cases h; exact inv.deliverLocal found phase
      case isFalse => cases h
    · cases h
  | look id =>
    simp only [Circuit.step] at h
    split at h
    · rename_i task found
      split at h
      case isTrue phase => cases h; exact inv.look found phase
      case isFalse => cases h
    · cases h
  | swap id =>
    simp only [Circuit.step] at h
    split at h
    · rename_i task found
      split at h
      case isTrue phase => cases h; exact inv.swap found phase
      case isFalse => cases h
    · cases h
  | outcome id env =>
    simp only [Circuit.step] at h
    split at h
    · rename_i task found
      split at h
      case isTrue phase => cases h; exact inv.outcome found phase
      case isFalse => cases h
    · cases h
  | finish id env =>
    simp only [Circuit.step] at h
    split at h
    · rename_i task found
      exact inv.finish found h
    · cases h

/-- In every run of rounds with any number of tasks, in any order of their steps: of the remote
deliveries of a round at most one was started when the count of failures was at the threshold or
above; a task with remote recipients only that was refused has its entry stored as it was when the
round began; and the count is below the threshold when the last recorded outcome is a success. -/
theorem half_open_circuit (runner : QueueRunner) {world : World} {steps : List CircuitStep}
    (named : ∀ id entry, world.store.entries id = some entry → entry.id = id)
    (run : Reaches (Circuit.step runner) (Circuit.start world) steps s) :
    (s.started.filter fun start => max runner.config.blockedThreshold 1 ≤ start.2).length ≤ 1 ∧
    (∀ entry ∈ s.refused, (partition entry runner.policy).1 = [] →
      s.before entry.id = some entry ∧ s.world.store.entries entry.id = some entry) ∧
    ∀ receipt, s.recorded = some (.ok receipt) →
      s.world.health.consecutiveFailures < max runner.config.blockedThreshold 1 := by
  have inv : s.Inv runner :=
    run.invariant (Circuit.inv_start named) fun _ _ _ inv _ h => inv.step h
  refine ⟨?_, ?_, ?_⟩
  · exact inv.probes.trans (Bool.toNat_le _)
  · intro entry mem none
    obtain ⟨before, _, stored⟩ := inv.refused entry mem
    exact ⟨before, stored none⟩
  · intro receipt recorded
    rw [inv.success receipt recorded]
    exact lt_of_lt_of_le one_pos (le_max_right _ _)

def blockedWorld : World :=
  { plainWorld rejectedEntry with health := { consecutiveFailures := 3 } }

/-- Of two tasks that both find the count at the threshold the first one to swap the flag
delivers. -/
def probeSteps : List CircuitStep :=
  [.submit { rejectedEntry with id := "q2" }, .begin 0, .claim "q1" true, .claim "q2" true,
    .deliverLocal "q1" (rejectingEnv none), .deliverLocal "q2" (rejectingEnv none), .look "q1",
    .look "q2", .swap "q2", .swap "q1"]

theorem half_open_circuit_probe :
    ∃ s, exec (Circuit.step plainRunner) (Circuit.start blockedWorld) probeSteps = some s ∧
      (s.started.filter fun start => 3 ≤ start.2).length ≤ 1 ∧
      ∀ entry ∈ s.refused, (partition entry plainRunner.policy).1 = [] →
        s.before entry.id = some entry ∧ s.world.store.entries entry.id = some entry := by
  have ends : (exec (Circuit.step plainRunner) (Circuit.start blockedWorld) probeSteps).isSome := by
    decide +kernel
  obtain ⟨s, run⟩ := Option.isSome_iff_exists.mp ends
  have spec := @half_open_circuit s plainRunner blockedWorld probeSteps plainWorld_named
    (reaches_of_exec run)
  exact ⟨s, run, spec.1, spec.2.1⟩

end MailStack.Queue
