import MailStack.Queue.Crash
import MailStack.Queue.Lease

/-! Several runners over one queue directory. A round works from a copy of the entries that it reads
before it claims them, so a runner may claim an entry that another one has finished in the meantime
and deliver from the old copy. -/

namespace MailStack.Queue

open Lib Smtp

inductive Phase
  | localHalf
  | remoteHalf
  | finish
  | abandon
  | bouncing
  | closing
deriving DecidableEq

def Phase.isOpen : Phase → Bool
  | .localHalf | .remoteHalf | .finish | .abandon => true
  | .bouncing | .closing => false

/-- A call of `process` under way, with the copy of the entry that it was given. -/
structure Task where
  orig : QueueEntry
  now : Int
  round : Round
  phase : Phase

inductive FleetEvent (R : Type)
  | handed (runner : R) (id : String) (recipients : List String)
  | accepted (runner : R) (id : String) (recipients : List String)
  | removed (runner : R) (id : String)
  | wrote (runner : R) (id : String)

/-- The queue directory, the ids that were ever used in it, each runner's round (the claims it saw,
the entries it still has to claim, its tasks), and what happened so far. -/
structure Fleet (R : Type) where
  store : QueueStore
  used : String → Bool
  seen : R → Option (String → Bool)
  todo : R → String → Option QueueEntry
  tasks : R → String → Option Task
  log : List (FleetEvent R)

def Fleet.init {R : Type} (store : QueueStore) : Fleet R :=
  { store
    used := fun id => (store.entries id).isSome
    seen := fun _ => none
    todo := fun _ _ => none
    tasks := fun _ _ => none
    log := [] }

/-- The steps of the runners, and the arrival of a new entry. -/
inductive FleetStep (R : Type)
  | submit (entry : QueueEntry)
  | survey (runner : R) (now : Int)
  | load (runner : R) (now : Int)
  | claim (runner : R) (id : String) (now : Int) (wrote : Bool)
  | deliverLocal (runner : R) (id : String) (result : DeliveryResult)
  | deliverRemote (runner : R) (id : String) (passes : Bool) (result : DeliveryResult)
  | persist (runner : R) (id : String)
  | bounce (runner : R) (id newId createdAt date boundary : String)
  | release (runner : R) (id : String)

section Fleet

variable {R : Type} [DecidableEq R] (conf : R → QueueRunner) {event : FleetEvent R}
  {entry : QueueEntry} {r' : R}

def shares (runner : R) (task : Task) : List String × List String :=
  partition task.orig (RelayPolicy.new (conf runner).config.managedDomains)

/-- What `load_due` gives a runner: the entries that are due, without those it saw claimed. -/
def loadDue (store : QueueStore) (claimed : String → Bool) (now : Int) (id : String) :
    Option QueueEntry :=
  match store.entries id with
  | some entry =>
    if entry.validate = .ok () ∧ entry.isDue now = true ∧ claimed id = false then some entry
    else none
  | none => none

def Fleet.setTask (s : Fleet R) (runner : R) (id : String) (task : Task) : Fleet R :=
  { s with tasks := setAt s.tasks runner id (some task) }

def Fleet.note (s : Fleet R) (events : List (FleetEvent R)) : Fleet R :=
  { s with log := s.log ++ events }

/-- A transport is called: it only accepts recipients that it is handed. -/
def Fleet.call (s : Fleet R) (runner : R) (id : String) (task : Task) (recipients : List String)
    (result : DeliveryResult) (next miscounted : Phase) : Option (Fleet R) :=
  if (acceptedBy recipients result).all recipients.contains = false then none
  else
    let s := s.note
      [.handed runner id recipients, .accepted runner id (acceptedBy recipients result)]
    match applyResult (conf runner).config.backoff task.round recipients result task.now with
    | none => some (s.setTask runner id { task with phase := miscounted })
    | some round => some (s.setTask runner id { task with round, phase := next })

/-- The entry of a task is written back, or removed when nobody is left on it. -/
def Fleet.writeBack (s : Fleet R) (runner : R) (id : String) (task : Task) : Fleet R :=
  let s' := s.setTask runner id { task with phase := .bouncing }
  match task.phase with
  | .finish =>
    if task.round.entry.recipients.isEmpty then
      { s' with store := s.store.erase id }.note [.removed runner id]
    else if task.round.mutated then
      match task.round.entry.validate with
      | .ok () => { s' with store := s.store.put task.round.entry }.note [.wrote runner id]
      | .error _ => s.setTask runner id { task with phase := .closing }
    else s'
  | _ =>
    if task.round.mutated then
      match task.round.entry.validate with
      | .ok () => { s' with store := s.store.put task.round.entry }.note [.wrote runner id]
      | .error _ => s'
    else s'

/-- The next bounce of a task, under an id that nothing had before. -/
def Fleet.nextBounce (s : Fleet R) (runner : R) (id : String) (task : Task)
    (newId createdAt date boundary : String) : Option (Fleet R) :=
  match task.round.pending with
  | [] => none
  | pending :: rest =>
    let s' := s.setTask runner id { task with round := { task.round with pending := rest } }
    if task.round.entry.kind = .bounce || task.round.entry.isNullSender then some s'
    else
      match dsnRecipient task.round.entry with
      | none => some s'
      | some recipient =>
        if s.used newId || !isSafeId newId then none
        else
          let message := buildDsn
            { reportingMta := (conf runner).config.reportingMta
              original := task.round.entry
              failedRecipients := pending.failed
              diagnostic := pending.diagnostic
              statusCode := pending.code } date boundary
          let dsn := QueueEntry.draft newId createdAt .bounce dsnEnvelopeFrom [recipient] message
            task.now
          some ({ s' with
            store := s.store.put dsn
            used := Function.update s.used newId true }.note [.wrote runner newId])

/-- One step. No store operation fails. -/
def Fleet.step (s : Fleet R) : FleetStep R → Option (Fleet R)
  | .submit entry =>
    if s.used entry.id then none
    else
      some
        { s with
          store := s.store.put entry
          used := Function.update s.used entry.id true }
  | .survey runner now =>
    if s.seen runner = none then
      some
        { s with
          store := { s.store with claims := pruneClaims s.store.claims now }
          seen := Function.update s.seen runner
            (some (claimedIds (pruneClaims s.store.claims now) now)) }
    else none
  | .load runner now =>
    match s.seen runner with
    | none => none
    | some claimed =>
      some
        { s with
          seen := Function.update s.seen runner none
          todo := Function.update s.todo runner (loadDue s.store claimed now) }
  | .claim runner id now wrote =>
    match s.todo runner id with
    | none => none
    | some entry =>
      let s := { s with todo := setAt s.todo runner id none }
      match tryClaim s.store.claims id now (claimFile now wrote) with
      | .ok (true, claims) =>
        some ({ s with store := { s.store with claims } }.setTask runner id
          { orig := entry, now, round := Round.start entry, phase := .localHalf })
      | _ => some s
  | .deliverLocal runner id result =>
    match s.tasks runner id with
    | none => none
    | some task =>
      if task.phase = .localHalf then
        let recipients := (shares conf runner task).1
        if recipients.isEmpty then some (s.setTask runner id { task with phase := .remoteHalf })
        else s.call conf runner id task recipients result .remoteHalf .closing
      else none
  | .deliverRemote runner id passes result =>
    match s.tasks runner id with
    | none => none
    | some task =>
      if task.phase = .remoteHalf then
        let recipients := (shares conf runner task).2
        if recipients.isEmpty || !passes then
          some (s.setTask runner id { task with phase := .finish })
        else s.call conf runner id task recipients result .finish .abandon
      else none
  | .persist runner id =>
    match s.tasks runner id with
    | none => none
    | some task =>
      if task.phase = .finish || task.phase = .abandon then some (s.writeBack runner id task)
      else none
  | .bounce runner id newId createdAt date boundary =>
    match s.tasks runner id with
    | none => none
    | some task =>
      if task.phase = .bouncing then
        s.nextBounce conf runner id task newId createdAt date boundary
      else none
  | .release runner id =>
    match s.tasks runner id with
    | none => none
    | some task =>
      if task.phase = .closing || (task.phase = .bouncing && task.round.pending.isEmpty) then
        some
          { s with
            store := { s.store with claims := releaseClaim s.store.claims id }
            tasks := setAt s.tasks runner id none }
      else none

/-- No later event of the log repeats what an earlier one of another runner settled: a recipient
that was accepted is not handed out again, and an entry that was removed is not written. -/
def NoRedelivery (log : List (FleetEvent R)) : Prop :=
  log.Pairwise fun earlier later =>
    match earlier, later with
    | .accepted r id xs, .handed r' id' ys => r ≠ r' → id = id' → ∀ x ∈ xs, x ∉ ys
    | .removed r id, .wrote r' id' => r ≠ r' → id ≠ id'
    | _, _ => True

/-- No claim file is older than its lifetime when a runner looks at it. -/
def Fleet.NoExpiry (s : Fleet R) : FleetStep R → Prop
  | .survey _ now | .claim _ _ now _ =>
    ∀ id, s.store.claims id ≠ none → claimIsFresh (s.store.claims id) now = true
  | _ => True

/-- An entry is claimed only while it is still stored with all the recipients of the copy that the
runner will deliver from. -/
def Fleet.Current (s : Fleet R) : FleetStep R → Prop
  | .claim runner id _ _ => ∀ entry, s.todo runner id = some entry → s.store.claims id = none →
    ∃ stored, s.store.entries id = some stored ∧ entry.recipients ⊆ stored.recipients
  | _ => True

/-! ### What holds between the steps -/

/-- `x` was accepted by a transport of `r` for the entry `id`. -/
def Fleet.Accepted (s : Fleet R) (r : R) (id x : String) : Prop :=
  ∃ xs, FleetEvent.accepted r id xs ∈ s.log ∧ x ∈ xs

/-- What a task of runner `r` on the entry `id` looks like: its entry only lost recipients, and
until it is written back the recipients for the remote transport are on it. -/
structure TaskOk (r : R) (id : String) (task : Task) : Prop where
  origId : task.orig.id = id
  valid : task.orig.validate = .ok ()
  roundId : task.round.entry.id = id
  mailFrom : task.round.entry.mailFrom = task.orig.mailFrom
  data : task.round.entry.data = task.orig.data
  subset : task.round.entry.recipients ⊆ task.orig.recipients
  start : task.phase = .localHalf → task.round = Round.start task.orig
  remote : task.phase = .remoteHalf ∨ task.phase = .abandon →
    (shares conf r task).2 ⊆ task.round.entry.recipients
  nonempty : task.phase = .abandon → (shares conf r task).2 ≠ []

structure Fleet.Inv (s : Fleet R) : Prop where
  tasks : ∀ r id task, s.tasks r id = some task → TaskOk conf r id task
  claimed : ∀ r id task, s.tasks r id = some task →
    s.store.claims id ≠ none ∨ task.phase = .bouncing ∧ s.store.entries id = none
  alone : ∀ r r' id task task', s.tasks r id = some task → s.tasks r' id = some task' → r = r'
  settled : ∀ r id x entry, s.Accepted r id x → s.store.entries id = some entry →
    x ∈ entry.recipients →
    ∃ task, s.tasks r id = some task ∧ task.phase.isOpen = true ∧ task.round.mutated = true
  others : ∀ r r' id task x, s.tasks r id = some task → r' ≠ r → s.Accepted r' id x →
    x ∉ task.orig.recipients
  own : ∀ r id task x, s.tasks r id = some task → s.Accepted r id x →
    task.phase.isOpen = true → x ∉ task.round.entry.recipients
  gone : ∀ r id, FleetEvent.removed r id ∈ s.log →
    s.store.entries id = none ∧ ∀ r' task, s.tasks r' id = some task → task.phase.isOpen = false
  named : ∀ id entry, s.store.entries id = some entry → entry.id = id ∧ s.used id = true
  planned : ∀ r id entry, s.todo r id = some entry →
    entry.id = id ∧ entry.validate = .ok () ∧ s.used id = true
  logged : ∀ r id x, s.Accepted r id x → s.used id = true
  erased : ∀ r id, FleetEvent.removed r id ∈ s.log → s.used id = true
  busy : ∀ r id task, s.tasks r id = some task → s.used id = true
  log : NoRedelivery s.log

variable {conf}

theorem setAt_some {α : Type} {f : R → String → Option α} {r r' : R} {id i : String} {v : Option α}
    {u : α} (h : setAt f r id v r' i = some u) :
    (r' = r ∧ i = id ∧ v = some u) ∨ (¬(r' = r ∧ i = id) ∧ f r' i = some u) := by
  by_cases same : r' = r ∧ i = id
  · obtain ⟨rfl, rfl⟩ := same
    rw [setAt_self] at h
    exact .inl ⟨rfl, rfl, h⟩
  · rw [setAt_other _ _ (not_and_or.mp same)] at h
    exact .inr ⟨same, h⟩

theorem setAt_old {α : Type} {f : R → String → Option α} {r r' : R} {id i : String} {v : Option α}
    {t u : α} (here : f r id = some t) (h : setAt f r id v r' i = some u) :
    ∃ t', f r' i = some t' := by
  obtain ⟨rfl, rfl, -⟩ | ⟨-, hu⟩ := setAt_some h
  · exact ⟨t, here⟩
  · exact ⟨u, hu⟩

section Replaced

variable {s : Fleet R} {r a b : R} {id i x : String} {task task' u v : Task}

theorem Fleet.Inv.tasks_set (inv : s.Inv conf) (ok : TaskOk conf r id task')
    (h : setAt s.tasks r id (some task') a i = some u) : TaskOk conf a i u := by
  obtain ⟨rfl, rfl, hu⟩ | ⟨-, hu⟩ := setAt_some h
  · cases hu; exact ok
  · exact inv.tasks a i u hu

theorem Fleet.Inv.alone_set (inv : s.Inv conf) (here : s.tasks r id = some task)
    (ha : setAt s.tasks r id (some task') a i = some u)
    (hb : setAt s.tasks r id (some task') b i = some v) : a = b := by
  obtain ⟨u', hu⟩ := setAt_old here ha
  obtain ⟨v', hv⟩ := setAt_old here hb
  exact inv.alone _ _ _ _ _ hu hv

theorem Fleet.Inv.others_set (inv : s.Inv conf) (here : s.tasks r id = some task)
    (orig : task'.orig = task.orig) (h : setAt s.tasks r id (some task') a i = some u) (ne : b ≠ a)
    (acc : s.Accepted b i x) : x ∉ u.orig.recipients := by
  obtain ⟨rfl, rfl, hu⟩ | ⟨-, hu⟩ := setAt_some h
  · cases hu
    rw [orig]
    exact inv.others _ _ _ _ _ here ne acc
  · exact inv.others _ _ _ _ _ hu ne acc

theorem Fleet.Inv.own_set (inv : s.Inv conf) (closed : task'.phase.isOpen = false)
    (h : setAt s.tasks r id (some task') a i = some u) (acc : s.Accepted a i x)
    (isOpen : u.phase.isOpen = true) : x ∉ u.round.entry.recipients := by
  obtain ⟨rfl, rfl, hu⟩ | ⟨-, hu⟩ := setAt_some h
  · cases hu
    rw [closed] at isOpen
    contradiction
  · exact inv.own _ _ _ _ hu acc isOpen

theorem Fleet.Inv.busy_set (inv : s.Inv conf) (here : s.tasks r id = some task)
    (h : setAt s.tasks r id (some task') a i = some u) : s.used i = true := by
  obtain ⟨u', hu⟩ := setAt_old here h
  exact inv.busy _ _ _ hu

end Replaced

theorem Fleet.Inv.retask {s : Fleet R} (inv : s.Inv conf) {r : R} {id : String} {task task' : Task}
    (here : s.tasks r id = some task) (ok : TaskOk conf r id task') (orig : task'.orig = task.orig)
    (opens : task'.phase.isOpen = true → task.phase.isOpen = true)
    (bouncing : task.phase = .bouncing → task'.phase = .bouncing)
    (dirty : task.phase.isOpen = true → task.round.mutated = true →
      task'.phase.isOpen = true ∧ task'.round.mutated = true)
    (subset : task'.round.entry.recipients ⊆ task.round.entry.recipients) :
    (s.setTask r id task').Inv conf where
  tasks _ _ _ := inv.tasks_set ok
  claimed r' i u h := by
    obtain ⟨rfl, rfl, hu⟩ | ⟨-, hu⟩ := setAt_some h
    · cases hu
      exact (inv.claimed _ _ _ here).imp_right fun b => ⟨bouncing b.1, b.2⟩
    · exact inv.claimed r' i u hu
  alone _ _ _ _ _ := inv.alone_set here
  settled a i x e acc stored mem := by
    obtain ⟨u, hu, open', mutated⟩ := inv.settled a i x e acc stored mem
    by_cases same : a = r ∧ i = id
    · obtain ⟨rfl, rfl⟩ := same
      rw [here] at hu
      cases hu
      exact ⟨task', setAt_self _ _ _ _, dirty open' mutated⟩
    · exact ⟨u, by rw [← hu]; exact setAt_other _ _ (not_and_or.mp same), open', mutated⟩
  others _ _ _ _ _ := inv.others_set here orig
  own a i u x h acc open' := by
    obtain ⟨rfl, rfl, hu⟩ | ⟨-, hu⟩ := setAt_some h
    · cases hu
      exact fun mem => inv.own _ _ _ _ here acc (opens open') (subset mem)
    · exact inv.own _ _ _ _ hu acc open'
  gone a i mem := by
    refine ⟨(inv.gone a i mem).1, fun b u h => ?_⟩
    obtain ⟨rfl, rfl, hu⟩ | ⟨-, hu⟩ := setAt_some h
    · cases hu
      have closed := (inv.gone a i mem).2 _ _ here
      by_contra still
      rw [opens (by simpa using still)] at closed
      contradiction
    · exact (inv.gone a i mem).2 _ _ hu
  named := inv.named
  planned := inv.planned
  logged := inv.logged
  erased := inv.erased
  busy _ _ _ := inv.busy_set here
  log := inv.log

omit [DecidableEq R] in
theorem noRedelivery_snoc {log : List (FleetEvent R)} (h : NoRedelivery log)
    (handed : ∀ r id ys, event = .handed r id ys → ∀ r' xs, r' ≠ r →
      FleetEvent.accepted r' id xs ∈ log → ∀ x ∈ xs, x ∉ ys)
    (wrote : ∀ r id, event = .wrote r id → ∀ r', r' ≠ r → FleetEvent.removed r' id ∉ log) :
    NoRedelivery (log ++ [event]) := by
  refine List.pairwise_append.mpr ⟨h, List.pairwise_singleton _ _, ?_⟩
  intro earlier mem later hlater
  rw [List.mem_singleton.mp hlater]
  cases earlier with
  | accepted r id xs =>
    cases hev : event with
    | handed r' id' ys =>
      rintro ne rfl
      exact handed r' id ys hev r xs ne mem
    | _ => trivial
  | removed r id =>
    cases hev : event with
    | wrote r' id' =>
      rintro ne rfl
      exact wrote r' id hev r ne mem
    | _ => trivial
  | _ => cases event <;> trivial

section Calls

variable {s : Fleet R} {r : R} {id : String} {task : Task} {recipients : List String}

variable {xs : List String}

omit [DecidableEq R] in
theorem accepted_note {i x : String} :
    (s.note [.handed r id recipients, .accepted r id xs]).Accepted r' i x ↔
      s.Accepted r' i x ∨ r' = r ∧ i = id ∧ x ∈ xs := by
  simp only [Fleet.Accepted, Fleet.note, List.mem_append, List.mem_cons, List.not_mem_nil,
    or_false, reduceCtorEq, false_or]
  constructor
  · rintro ⟨ys, old | new, mem⟩
    · exact .inl ⟨ys, old, mem⟩
    · cases new
      exact .inr ⟨rfl, rfl, mem⟩
  · rintro (⟨ys, old, mem⟩ | ⟨rfl, rfl, mem⟩)
    · exact ⟨ys, .inl old, mem⟩
    · exact ⟨xs, .inr rfl, mem⟩

omit [DecidableEq R] in
theorem removed_note {i : String} :
    FleetEvent.removed r' i ∈ (s.note [.handed r id recipients, .accepted r id xs]).log ↔
      FleetEvent.removed r' i ∈ s.log := by
  simp [Fleet.note]

omit [DecidableEq R] in
theorem Fleet.Inv.noRedelivery_call (inv : s.Inv conf) (here : s.tasks r id = some task)
    (sub : recipients ⊆ task.orig.recipients) (xs : List String) :
    NoRedelivery (s.note [.handed r id recipients, .accepted r id xs]).log := by
  have handed : NoRedelivery (s.log ++ [.handed r id recipients]) := by
    refine noRedelivery_snoc inv.log ?_ ?_
    · intro r' id' ys same r'' zs ne mem x hx hy
      cases same
      exact inv.others _ _ _ _ _ here ne ⟨zs, mem, hx⟩ (sub hy)
    · intro r' id' same
      cases same
  have both : NoRedelivery (s.log ++ [.handed r id recipients] ++ [.accepted r id xs]) :=
    noRedelivery_snoc handed (fun _ _ _ same => by cases same) (fun _ _ same => by cases same)
  simpa [Fleet.note] using both

/-- A call whose result is applied: whom the transport accepts leaves the task's entry. -/
theorem Fleet.Inv.counted (inv : s.Inv conf) (here : s.tasks r id = some task)
    (isOpen : task.phase.isOpen = true) (sub : recipients ⊆ task.orig.recipients)
    {task' : Task} (ok : TaskOk conf r id task')
    (orig : task'.orig = task.orig) (isOpen' : task'.phase.isOpen = true)
    (mutated : task'.round.mutated = true)
    (subset : task'.round.entry.recipients ⊆ task.round.entry.recipients)
    (off : ∀ x ∈ xs, x ∉ task'.round.entry.recipients) :
    ((s.note [.handed r id recipients, .accepted r id xs]).setTask r id task').Inv conf where
  tasks _ _ _ := inv.tasks_set ok
  claimed r' i u h := by
    obtain ⟨rfl, rfl, hu⟩ | ⟨-, hu⟩ := setAt_some h
    · obtain present | ⟨bouncing, -⟩ := inv.claimed _ _ _ here
      · exact .inl present
      · rw [bouncing] at isOpen
        contradiction
    · exact inv.claimed r' i u hu
  alone _ _ _ _ _ := inv.alone_set here
  settled a i x e acc stored mem := by
    by_cases same : a = r ∧ i = id
    · obtain ⟨rfl, rfl⟩ := same
      exact ⟨task', setAt_self _ _ _ _, isOpen', mutated⟩
    · have before : s.Accepted a i x :=
        (accepted_note.mp acc).resolve_right fun h => same ⟨h.1, h.2.1⟩
      obtain ⟨u, hu, rest⟩ := inv.settled a i x e before stored mem
      exact ⟨u, by rw [← hu]; exact setAt_other _ _ (not_and_or.mp same), rest⟩
  others a b i u x h ne acc := by
    rcases accepted_note.mp acc with before | ⟨rfl, rfl, -⟩
    · exact inv.others_set here orig h ne before
    · obtain ⟨u', hu⟩ := setAt_old here h
      exact absurd (inv.alone _ _ _ _ _ here hu) ne
  own a i u x h acc isOpen'' := by
    obtain ⟨rfl, rfl, hu⟩ | ⟨same, hu⟩ := setAt_some h
    · cases hu
      rcases accepted_note.mp acc with before | ⟨-, -, mem⟩
      · exact fun listed => inv.own _ _ _ _ here before isOpen (subset listed)
      · exact off x mem
    · have before : s.Accepted a i x :=
        (accepted_note.mp acc).resolve_right fun h => same ⟨h.1, h.2.1⟩
      exact inv.own _ _ _ _ hu before isOpen''
  gone a i mem := by
    have before := removed_note.mp mem
    refine ⟨(inv.gone a i before).1, fun b u h => ?_⟩
    obtain ⟨rfl, rfl, -⟩ | ⟨-, hu⟩ := setAt_some h
    · rw [(inv.gone a i before).2 _ _ here] at isOpen
      contradiction
    · exact (inv.gone a i before).2 _ _ hu
  named := inv.named
  planned := inv.planned
  logged a i x acc := by
    rcases accepted_note.mp acc with before | ⟨-, rfl, -⟩
    · exact inv.logged a i x before
    · exact inv.busy _ _ _ here
  erased a i mem := inv.erased a i (removed_note.mp mem)
  busy _ _ _ := inv.busy_set here
  log := inv.noRedelivery_call here sub xs

omit [DecidableEq R] in
theorem Fleet.Inv.uncounted (inv : s.Inv conf) (here : s.tasks r id = some task)
    (sub : recipients ⊆ task.orig.recipients) :
    (s.note [.handed r id recipients, .accepted r id []]).Inv conf := by
  have same : ∀ a i x, (s.note [.handed r id recipients, .accepted r id []]).Accepted a i x →
      s.Accepted a i x := by
    intro a i x acc
    exact (accepted_note.mp acc).resolve_right fun h => List.not_mem_nil h.2.2
  exact
    { tasks := inv.tasks
      claimed := inv.claimed
      alone := inv.alone
      settled := fun a i x e acc => inv.settled a i x e (same a i x acc)
      others := fun a b i u x h ne acc => inv.others a b i u x h ne (same b i x acc)
      own := fun a i u x h acc => inv.own a i u x h (same a i x acc)
      gone := fun a i mem => inv.gone a i (removed_note.mp mem)
      named := inv.named
      planned := inv.planned
      logged := fun a i x acc => inv.logged a i x (same a i x acc)
      erased := fun a i mem => inv.erased a i (removed_note.mp mem)
      busy := inv.busy
      log := inv.noRedelivery_call here sub [] }

end Calls

/-! ### Writing back -/

section Writes

variable {s : Fleet R} {r : R} {id : String} {task : Task}

omit [DecidableEq R] in
theorem accepted_wrote {i j x : String}
    (h : event = .wrote r j ∨ event = .removed r j) :
    (s.note [event]).Accepted r' i x ↔ s.Accepted r' i x := by
  rcases h with rfl | rfl <;> simp [Fleet.Accepted, Fleet.note]

omit [DecidableEq R] in
theorem Fleet.Inv.noteWrote (inv : s.Inv conf) (r : R) {i : String}
    (never : ∀ a, FleetEvent.removed a i ∉ s.log) : (s.note [.wrote r i]).Inv conf := by
  have acc' : ∀ a j x, (s.note [.wrote r i]).Accepted a j x → s.Accepted a j x :=
    fun a j x h => (accepted_wrote (.inl rfl)).mp h
  have removed' : ∀ a j, FleetEvent.removed a j ∈ (s.note [.wrote r i]).log →
      FleetEvent.removed a j ∈ s.log := by
    intro a j h
    simpa [Fleet.note] using h
  exact
    { tasks := inv.tasks
      claimed := inv.claimed
      alone := inv.alone
      settled := fun a j x e acc => inv.settled a j x e (acc' a j x acc)
      others := fun a b j u x h ne acc => inv.others a b j u x h ne (acc' b j x acc)
      own := fun a j u x h acc => inv.own a j u x h (acc' a j x acc)
      gone := fun a j mem => inv.gone a j (removed' a j mem)
      named := inv.named
      planned := inv.planned
      logged := fun a j x acc => inv.logged a j x (acc' a j x acc)
      erased := fun a j mem => inv.erased a j (removed' a j mem)
      busy := inv.busy
      log := noRedelivery_snoc inv.log (fun _ _ _ same => by cases same) fun r' j same a _ => by
        cases same
        exact never a }

theorem Fleet.Inv.written (inv : s.Inv conf) (here : s.tasks r id = some task)
    (isOpen : task.phase.isOpen = true) (named : entry.id = id)
    (off : entry.recipients ⊆ task.round.entry.recipients) {task' : Task}
    (ok : TaskOk conf r id task') (orig : task'.orig = task.orig)
    (closed : task'.phase.isOpen = false) :
    (({ s with store := s.store.put entry }.setTask r id task').note [.wrote r id]).Inv conf := by
  have present : s.store.claims id ≠ none := by
    obtain h | ⟨bouncing, -⟩ := inv.claimed _ _ _ here
    · exact h
    · rw [bouncing] at isOpen
      contradiction
  have elsewhere : ∀ i, i ≠ id → (s.store.put entry).entries i = s.store.entries i := by
    intro i ne
    rw [QueueStore.put_entries, Function.update_of_ne (named ▸ ne)]
  have there : (s.store.put entry).entries id = some entry := by
    rw [QueueStore.put_entries, named, Function.update_self]
  have notGone : ∀ a, FleetEvent.removed a id ∉ s.log := by
    intro a mem
    rw [(inv.gone a id mem).2 _ _ here] at isOpen
    contradiction
  suffices stored : ({ s with store := s.store.put entry }.setTask r id task').Inv conf from
    stored.noteWrote r notGone
  refine
    { tasks := fun _ _ _ => inv.tasks_set ok, claimed := ?_,
      alone := fun _ _ _ _ _ => inv.alone_set here, settled := ?_,
      others := fun _ _ _ _ _ => inv.others_set here orig,
      own := fun _ _ _ _ => inv.own_set closed, gone := ?_, named := ?_, planned := inv.planned,
      logged := inv.logged, erased := inv.erased, busy := fun _ _ _ => inv.busy_set here,
      log := inv.log }
  · intro r' i u h
    by_cases same : i = id
    · exact .inl (same ▸ present)
    · obtain ⟨-, eq, -⟩ | ⟨-, hu⟩ := setAt_some h
      · exact absurd eq same
      · refine (inv.claimed r' i u hu).imp_right fun b => ⟨b.1, ?_⟩
        exact (elsewhere i same).trans b.2
  · intro a i x e before stored mem
    by_cases same : i = id
    · subst same
      change (s.store.put entry).entries i = some e at stored
      rw [there] at stored
      cases stored
      by_cases mine : a = r
      · subst mine
        exact absurd (off mem) (inv.own _ _ _ _ here before isOpen)
      · exact absurd ((inv.tasks _ _ _ here).subset (off mem))
          (inv.others _ _ _ _ _ here mine before)
    · change (s.store.put entry).entries i = some e at stored
      rw [elsewhere i same] at stored
      obtain ⟨u, hu, rest⟩ := inv.settled a i x e before stored mem
      exact ⟨u, by rw [← hu]; exact setAt_other _ _ (.inr same), rest⟩
  · intro a i before
    have other : i ≠ id := fun same => notGone a (same ▸ before)
    refine ⟨(elsewhere i other).trans (inv.gone a i before).1, fun b u h => ?_⟩
    obtain ⟨-, eq, -⟩ | ⟨-, hu⟩ := setAt_some h
    · exact absurd eq other
    · exact (inv.gone a i before).2 _ _ hu
  · intro i e stored
    by_cases same : i = id
    · subst same
      change (s.store.put entry).entries i = some e at stored
      rw [there] at stored
      cases stored
      exact ⟨named, inv.busy _ _ _ here⟩
    · change (s.store.put entry).entries i = some e at stored
      rw [elsewhere i same] at stored
      exact inv.named i e stored

theorem Fleet.Inv.erasedEntry (inv : s.Inv conf) (here : s.tasks r id = some task) {task' : Task}
    (ok : TaskOk conf r id task') (orig : task'.orig = task.orig)
    (bouncing : task'.phase = .bouncing) :
    (({ s with store := s.store.erase id }.setTask r id task').note [.removed r id]).Inv conf := by
  have acc' : ∀ a i x, (({ s with store := s.store.erase id }.setTask r id task').note
      [.removed r id]).Accepted a i x → s.Accepted a i x :=
    fun a i x h => (accepted_wrote (.inr rfl)).mp h
  have removed' : ∀ a i, FleetEvent.removed a i ∈ (({ s with store := s.store.erase id }.setTask
      r id task').note [.removed r id]).log →
      FleetEvent.removed a i ∈ s.log ∨ a = r ∧ i = id := by
    intro a i h
    simpa [Fleet.note, Fleet.setTask] using h
  have closed : task'.phase.isOpen = false := by rw [bouncing]; rfl
  have there : (s.store.erase id).entries id = none := by simp
  have elsewhere : ∀ i, i ≠ id → (s.store.erase id).entries i = s.store.entries i := by
    intro i ne
    simp [Function.update_of_ne ne]
  have claims : ∀ i, i ≠ id → (s.store.erase id).claims i = s.store.claims i := by
    intro i ne
    simp only [QueueStore.erase, releaseClaim]
    split_ifs <;> simp [Function.update_of_ne ne]
  refine
    { tasks := fun _ _ _ => inv.tasks_set ok, claimed := ?_,
      alone := fun _ _ _ _ _ => inv.alone_set here, settled := ?_,
      others := fun _ b i _ x h ne acc => inv.others_set here orig h ne (acc' b i x acc),
      own := fun a i _ x h acc => inv.own_set closed h (acc' a i x acc), gone := ?_, named := ?_,
      planned := inv.planned, logged := fun a i x acc => inv.logged a i x (acc' a i x acc),
      erased := ?_, busy := fun _ _ _ => inv.busy_set here, log := ?_ }
  · intro r' i u h
    obtain ⟨rfl, rfl, hu⟩ | ⟨other, hu⟩ := setAt_some h
    · cases hu
      exact .inr ⟨bouncing, there⟩
    · have ne : i ≠ id := by
        rintro rfl
        exact other ⟨inv.alone _ _ _ _ _ hu here, rfl⟩
      refine (inv.claimed r' i u hu).imp (fun h => ?_) fun b => ⟨b.1, ?_⟩
      · change (s.store.erase id).claims i ≠ none
        rwa [claims i ne]
      · exact (elsewhere i ne).trans b.2
  · intro a i x e acc stored mem
    have other : i ≠ id := by
      rintro rfl
      cases there.symm.trans stored
    obtain ⟨u, hu, rest⟩ :=
      inv.settled a i x e (acc' a i x acc) ((elsewhere i other).symm.trans stored) mem
    exact ⟨u, by rw [← hu]; exact setAt_other _ _ (.inr other), rest⟩
  · intro a i mem
    constructor
    · by_cases same : i = id
      · rw [same]; exact there
      · refine (elsewhere i same).trans (inv.gone a i ?_).1
        exact (removed' a i mem).resolve_right fun h => same h.2
    · intro b u h
      obtain ⟨rfl, rfl, hu⟩ | ⟨other, hu⟩ := setAt_some h
      · cases hu
        exact closed
      · rcases removed' a i mem with before | ⟨-, rfl⟩
        · exact (inv.gone a i before).2 _ _ hu
        · exact absurd ⟨inv.alone _ _ _ _ _ hu here, rfl⟩ other
  · intro i e stored
    have other : i ≠ id := by
      rintro rfl
      cases there.symm.trans stored
    exact inv.named i e ((elsewhere i other).symm.trans stored)
  · intro a i mem
    rcases removed' a i mem with before | ⟨-, rfl⟩
    · exact inv.erased a i before
    · exact inv.busy _ _ _ here
  · exact noRedelivery_snoc inv.log (fun _ _ _ same => by cases same)
      (fun _ _ same => by cases same)

omit [DecidableEq R] in
/-- A new entry under an id that nothing had before. -/
theorem Fleet.Inv.added (inv : s.Inv conf) (fresh : s.used entry.id = false) :
    ({ s with
        store := s.store.put entry
        used := Function.update s.used entry.id true } : Fleet R).Inv conf := by
  have kept : ∀ i, s.used i = true → Function.update s.used entry.id true i = true := by
    intro i used
    by_cases same : i = entry.id
    · rw [same, Function.update_self]
    · rw [Function.update_of_ne same, used]
  have elsewhere : ∀ i, s.used i = true → (s.store.put entry).entries i = s.store.entries i := by
    intro i used
    rw [QueueStore.put_entries, Function.update_of_ne]
    rintro rfl
    rw [fresh] at used
    contradiction
  refine
    { tasks := inv.tasks, claimed := ?_, alone := inv.alone, settled := ?_, others := inv.others,
      own := inv.own, gone := ?_, named := ?_, planned := ?_,
      logged := fun a i x acc => kept i (inv.logged a i x acc),
      erased := fun a i mem => kept i (inv.erased a i mem),
      busy := fun a i u h => kept i (inv.busy a i u h), log := inv.log }
  · intro a i u h
    refine (inv.claimed a i u h).imp_right fun b => ⟨b.1, ?_⟩
    exact (elsewhere i (inv.busy a i u h)).trans b.2
  · intro a i x e acc stored mem
    exact inv.settled a i x e acc ((elsewhere i (inv.logged a i x acc)).symm.trans stored) mem
  · intro a i mem
    exact ⟨(elsewhere i (inv.erased a i mem)).trans (inv.gone a i mem).1, (inv.gone a i mem).2⟩
  · intro i e stored
    by_cases same : i = entry.id
    · subst same
      simp only [QueueStore.put_entries, Function.update_self, Option.some.injEq] at stored ⊢
      exact ⟨by rw [stored], trivial⟩
    · simp only [QueueStore.put_entries, Function.update_of_ne same] at stored
      exact ⟨(inv.named i e stored).1, kept i (inv.named i e stored).2⟩
  · intro a i e h
    obtain ⟨hid, valid, used⟩ := inv.planned a i e h
    exact ⟨hid, valid, kept i used⟩

end Writes

/-! ### Claims -/

section Claims

variable {s : Fleet R} {r : R} {id : String}

/-- A claim taken on an entry that is stored with all the recipients of the copy: nobody accepted
one of them. -/
theorem Fleet.Inv.claim (inv : s.Inv conf) {entry stored : QueueEntry}
    (free : s.store.claims id = none)
    (hid : entry.id = id) (valid : entry.validate = .ok ()) (used : s.used id = true)
    (present : s.store.entries id = some stored) (sub : entry.recipients ⊆ stored.recipients)
    (file : ClaimFile) (now : Int) :
    ({ s with store := { s.store with claims := Function.update s.store.claims id (some file) } }.setTask
      r id { orig := entry, now, round := Round.start entry, phase := .localHalf }).Inv conf := by
  -- no runner has a task on the entry, since there is no claim and the entry is stored
  have idle : ∀ a task, s.tasks a id ≠ some task := by
    intro a task h
    obtain claimed | ⟨-, gone⟩ := inv.claimed a id task h
    · exact claimed free
    · rw [present] at gone
      contradiction
  have off : ∀ a x, s.Accepted a id x → x ∉ entry.recipients := by
    intro a x acc mem
    obtain ⟨task, h, -⟩ := inv.settled a id x stored acc present (sub mem)
    exact idle a task h
  have old : ∀ {a i u}, setAt s.tasks r id
      (some { orig := entry, now, round := Round.start entry, phase := .localHalf }) a i = some u →
      i ≠ id → s.tasks a i = some u := by
    intro a i u h ne
    rwa [setAt_other _ _ (.inr ne)] at h
  have new : ∀ {a u}, setAt s.tasks r id
      (some { orig := entry, now, round := Round.start entry, phase := .localHalf }) a id = some u →
      a = r ∧ u = { orig := entry, now, round := Round.start entry, phase := .localHalf } := by
    intro a u h
    obtain ⟨rfl, -, hu⟩ | ⟨-, hu⟩ := setAt_some h
    · exact ⟨rfl, (Option.some.inj hu).symm⟩
    · exact absurd hu (idle a u)
  refine
    { tasks := ?_, claimed := ?_, alone := ?_, settled := ?_, others := ?_, own := ?_, gone := ?_,
      named := inv.named, planned := inv.planned, logged := inv.logged, erased := inv.erased,
      busy := ?_, log := inv.log }
  · intro a i u h
    by_cases same : i = id
    · subst same
      obtain ⟨rfl, rfl⟩ := new h
      exact ⟨hid, valid, hid, rfl, rfl, fun _ h => h, fun _ => rfl, by simp, by simp⟩
    · exact inv.tasks a i u (old h same)
  · intro a i u h
    by_cases same : i = id
    · subst same
      exact .inl (by simp [Fleet.setTask])
    · refine (inv.claimed a i u (old h same)).imp_left fun claimed => ?_
      simpa [Fleet.setTask, Function.update_of_ne same] using claimed
  · intro a b i u v ha hb
    by_cases same : i = id
    · subst same
      exact (new ha).1.trans (new hb).1.symm
    · exact inv.alone _ _ _ _ _ (old ha same) (old hb same)
  · intro a i x e acc hstored mem
    obtain ⟨u, hu, rest⟩ := inv.settled a i x e acc hstored mem
    have other : i ≠ id := fun same => idle a u (same ▸ hu)
    exact ⟨u, by rw [← hu]; exact setAt_other _ _ (.inr other), rest⟩
  · intro a b i u x h ne acc
    by_cases same : i = id
    · subst same
      obtain ⟨rfl, rfl⟩ := new h
      exact off b x acc
    · exact inv.others _ _ _ _ _ (old h same) ne acc
  · intro a i u x h acc isOpen
    by_cases same : i = id
    · subst same
      obtain ⟨rfl, rfl⟩ := new h
      exact off a x acc
    · exact inv.own _ _ _ _ (old h same) acc isOpen
  · intro a i mem
    have other : i ≠ id := by
      rintro rfl
      rw [(inv.gone a i mem).1] at present
      contradiction
    exact ⟨(inv.gone a i mem).1, fun b u h => (inv.gone a i mem).2 b u (old h other)⟩
  · intro a i u h
    by_cases same : i = id
    · rw [same]; exact used
    · exact inv.busy _ _ _ (old h same)

theorem Fleet.Inv.release (inv : s.Inv conf) {task : Task} (here : s.tasks r id = some task)
    (closed : task.phase.isOpen = false) :
    ({ s with
        store := { s.store with claims := releaseClaim s.store.claims id }
        tasks := setAt s.tasks r id none } : Fleet R).Inv conf := by
  have old : ∀ {a i u}, setAt s.tasks r id none a i = some u →
      s.tasks a i = some u ∧ i ≠ id := by
    intro a i u h
    obtain ⟨-, -, hu⟩ | ⟨other, hu⟩ := setAt_some h
    · cases hu
    · refine ⟨hu, ?_⟩
      rintro rfl
      exact other ⟨inv.alone _ _ _ _ _ hu here, rfl⟩
  refine
    { tasks := fun a i u h => inv.tasks a i u (old h).1, claimed := ?_,
      alone := fun a b i u v ha hb => inv.alone _ _ _ _ _ (old ha).1 (old hb).1, settled := ?_,
      others := fun a b i u x h => inv.others a b i u x (old h).1,
      own := fun a i u x h => inv.own a i u x (old h).1,
      gone := fun a i mem => ⟨(inv.gone a i mem).1, fun b u h => (inv.gone a i mem).2 b u (old h).1⟩,
      named := inv.named, planned := inv.planned, logged := inv.logged, erased := inv.erased,
      busy := fun a i u h => inv.busy a i u (old h).1, log := inv.log }
  · intro a i u h
    refine (inv.claimed a i u (old h).1).imp_left fun claimed => ?_
    simp only [releaseClaim]
    split_ifs
    · simpa [Function.update_of_ne (old h).2] using claimed
    · exact claimed
  · intro a i x e acc stored mem
    obtain ⟨u, hu, isOpen, rest⟩ := inv.settled a i x e acc stored mem
    have other : ¬(a = r ∧ i = id) := by
      rintro ⟨rfl, rfl⟩
      rw [here] at hu
      cases hu
      rw [closed] at isOpen
      contradiction
    exact ⟨u, by rw [← hu]; exact setAt_other _ _ (not_and_or.mp other), isOpen, rest⟩

omit [DecidableEq R] in
theorem pruneClaims_noExpiry {claims : ClaimDir} {now : Int}
    (fresh : ∀ id, claims id ≠ none → claimIsFresh (claims id) now = true) :
    pruneClaims claims now = claims := by
  funext id
  by_cases none : claims id = none
  · simp [pruneClaims, none]
  · simp [pruneClaims, fresh id none]

end Claims

/-! ### The steps keep the invariant -/

section Steps

variable {s s' : Fleet R} {r : R} {id : String} {task : Task}

omit [DecidableEq R] in
theorem TaskOk.phase (ok : TaskOk conf r id task) {phase : Phase} (start : phase ≠ .localHalf)
    (remote : phase = .remoteHalf ∨ phase = .abandon →
      (shares conf r task).2 ⊆ task.round.entry.recipients)
    (nonempty : phase = .abandon → (shares conf r task).2 ≠ []) :
    TaskOk conf r id { task with phase } :=
  { ok with start := fun h => absurd h start, remote := remote, nonempty := nonempty }

variable {result : DeliveryResult}

theorem Fleet.Inv.call (inv : s.Inv conf) (here : s.tasks r id = some task)
    (isOpen : task.phase.isOpen = true) {recipients : List String}
    {next miscounted : Phase} (sub : recipients ⊆ task.orig.recipients)
    (nextOpen : next.isOpen = true) (notStart : next ≠ .localHalf ∧ next ≠ .abandon)
    (remote : next = .remoteHalf → ∀ x ∈ (shares conf r task).2, x ∉ recipients ∧
      x ∈ task.round.entry.recipients) (failed : TaskOk conf r id { task with phase := miscounted })
    (dirty : task.round.mutated = true → miscounted.isOpen = true)
    (h : s.call conf r id task recipients result next miscounted = some s') : s'.Inv conf := by
  simp only [Fleet.call] at h
  split_ifs at h with outside
  have within : ∀ x ∈ acceptedBy recipients result, x ∈ recipients := by
    simpa using outside
  have ok := inv.tasks _ _ _ here
  cases applied : applyResult (conf r).config.backoff task.round recipients result task.now with
  | none =>
    rw [applied] at h
    cases h
    rw [acceptedBy_miscount (applyResult_miscounts.mp applied)]
    exact (inv.uncounted here sub).retask here failed rfl (fun _ => isOpen)
      (fun bouncing => by rw [bouncing] at isOpen; contradiction)
      (fun _ mutated => ⟨dirty mutated, mutated⟩) (fun _ h => h)
  | some round =>
    rw [applied] at h
    cases h
    obtain ⟨hid, -, hfrom, hdata, hmut, -, hrec⟩ := applyResult_spec applied
    refine inv.counted here isOpen sub ?_ rfl nextOpen hmut (fun x hx => ((hrec x).mp hx).1)
      (fun x hx listed => ((hrec x).mp listed).2.1 hx)
    refine ⟨ok.origId, ok.valid, hid.trans ok.roundId, hfrom.trans ok.mailFrom,
      hdata.trans ok.data, fun x hx => ok.subset ((hrec x).mp hx).1,
      fun h => absurd h notStart.1, ?_, fun h => absurd h notStart.2⟩
    rintro (isNext | isNext) x hx
    · obtain ⟨outside, listed⟩ := remote isNext x hx
      refine (hrec x).mpr ⟨listed, fun acc => outside (within x acc), fun given => ?_⟩
      exact outside (bouncesOf_subset given)
    · exact absurd isNext notStart.2

omit [DecidableEq R] in
theorem shares_subset {r : R} {task : Task} {x : String}
    (h : x ∈ (shares conf r task).1 ∨ x ∈ (shares conf r task).2) : x ∈ task.orig.recipients :=
  partition_subset h

theorem Fleet.Inv.deliverLocal (inv : s.Inv conf)
    (h : s.step conf (.deliverLocal r id result) = some s') : s'.Inv conf := by
  simp only [Fleet.step] at h
  split at h
  · contradiction
  rename_i task here
  split_ifs at h with phase empty
  · cases h
    have ok := inv.tasks _ _ _ here
    have round := ok.start phase
    refine inv.retask here (ok.phase (by simp) ?_ (by simp)) rfl (fun _ => by rw [phase]; rfl)
      (by simp [phase]) (fun _ mutated => ?_) (fun _ h => h)
    · intro _ x hx
      rw [round]
      exact shares_subset (.inr hx)
    · rw [round] at mutated
      contradiction
  · have ok := inv.tasks _ _ _ here
    have round := ok.start phase
    refine inv.call here (by rw [phase]; rfl) (fun x hx => shares_subset (.inl hx)) rfl (by simp)
      (fun _ x hx => ⟨fun hl => partition_apart hl hx, ?_⟩) (ok.phase (by simp) (by simp) (by simp))
      (fun mutated => ?_) h
    · rw [round]
      exact shares_subset (.inr hx)
    · rw [round] at mutated
      contradiction

theorem Fleet.Inv.deliverRemote (inv : s.Inv conf) {passes : Bool}
    (h : s.step conf (.deliverRemote r id passes result) = some s') : s'.Inv conf := by
  simp only [Fleet.step] at h
  split at h
  · contradiction
  rename_i task here
  split_ifs at h with phase skipped
  · cases h
    have ok := inv.tasks _ _ _ here
    exact inv.retask here (ok.phase (by simp) (by simp) (by simp)) rfl
      (fun _ => by rw [phase]; rfl) (by simp [phase]) (fun _ mutated => ⟨rfl, mutated⟩)
      (fun _ h => h)
  · have ok := inv.tasks _ _ _ here
    refine inv.call here (by rw [phase]; rfl) (fun x hx => shares_subset (.inr hx)) rfl (by simp)
      (by simp) (ok.phase (by simp) (fun _ => ok.remote (.inl phase)) fun _ => ?_) (fun _ => rfl) h
    simp only [Bool.or_eq_true, not_or] at skipped
    simpa using skipped.1

omit [DecidableEq R] in
theorem TaskOk.writable (ok : TaskOk conf r id task) (left : task.round.entry.recipients ≠ []) :
    task.round.entry.validate = .ok () :=
  QueueEntry.validate_of_subset ok.valid (ok.roundId.trans ok.origId.symm) ok.mailFrom ok.data
    ok.subset left

theorem Fleet.Inv.persist (inv : s.Inv conf) (h : s.step conf (.persist r id) = some s') :
    s'.Inv conf := by
  simp only [Fleet.step] at h
  split at h
  · contradiction
  rename_i task here
  split_ifs at h with phase
  cases h
  have ok := inv.tasks _ _ _ here
  have ok' : TaskOk conf r id { task with phase := .bouncing } :=
    ok.phase (by simp) (by simp) (by simp)
  have isOpen : task.phase.isOpen = true := by
    rcases Bool.or_eq_true_iff.mp phase with h | h <;> rw [of_decide_eq_true h] <;> rfl
  -- without a change the task just goes on
  have idle : task.round.mutated = false →
      (s.setTask r id { task with phase := .bouncing }).Inv conf := by
    intro clean
    refine inv.retask here ok' rfl (fun _ => isOpen) (fun _ => rfl) (fun _ mutated => ?_)
      (fun _ h => h)
    rw [clean] at mutated
    contradiction
  have put := inv.written here isOpen ok.roundId (fun _ h => h) ok' rfl rfl
  rcases Bool.or_eq_true_iff.mp phase with finish | abandon
  · simp only [Fleet.writeBack, of_decide_eq_true finish]
    split_ifs with empty mutated
    · exact inv.erasedEntry here ok' rfl rfl
    · rw [ok.writable (by simpa using empty)]
      exact put
    · exact idle (by simpa using mutated)
  · have abandoned := of_decide_eq_true abandon
    simp only [Fleet.writeBack, abandoned]
    split_ifs with mutated
    · have left : task.round.entry.recipients ≠ [] := by
        obtain ⟨x, hx⟩ := List.exists_mem_of_ne_nil _ (ok.nonempty abandoned)
        exact List.ne_nil_of_mem (ok.remote (.inr abandoned) hx)
      rw [ok.writable left]
      exact put
    · exact idle (by simpa using mutated)

theorem Fleet.Inv.bounce (inv : s.Inv conf) {newId createdAt date boundary : String}
    (h : s.step conf (.bounce r id newId createdAt date boundary) = some s') : s'.Inv conf := by
  simp only [Fleet.step] at h
  split at h
  · contradiction
  rename_i task here
  split_ifs at h with phase
  simp only [Fleet.nextBounce] at h
  split at h
  · contradiction
  rename_i pending rest _
  have ok := inv.tasks _ _ _ here
  have next : (s.setTask r id
      { task with round := { task.round with pending := rest } }).Inv conf := by
    refine inv.retask here ?_ rfl (fun h => h) (fun h => h) (fun h m => ⟨h, m⟩) (fun _ h => h)
    refine { ok with start := fun h => ?_, remote := ok.remote, nonempty := ok.nonempty }
    rw [phase] at h
    contradiction
  split at h
  · cases h
    exact next
  · split at h
    · cases h
      exact next
    · split at h
      · contradiction
      rename_i taken
      cases h
      simp only [Bool.or_eq_true, not_or, Bool.not_eq_true] at taken
      refine Fleet.Inv.noteWrote (Fleet.Inv.added next ?_) r fun a mem => ?_
      · exact taken.1
      · have used := inv.erased a newId mem
        rw [taken.1] at used
        contradiction

theorem Fleet.Inv.step {l : FleetStep R} (inv : s.Inv conf) (noExpiry : s.NoExpiry l)
    (current : s.Current l) (h : s.step conf l = some s') : s'.Inv conf := by
  cases l with
  | submit entry =>
    simp only [Fleet.step] at h
    split_ifs at h with used
    cases h
    exact inv.added (by simpa using used)
  | survey runner now =>
    simp only [Fleet.step] at h
    split_ifs at h
    cases h
    rw [pruneClaims_noExpiry noExpiry]
    exact { inv with log := inv.log }
  | load runner now =>
    simp only [Fleet.step] at h
    split at h
    · contradiction
    rename_i claimed _
    cases h
    refine { inv with planned := ?_ }
    intro a i e h
    by_cases same : a = runner
    · subst same
      simp only [Function.update_self, loadDue] at h
      split at h
      · rename_i entry stored
        split_ifs at h with due
        cases h
        exact ⟨(inv.named i _ stored).1, due.1, (inv.named i _ stored).2⟩
      · contradiction
    · simp only [Function.update_of_ne same] at h
      exact inv.planned a i e h
  | claim runner id now wrote =>
    simp only [Fleet.step] at h
    split at h
    · contradiction
    rename_i entry plan
    obtain ⟨hid, valid, used⟩ := inv.planned runner id entry plan
    have rest : ({ s with todo := setAt s.todo runner id none } : Fleet R).Inv conf := by
      refine { inv with planned := ?_ }
      intro a i e h
      obtain ⟨-, -, hu⟩ | ⟨-, hu⟩ := setAt_some h
      · cases hu
      · exact inv.planned a i e hu
    obtain no | ⟨stale, yes⟩ := tryClaim_cases s.store.claims id now (claimFile now wrote)
    · split at h
      · rename_i claims result
        exact absurd result (no claims)
      · cases h
        exact rest
    · rw [yes] at h
      cases h
      have free : s.store.claims id = none := by
        by_contra taken
        rw [noExpiry id taken] at stale
        contradiction
      obtain ⟨stored, present, sub⟩ := current entry plan free
      exact rest.claim free hid valid used present sub _ now
  | deliverLocal runner id result => exact inv.deliverLocal h
  | deliverRemote runner id passes result => exact inv.deliverRemote h
  | persist runner id => exact inv.persist h
  | bounce runner id newId createdAt date boundary => exact inv.bounce h
  | release runner id =>
    simp only [Fleet.step] at h
    split at h
    · contradiction
    rename_i task here
    split_ifs at h with phase
    cases h
    refine inv.release here ?_
    simp only [Bool.or_eq_true, Bool.and_eq_true, decide_eq_true_eq] at phase
    rcases phase with closing | ⟨bouncing, -⟩
    · rw [closing]; rfl
    · rw [bouncing]; rfl

end Steps

omit [DecidableEq R] in
theorem Fleet.init_inv (conf : R → QueueRunner) {store : QueueStore}
    (named : ∀ id entry, store.entries id = some entry → entry.id = id) :
    (Fleet.init store : Fleet R).Inv conf := by
  have none : ∀ r id x, ¬(Fleet.init store : Fleet R).Accepted r id x := by
    rintro r id x ⟨xs, mem, -⟩
    cases mem
  refine
    { tasks := fun _ _ _ h => by cases h
      claimed := fun _ _ _ h => by cases h
      alone := fun _ _ _ _ _ h => by cases h
      settled := fun r id x _ acc => absurd acc (none r id x)
      others := fun _ _ _ _ _ h => by cases h
      own := fun _ _ _ _ h => by cases h
      gone := fun _ _ mem => by cases mem
      named := fun id entry stored => ⟨named id entry stored, ?_⟩
      planned := fun _ _ _ h => by cases h
      logged := fun r id x acc => absurd acc (none r id x)
      erased := fun _ _ mem => by cases mem
      busy := fun _ _ _ h => by cases h
      log := List.Pairwise.nil }
  change store.entries id = some entry at stored
  simp [Fleet.init, stored]

/-- In every run of any number of runners in which no lease runs out, and in which an entry is
claimed only while it is still stored with all the recipients of the runner's copy, no runner hands
out a recipient that another one's transport accepted, and none writes an entry that another one
removed. -/
theorem no_redelivery_of_current_claims (conf : R → QueueRunner) {store : QueueStore}
    (named : ∀ id entry, store.entries id = some entry → entry.id = id) {ls : List (FleetStep R)}
    {s : Fleet R}
    (run : Runs (Fleet.step conf) (fun s l => s.NoExpiry l ∧ s.Current l) (Fleet.init store) ls s) :
    NoRedelivery s.log :=
  (run.invariant (Fleet.init_inv conf named)
    fun _ _ _ inv ok h => inv.step ok.1 ok.2 h).log

end Fleet

/-! ### A stale copy -/

/-- One runner's round over the entry `q1`, with what its remote transport says. -/
def deliverIn (runner : Nat) (now : Int) (result : DeliveryResult) : List (FleetStep Nat) :=
  [.survey runner now, .load runner now, .claim runner "q1" now true,
    .deliverLocal runner "q1" (.ok ⟨0⟩), .deliverRemote runner "q1" true result,
    .persist runner "q1", .release runner "q1"]

def sharedEntry : QueueEntry := plainEntry "a@example.org" ["r@remote.net", "s@remote.net"]

theorem plainWorld_named {own : QueueEntry} (id : String) (entry : QueueEntry)
    (stored : (plainWorld own).store.entries id = some entry) : entry.id = id := by
  simp only [plainWorld] at stored
  split at stored
  · cases stored
    symm
    assumption
  · cases stored

def halfAccepted : DeliveryFailure where
  failureClass := .transient
  kind := "smtp"
  message := "451 try again"
  code := some 451
  accepted := ["r@remote.net"]
  localFault := false

def inTurn : List (FleetStep Nat) :=
  deliverIn 0 0 (.error halfAccepted) ++ deliverIn 1 100000 (.ok ⟨1⟩)

theorem noExpiry_of_none {s : Fleet Nat} (claims : s.store.claims = fun _ => none)
    (l : FleetStep Nat) : s.NoExpiry l := by
  cases l <;> first | trivial | exact fun id present => absurd (congrFun claims id) present

theorem claims_released (file : Option ClaimFile) :
    Function.update (Function.update (fun _ => none : ClaimDir) "q1" file) "q1" none =
      fun _ => none := by
  rw [Function.update_idem, Function.update_eq_self_iff]

/-- Runner 0 delivers to one recipient and writes the entry back, and runner 1 delivers to the other
one and removes the entry. -/
theorem no_redelivery_in_turn : ∃ s,
    Runs (Fleet.step fun _ => plainRunner) (fun s l => s.NoExpiry l ∧ s.Current l)
      (Fleet.init (plainWorld sharedEntry).store) inTurn s ∧
    s.log = [.handed 0 "q1" ["r@remote.net", "s@remote.net"], .accepted 0 "q1" ["r@remote.net"],
      .wrote 0 "q1", .handed 1 "q1" ["s@remote.net"], .accepted 1 "q1" ["s@remote.net"],
      .removed 1 "q1"] ∧
    NoRedelivery s.log := by
  have run : exec (Fleet.step fun _ => plainRunner) (Fleet.init (plainWorld sharedEntry).store)
      inTurn = some _ := rfl
  have along : OkAlong (Fleet.step fun _ => plainRunner) (fun s l => s.NoExpiry l ∧ s.Current l)
      (Fleet.init (plainWorld sharedEntry).store) inTurn := by
    refine ⟨⟨noExpiry_of_none rfl _, trivial⟩, fun _ h => ?_⟩
    cases h
    refine ⟨⟨trivial, trivial⟩, fun _ h => ?_⟩
    cases h
    refine ⟨⟨noExpiry_of_none rfl _, ?_⟩, fun _ h => ?_⟩
    · rintro entry plan -
      cases plan
      exact ⟨sharedEntry, rfl, fun _ h => h⟩
    cases h
    refine ⟨⟨trivial, trivial⟩, fun _ h => ⟨⟨trivial, trivial⟩, fun _ h' => ⟨⟨trivial, trivial⟩,
      fun _ h'' => ⟨⟨trivial, trivial⟩, ?_⟩⟩⟩⟩
    cases h
    cases h'
    cases h''
    intro _ h
    cases h
    -- from here on the other runner, with a copy of what the first one left
    refine ⟨⟨noExpiry_of_none (claims_released _) _, trivial⟩, fun _ h => ?_⟩
    cases h
    refine ⟨⟨trivial, trivial⟩, fun _ h => ?_⟩
    cases h
    refine ⟨⟨noExpiry_of_none (congrArg (pruneClaims · 100000) (claims_released _)) _, ?_⟩,
      fun _ h => ?_⟩
    · rintro entry plan -
      cases plan
      exact ⟨_, rfl, fun _ h => h⟩
    exact ⟨⟨trivial, trivial⟩, fun _ _ => ⟨⟨trivial, trivial⟩, fun _ _ => ⟨⟨trivial, trivial⟩,
      fun _ _ => ⟨⟨trivial, trivial⟩, fun _ _ => trivial⟩⟩⟩⟩
  have runs := runs_of_exec run along
  exact ⟨_, runs, rfl, no_redelivery_of_current_claims _ plainWorld_named runs⟩

def plainFleet : Fleet Nat := Fleet.init (plainWorld rejectedEntry).store

def deliverOne (runner : Nat) : List (FleetStep Nat) := (deliverIn runner 0 (.ok ⟨1⟩)).drop 2

def bothLoad : List (FleetStep Nat) := [.survey 0 0, .load 0 0, .survey 1 0, .load 1 0]

/-- Runner 1 claims the entry that runner 0 has delivered and removed, and delivers it from its copy
once more. -/
theorem stale_copy_is_redelivered :
    ¬∀ (ls : List (FleetStep Nat)) (s : Fleet Nat),
      Runs (Fleet.step fun _ => plainRunner) Fleet.NoExpiry plainFleet ls s →
      NoRedelivery s.log := by
  intro claim
  have run : exec (Fleet.step fun _ => plainRunner) plainFleet
      (bothLoad ++ deliverOne 0 ++ (deliverOne 1).take 3) = some _ := rfl
  have along : OkAlong (Fleet.step fun _ => plainRunner) Fleet.NoExpiry plainFleet
      (bothLoad ++ deliverOne 0 ++ (deliverOne 1).take 3) := by
    refine ⟨noExpiry_of_none rfl _, fun _ h => ?_⟩
    cases h
    refine ⟨trivial, fun _ h => ?_⟩
    cases h
    refine ⟨noExpiry_of_none rfl _, fun _ h => ?_⟩
    cases h
    refine ⟨trivial, fun _ h => ?_⟩
    cases h
    refine ⟨noExpiry_of_none rfl _, fun _ h => ?_⟩
    cases h
    refine ⟨trivial, fun _ h => ⟨trivial, fun _ h' => ⟨trivial, fun _ h'' => ⟨trivial, ?_⟩⟩⟩⟩
    cases h
    cases h'
    cases h''
    intro _ h
    cases h
    exact ⟨noExpiry_of_none ((Function.update_idem ..).trans (claims_released _)) _,
      fun _ _ => ⟨trivial, fun _ _ => ⟨trivial, fun _ _ => trivial⟩⟩⟩
  have log := claim _ _ (runs_of_exec run along)
  change NoRedelivery [.handed 0 "q1" ["r@remote.net"], .accepted 0 "q1" ["r@remote.net"],
    .removed 0 "q1", .handed 1 "q1" ["r@remote.net"], .accepted 1 "q1" ["r@remote.net"]] at log
  simp [NoRedelivery] at log

end MailStack.Queue
