import MailStack.Queue.Round

/-! No recipient is lost in a delivery round: after one round with at most one failing store
operation, each recipient of the entry was accepted by a transport, or is still on the stored entry,
or is reported in a stored bounce, or was dropped because no bounce may be sent for the entry. -/

namespace MailStack.Queue

open Lib Smtp

/-- A round accounts for the recipients of the entry it began with: `acc` are those that a transport
accepted. -/
structure Accounted (orig : QueueEntry) (acc : String → Prop) (round : Round) : Prop where
  id : round.entry.id = orig.id
  kind : round.entry.kind = orig.kind
  mailFrom : round.entry.mailFrom = orig.mailFrom
  data : round.entry.data = orig.data
  subset : round.entry.recipients ⊆ orig.recipients
  cover : ∀ r ∈ orig.recipients,
    acc r ∨ r ∈ round.entry.recipients ∨ r ∈ reported round.pending
  apart : ∀ r ∈ reported round.pending, r ∉ round.entry.recipients
  disjoint : Disjoint round.pending
  untouched : round.mutated = false → round.entry = orig ∧ round.pending = []

theorem Accounted.start (entry : QueueEntry) (acc : String → Prop) :
    Accounted entry acc (Round.start entry) where
  id := rfl
  kind := rfl
  mailFrom := rfl
  data := rfl
  subset := fun _ h => h
  cover := fun _ h => .inr (.inl h)
  apart := by simp [Round.start, reported]
  disjoint := List.Pairwise.nil
  untouched := fun _ => ⟨rfl, rfl⟩

variable {orig : QueueEntry} {round : Round} {store : QueueStore} {attempted : List String}
  {entry : QueueEntry}

theorem Accounted.weaken {acc acc' : String → Prop}
    (h : Accounted orig acc round) (imp : ∀ r, acc r → acc' r) : Accounted orig acc' round :=
  { h with cover := fun r hr => (h.cover r hr).imp_left (imp r) }

/-- The result of a call keeps the account, when no earlier bounce reports a recipient of the
call. -/
theorem Accounted.applyResult {acc acc' : String → Prop}
    {backoff : BackoffPolicy} {round round' : Round}
    {result : DeliveryResult} {now : Int} (h : Accounted orig acc round)
    (apart : ∀ r ∈ reported round.pending, r ∉ attempted)
    (step : applyResult backoff round attempted result now = some round')
    (imp : ∀ r, acc r → acc' r) (accepted : ∀ r ∈ acceptedBy attempted result, acc' r) :
    Accounted orig acc' round' := by
  obtain ⟨hid, hkind, hfrom, hdata, hmut, hpend, hrec⟩ := applyResult_spec step
  refine ⟨hid.trans h.id, hkind.trans h.kind, hfrom.trans h.mailFrom, hdata.trans h.data, ?_, ?_,
    ?_, ?_, ?_⟩
  · intro r hr
    exact h.subset ((hrec r).mp hr).1
  · intro r hr
    rw [hpend, reported_append, List.mem_append]
    rcases h.cover r hr with done | listed | bounced
    · exact .inl (imp r done)
    · by_cases given : r ∈ reported (bouncesOf backoff round.entry.attempts attempted result)
      · exact .inr (.inr (.inr given))
      · by_cases taken : r ∈ acceptedBy attempted result
        · exact .inl (accepted r taken)
        · exact .inr (.inl ((hrec r).mpr ⟨listed, taken, given⟩))
    · exact .inr (.inr (.inl bounced))
  · intro r hr listed
    rw [hpend, reported_append, List.mem_append] at hr
    obtain ⟨before, -, given⟩ := (hrec r).mp listed
    exact hr.elim (fun old => h.apart r old before) given
  · rw [hpend]
    refine List.pairwise_append.mpr ⟨h.disjoint, ?_, ?_⟩
    · have short := bouncesOf_length backoff round.entry.attempts attempted result
      match bouncesOf backoff round.entry.attempts attempted result, short with
      | [], _ => exact List.Pairwise.nil
      | [p], _ => exact List.pairwise_singleton _ _
    · intro p hp q hq r hr hr'
      exact apart r (mem_reported.mpr ⟨p, hp, hr⟩)
        (bouncesOf_subset (mem_reported.mpr ⟨q, hq, hr'⟩))
  · intro unchanged
    rw [hmut] at unchanged
    contradiction

/-- Each recipient of `orig` is accounted for: by `acc`, on the stored entry, or in a bounce. -/
def Placed (orig : QueueEntry) (acc : String → Prop) (store : QueueStore)
    (events : List Event) : Prop :=
  ∀ r ∈ orig.recipients, acc r ∨ ListedIn store orig.id r ∨ NamedIn events r ∨ NoBounce orig

def Apart (id : String) (store : QueueStore) (events : List Event) : Prop :=
  ∀ r, ListedIn store id r → ¬NamedIn events r

theorem listedIn_of_stored {id : String}
    (stored : store.entries id = some entry) {r : String} :
    ListedIn store id r ↔ r ∈ entry.recipients := by
  simp [ListedIn, stored]

variable {acc : String → Prop}

theorem flushBounces_spec
    (runner : QueueRunner) (env : Env) (now : Int) (acct : Accounted orig acc round)
    (world : World) :
    ∃ events, (runner.flushBounces env now round.entry round.outcome round.pending world).2.trace =
        world.trace ++ events ∧
      (failures events ≤ 1 → (∀ r ∈ round.entry.recipients, ListedIn world.store orig.id r) →
        Placed orig acc
          (runner.flushBounces env now round.entry round.outcome round.pending world).2.store
          events) ∧
      (failures events ≤ 1 → (∀ k, env.newId k ≠ orig.id) →
        (∀ r, ListedIn world.store orig.id r → r ∈ round.entry.recipients) →
        Apart orig.id
          (runner.flushBounces env now round.entry round.outcome round.pending world).2.store
          events) := by
  obtain ⟨entry', outcome', error, world', events, run, spec⟩ :=
    flushLoop_spec runner env now round.pending round.entry round.outcome none world
  have same : NoBounce round.entry ↔ NoBounce orig := noBounce_congr acct.kind acct.mailFrom
  -- who is accounted for once the entry that the loop returns is on disk
  have place : ∀ (store : QueueStore) (extra : List Event),
      (∀ r ∈ entry'.recipients, ListedIn store orig.id r) →
      Placed orig acc store (events ++ extra) := by
    intro store extra listed r hr
    have split : NamedIn events r → NamedIn (events ++ extra) r := by
      rintro ⟨dsn, failed, mem, rest⟩
      exact ⟨dsn, failed, List.mem_append_left _ mem, rest⟩
    rcases acct.cover r hr with done | stays | bounced
    · exact .inl done
    · exact .inr (.inl (listed r (spec.grows stays)))
    · rcases spec.settled r bounced with h | h | h
      · exact .inr (.inr (.inr (same.mp h)))
      · exact .inr (.inr (.inl (split h)))
      · exact .inr (.inl (listed r h))
  cases error with
  | none =>
    have result : runner.flushBounces env now round.entry round.outcome round.pending world =
        (.ok outcome', world') := by
      simp only [QueueRunner.flushBounces, run]
      rfl
    obtain ⟨rfl, -⟩ := spec.clean rfl
    rw [result]
    refine ⟨events, spec.trace, ?_, ?_⟩
    · intro _ listed
      have := place world'.store [] fun r hr => by
        obtain ⟨e, stored, mem⟩ := listed r hr
        exact ⟨e, spec.stable _ _ stored, mem⟩
      rwa [List.append_nil] at this
    · intro _ fresh only r listed named
      have before : ListedIn world.store orig.id r := by
        simpa only [ListedIn, spec.frame _ fresh] using listed
      exact spec.apart acct.disjoint acct.apart r named (only r before)
  | some e =>
    have result : runner.flushBounces env now round.entry round.outcome round.pending world =
        (.error e, (enqueue env entry' world').2) := by
      simp only [QueueRunner.flushBounces, run]
      rfl
    have dirty := spec.dirty (by simp)
    have id : entry'.id = orig.id := by rw [spec.shape]; exact acct.id
    rw [result]
    obtain ⟨_, -, hstore, htrace⟩ | ⟨-, hstore, htrace⟩ := enqueue_cases env entry' world'
    · -- a second failure
      refine ⟨events ++ [.failed (.update entry')], ?_, ?_, ?_⟩
      · rw [htrace, spec.trace, List.append_assoc]
      all_goals
        intro many
        simp only [failures_append, failures_failed, failures_nil] at many
        omega
    · have stored : (enqueue env entry' world').2.store.entries orig.id = some entry' := by
        rw [hstore, QueueStore.put_entries, id, Function.update_self]
      refine ⟨events ++ [.done (.update entry')], ?_, ?_, ?_⟩
      · rw [htrace, spec.trace, List.append_assoc]
      · intro _ _
        exact place _ _ fun r hr => (listedIn_of_stored stored).mpr hr
      · intro _ _ _ r listed named
        have named' : NamedIn events r := by
          obtain ⟨dsn, failed, mem, rest⟩ := named
          exact ⟨dsn, failed, by simpa using mem, rest⟩
        exact spec.apart acct.disjoint acct.apart r named' ((listedIn_of_stored stored).mp listed)

theorem Placed.cons {orig : QueueEntry} {acc : String → Prop} {store : QueueStore}
    {events : List Event} (ev : Event) (h : Placed orig acc store events) :
    Placed orig acc store (ev :: events) := by
  intro r hr
  rcases h r hr with h | h | h | h
  · exact .inl h
  · exact .inr (.inl h)
  · exact .inr (.inr (.inl (namedIn_cons.mpr (.inr h))))
  · exact .inr (.inr (.inr h))

theorem Apart.cons {id : String} {store : QueueStore} {events : List Event} {ev : Event}
    (quiet : ∀ r, ¬NamedIn [ev] r) (h : Apart id store events) :
    Apart id store (ev :: events) := by
  intro r listed named
  exact h r listed ((namedIn_cons.mp named).resolve_left (quiet r))

theorem placed_of_stored (acc : String → Prop)
    (events : List Event) (stored : store.entries orig.id = some orig) :
    Placed orig acc store events :=
  fun _ hr => .inr (.inl ((listedIn_of_stored stored).mpr hr))

theorem finish_spec (runner : QueueRunner) (env : Env) (now : Int) (acct : Accounted orig acc round)
    (world : World) (stored : world.store.entries orig.id = some orig) :
    ∃ events, (runner.finish env now round world).2.trace = world.trace ++ events ∧
      (failures events ≤ 1 → Placed orig acc (runner.finish env now round world).2.store events) ∧
      (failures events ≤ 1 → (∀ k, env.newId k ≠ orig.id) →
        Apart orig.id (runner.finish env now round world).2.store events) := by
  by_cases empty : round.entry.recipients = []
  · -- nobody is left on the entry
    simp only [QueueRunner.finish, empty, List.isEmpty_nil, if_true]
    have step := remove_cases env round.entry.id world
    generalize remove env round.entry.id world = result at step ⊢
    obtain ⟨status, next⟩ := result
    obtain ⟨e, rfl, hstore, htrace⟩ | ⟨existed, rfl, hstore, htrace⟩ := step
    · refine ⟨_, htrace, fun _ => ?_, fun _ _ r _ => by simp⟩
      exact placed_of_stored acc _ (by rw [hstore]; exact stored)
    · obtain ⟨events, trace, placed, apart⟩ := flushBounces_spec runner env now acct next
      have gone : next.store.entries orig.id = none := by
        rw [show next.store.entries = _ from hstore, acct.id, QueueStore.erase_entries,
          Function.update_self]
      refine ⟨.done (.remove round.entry.id) :: events, ?_, ?_, ?_⟩
      · rw [trace, show next.trace = _ from htrace]; simp
      · intro few
        exact (placed (by simpa using few) (by simp [empty])).cons _
      · intro few fresh
        refine (apart (by simpa using few) fresh ?_).cons (by simp)
        rintro r ⟨e, present, -⟩
        rw [gone] at present
        contradiction
  · have left : round.entry.recipients.isEmpty = false := by simpa using empty
    simp only [QueueRunner.finish, left, Bool.false_eq_true, if_false]
    cases mutated : round.mutated with
    | true =>
      simp only [if_true]
      cases valid : round.entry.validate with
      | error e =>
        refine ⟨_, rfl, fun _ => placed_of_stored acc _ stored, fun _ _ r _ => by simp⟩
      | ok u =>
        have step := enqueue_cases env round.entry world
        generalize enqueue env round.entry world = result at step ⊢
        obtain ⟨status, next⟩ := result
        obtain ⟨e, rfl, hstore, htrace⟩ | ⟨rfl, hstore, htrace⟩ := step
        · refine ⟨_, htrace, fun _ => ?_, fun _ _ r _ => by simp⟩
          exact placed_of_stored acc _ (by rw [hstore]; exact stored)
        · obtain ⟨events, trace, placed, apart⟩ := flushBounces_spec runner env now acct next
          have written : next.store.entries orig.id = some round.entry := by
            rw [show next.store = _ from hstore, QueueStore.put_entries, acct.id,
              Function.update_self]
          refine ⟨.done (.update round.entry) :: events, ?_, ?_, ?_⟩
          · rw [trace, show next.trace = _ from htrace]; simp
          · intro few
            refine (placed (by simpa using few) ?_).cons _
            exact fun r hr => (listedIn_of_stored written).mpr hr
          · intro few fresh
            refine (apart (by simpa using few) fresh ?_).cons (by simp)
            exact fun r hr => (listedIn_of_stored written).mp hr
    | false =>
      obtain ⟨same, -⟩ := acct.untouched mutated
      obtain ⟨events, trace, placed, apart⟩ := flushBounces_spec runner env now acct world
      simp only [Bool.false_eq_true, if_false]
      refine ⟨events, trace, fun few => placed few ?_, fun few fresh => apart few fresh ?_⟩
      · exact fun r hr => (listedIn_of_stored stored).mpr (same ▸ hr)
      · exact fun r hr => same ▸ (listedIn_of_stored stored).mp hr

theorem abandon_spec
    (runner : QueueRunner) (env : Env) (now : Int) (acct : Accounted orig acc round)
    (world : World) (stored : world.store.entries orig.id = some orig) :
    ∃ events, (runner.abandon env now round world).trace = world.trace ++ events ∧
      (failures events ≤ 1 → Placed orig acc (runner.abandon env now round world).store events) ∧
      (failures events ≤ 1 → (∀ k, env.newId k ≠ orig.id) →
        (¬∃ e, Event.failed (.update e) ∈ events) →
        Apart orig.id (runner.abandon env now round world).store events) := by
  cases mutated : round.mutated with
  | false =>
    obtain ⟨-, none⟩ := acct.untouched mutated
    refine ⟨[], ?_, fun _ => ?_, fun _ _ _ r _ => by simp⟩
    · simp [QueueRunner.abandon, mutated, none]
    · exact placed_of_stored acc _ (by simpa [QueueRunner.abandon, mutated, none] using stored)
  | true =>
    have step := enqueue_cases env round.entry world
    simp only [QueueRunner.abandon, mutated, if_true, persistBestEffort]
    generalize enqueue env round.entry world = result at step ⊢
    obtain ⟨status, next⟩ := result
    obtain ⟨e, rfl, hstore, htrace⟩ | ⟨rfl, hstore, htrace⟩ := step
    · -- the write-back failed and the entry is stored as it was
      have kept : next.store.entries orig.id = some orig := by
        rw [show next.store = _ from hstore]; exact stored
      by_cases none : round.pending.isEmpty = true
      · simp only [none, if_true]
        exact ⟨_, htrace, fun _ => placed_of_stored acc _ kept, fun _ _ _ r _ => by simp⟩
      · obtain ⟨events, trace, placed, apart⟩ := flushBounces_spec runner env now acct next
        simp only [none, Bool.false_eq_true, if_false]
        refine ⟨.failed (.update round.entry) :: events, ?_, ?_, ?_⟩
        · rw [trace, show next.trace = _ from htrace]; simp
        · intro few
          simp only [failures_failed] at few
          refine (placed (by omega) ?_).cons _
          exact fun r hr => (listedIn_of_stored kept).mpr (acct.subset hr)
        · intro _ _ quiet
          exact absurd ⟨round.entry, List.mem_cons_self⟩ quiet
    · have written : next.store.entries orig.id = some round.entry := by
        rw [show next.store = _ from hstore, QueueStore.put_entries, acct.id, Function.update_self]
      by_cases none : round.pending.isEmpty = true
      · simp only [none, if_true]
        have empty : round.pending = [] := by simpa using none
        refine ⟨_, htrace, fun _ r hr => ?_, fun _ _ _ r _ => by simp⟩
        rcases acct.cover r hr with h | h | h
        · exact .inl h
        · exact .inr (.inl ((listedIn_of_stored written).mpr h))
        · simp [empty, reported] at h
      · obtain ⟨events, trace, placed, apart⟩ := flushBounces_spec runner env now acct next
        simp only [none, Bool.false_eq_true, if_false]
        refine ⟨.done (.update round.entry) :: events, ?_, ?_, ?_⟩
        · rw [trace, show next.trace = _ from htrace]; simp
        · intro few
          refine (placed (by simpa using few) ?_).cons _
          exact fun r hr => (listedIn_of_stored written).mpr hr
        · intro few fresh _
          refine (apart (by simpa using few) fresh ?_).cons (by simp)
          exact fun r hr => (listedIn_of_stored written).mp hr

/-- The remote transport reported another number of accepted recipients than it was handed. -/
def RemoteMiscount (trace : List Event) : Prop :=
  ∃ route recipients receipt,
    Event.delivered (.remote route) recipients (.ok receipt) ∈ trace ∧
      receipt.accepted ≠ recipients.length

/-- Only transports were called so far. -/
def OnlyDeliveries (trace : List Event) : Prop :=
  ∀ ev ∈ trace, ∃ target recipients result, ev = Event.delivered target recipients result

theorem OnlyDeliveries.nil : OnlyDeliveries [] := List.forall_mem_nil _

variable {trace : List Event}

theorem OnlyDeliveries.snoc (h : OnlyDeliveries trace)
    (target : DeliveryTarget) (recipients : List String) (result : DeliveryResult) :
    OnlyDeliveries (trace ++ [.delivered target recipients result]) := by
  intro ev mem
  rcases List.mem_append.mp mem with old | new
  · exact h ev old
  · exact ⟨target, recipients, result, List.mem_singleton.mp new⟩

theorem OnlyDeliveries.failures (h : OnlyDeliveries trace) :
    failures trace = 0 := by
  refine List.countP_eq_zero.mpr fun ev mem => ?_
  obtain ⟨_, _, _, rfl⟩ := h ev mem
  simp [Event.isFailed]

theorem OnlyDeliveries.namedIn (h : OnlyDeliveries trace)
    (events : List Event) (r : String) : NamedIn (trace ++ events) r ↔ NamedIn events r := by
  constructor
  · rintro ⟨dsn, failed, mem, rest⟩
    rcases List.mem_append.mp mem with old | new
    · obtain ⟨_, _, _, impossible⟩ := h _ old
      cases impossible
    · exact ⟨dsn, failed, new, rest⟩
  · rintro ⟨dsn, failed, mem, rest⟩
    exact ⟨dsn, failed, List.mem_append_right _ mem, rest⟩

theorem AcceptedIn.append {r : String} (h : AcceptedIn trace r)
    (events : List Event) : AcceptedIn (trace ++ events) r := by
  obtain ⟨target, recipients, result, mem, hr⟩ := h
  exact ⟨target, recipients, result, List.mem_append_left _ mem, hr⟩

variable {backoff : BackoffPolicy} {now : Int} {target : DeliveryTarget} {result : DeliveryResult}
  {tried : Bool} {round' : Round} {world world' : World}

/-- A half that ends well keeps the account, leaves the store alone and adds bounces only for the
recipients it was handed. -/
theorem Half.accounted
    (h : Half backoff now attempted target result tried round world (some round', world'))
    (acct : Accounted orig (AcceptedIn world.trace) round)
    (apart : ∀ r ∈ reported round.pending, r ∉ attempted) (quiet : OnlyDeliveries world.trace) :
    Accounted orig (AcceptedIn world'.trace) round' ∧ world'.store = world.store ∧
      OnlyDeliveries world'.trace ∧
      ∀ r ∈ reported round'.pending, r ∈ reported round.pending ∨ r ∈ attempted := by
  cases h with
  | skipped _ entry pending mutated store trace =>
    refine ⟨?_, store, by rw [trace]; exact quiet, fun r hr => .inl (pending ▸ hr)⟩
    obtain ⟨h1, h2, h3, h4, h5, h6, h7, h8, h9⟩ := acct
    rw [← entry] at h1 h2 h3 h4 h5 h7 h9
    rw [← pending] at h7 h8 h9
    rw [← mutated] at h9
    refine ⟨h1, h2, h3, h4, h5, ?_, h7, h8, h9⟩
    rw [trace, entry, pending]
    exact h6
  | counted _ applied store trace =>
    refine ⟨?_, store, by rw [trace]; exact quiet.snoc _ _ _, ?_⟩
    · refine acct.applyResult apart applied (fun r hr => trace ▸ hr.append _) ?_
      intro r hr
      rw [trace]
      exact ⟨target, attempted, result, by simp, hr⟩
    · intro r hr
      obtain ⟨-, -, -, -, -, pending, -⟩ := applyResult_spec applied
      rw [pending, reported_append, List.mem_append] at hr
      exact hr.imp_right bouncesOf_subset

theorem Half.begins {policy : RelayPolicy}
    (h : Half backoff now (partition entry policy).1 target result tried (.start entry) world
      (some round, world'))
    (start : world.trace = []) :
    Accounted entry (AcceptedIn world'.trace) round ∧ world'.store = world.store ∧
      OnlyDeliveries world'.trace ∧
      ∀ r ∈ reported round.pending, r ∉ (partition entry policy).2 := by
  obtain ⟨acct, store, quiet, source⟩ := h.accounted (Accounted.start entry _)
    (by simp [Round.start, reported]) (by rw [start]; exact .nil)
  refine ⟨acct, store, quiet, fun r hr => ?_⟩
  rcases source r hr with h | h
  · simp [Round.start, reported] at h
  · exact partition_apart h

/-- A round does not lose a recipient while at most one store operation fails: each of them was
accepted by a transport, is on the stored entry or is reported in a stored bounce, unless no bounce
is sent for the entry at all. And nobody is kept for a retry and reported in a bounce, unless the
rewriting of the entry failed after a miscount of the remote transport. -/
theorem process_conserves_recipients (runner : QueueRunner) (env : Env) (now : Int)
    (policy : RelayPolicy) (entry : QueueEntry) (world : World)
    (stored : world.store.entries entry.id = some entry) (start : world.trace = [])
    (single : failures (runner.process env now policy entry world).2.trace ≤ 1) :
    (∀ r ∈ entry.recipients,
      AcceptedIn (runner.process env now policy entry world).2.trace r ∨
      ListedIn (runner.process env now policy entry world).2.store entry.id r ∨
      NamedIn (runner.process env now policy entry world).2.trace r ∨ NoBounce entry) ∧
    ((∀ k, env.newId k ≠ entry.id) →
      ¬(RemoteMiscount (runner.process env now policy entry world).2.trace ∧
        ∃ e, Event.failed (.update e) ∈ (runner.process env now policy entry world).2.trace) →
      ∀ r, ¬(ListedIn (runner.process env now policy entry world).2.store entry.id r ∧
        NamedIn (runner.process env now policy entry world).2.trace r)) := by
  have trace : (runner.process env now policy entry world).2.trace =
      (runner.processBody env now policy entry world).2.trace := rfl
  have listed : ∀ r, ListedIn (runner.process env now policy entry world).2.store entry.id r ↔
      ListedIn (runner.processBody env now policy entry world).2.store entry.id r :=
    fun _ => Iff.rfl
  simp only [trace, listed] at single ⊢
  have first := localHalf_spec runner env now (partition entry policy).1 (Round.start entry) world
  simp only [QueueRunner.processBody] at single ⊢
  generalize runner.localHalf env now (partition entry policy).1 (Round.start entry) world =
    half at first single ⊢
  obtain ⟨_ | round1, world1⟩ := half
  · -- the local transport miscounted: nothing is written
    cases first with
    | miscounted _ _ store trace1 =>
      have quiet : OnlyDeliveries world1.trace := by
        rw [trace1, start]
        exact OnlyDeliveries.nil.snoc _ _ _
      have none : ∀ r, ¬NamedIn world1.trace r := by
        intro r named
        rw [← List.append_nil world1.trace, quiet.namedIn] at named
        exact not_namedIn_nil r named
      refine ⟨fun r hr => .inr (.inl ?_), fun _ _ r both => none r both.2⟩
      exact (listedIn_of_stored (by rw [store]; exact stored)).mpr hr
  · obtain ⟨acct1, store1, quiet1, apart1⟩ := first.begins start
    have second := remoteHalf_spec runner env now (partition entry policy).2 round1 world1
    simp only at single ⊢
    generalize runner.remoteHalf env now (partition entry policy).2 round1 world1 =
      half at second single ⊢
    obtain ⟨_ | round2, world2⟩ := half
    · -- the remote transport miscounted
      cases second with
      | miscounted _ applied store2 trace2 =>
        obtain ⟨receipt, hres, hcount⟩ := applyResult_none applied
        have quiet2 : OnlyDeliveries world2.trace := by rw [trace2]; exact quiet1.snoc _ _ _
        have acct2 : Accounted entry (AcceptedIn world2.trace) round1 :=
          acct1.weaken fun r hr => trace2 ▸ hr.append _
        obtain ⟨events, htrace, placed, apart⟩ := abandon_spec runner env now acct2 world2
          (by rw [store2, store1]; exact stored)
        simp only [htrace, failures_append, quiet2.failures, Nat.zero_add] at single
        simp only [htrace, quiet2.namedIn]
        refine ⟨fun r hr => ?_, fun fresh safe r both => ?_⟩
        · exact (placed single r hr).imp_left fun h => h.append _
        · refine apart single fresh ?_ r both.1 both.2
          rintro ⟨e, he⟩
          refine safe ⟨⟨runner.outboundRoute, _, receipt, ?_, hcount⟩, e,
            List.mem_append_right _ he⟩
          rw [trace2, ← hres]
          exact List.mem_append_left _ (List.mem_append_right _ List.mem_cons_self)
    · obtain ⟨acct2, store2, quiet2, -⟩ := second.accounted acct1 apart1 quiet1
      obtain ⟨events, htrace, placed, apart⟩ := finish_spec runner env now acct2 world2
        (by rw [store2, store1]; exact stored)
      simp only [htrace, failures_append, quiet2.failures, Nat.zero_add] at single
      simp only [htrace, quiet2.namedIn]
      refine ⟨fun r hr => ?_, fun fresh _ r both => apart single fresh r both.1 both.2⟩
      exact (placed single r hr).imp_left fun h => h.append _

/-- A runner with its default schedule and no relay. -/
def plainRunner : QueueRunner :=
  { config :=
      { backoff := .default
        reportingMta := "mx.example.org"
        managedDomains := ["example.org"]
        blockedThreshold := 3 }
    relay := none }

def plainEntry (mailFrom : String) (recipients : List String) : QueueEntry :=
  QueueEntry.draft "q1" "2024-01-01T00:00:00Z" .outbound mailFrom recipients "Subject: x\r\n\r\nx" 0

/-- A queue that holds one entry. -/
def plainWorld (entry : QueueEntry) : World :=
  { store :=
      { entries := fun id => if id = entry.id then some entry else none
        reserved := fun _ => false
        claims := fun _ => none }
    health := {}
    halfOpenUsed := false
    calls := 0
    drawn := 0
    trace := [] }

def rejected : DeliveryFailure :=
  { failureClass := .permanent, kind := "smtp", message := "550 no such user", code := some 550,
    accepted := [], localFault := false }

/-- Both transports reject, and the store operation number `bad` fails. -/
def rejectingEnv (bad : Option Nat) : Env :=
  { localResult := .error rejected
    remoteResult := .error rejected
    fault := fun n => if bad = some n then some "no space left on device" else none
    newId := fun _ => "dsn1"
    date := fun _ => "Mon, 01 Jan 2024 00:00:00 +0000"
    boundary := fun _ => "b1"
    nowIso := "2024-01-01T00:00:00Z" }

def afterRejection (bad : Option Nat) (entry : QueueEntry) : World :=
  (plainRunner.process (rejectingEnv bad) 0 (RelayPolicy.new ["example.org"]) entry
    (plainWorld entry)).2

def rejectedEntry : QueueEntry := plainEntry "a@example.org" ["r@remote.net"]

/-- The bounce of a rejected recipient cannot be stored: the recipient is accounted for all the
same. -/
theorem process_conserves_recipients_bounce_lost :
    failures (afterRejection (some 1) rejectedEntry).trace = 1 ∧
    ∀ r ∈ rejectedEntry.recipients,
      AcceptedIn (afterRejection (some 1) rejectedEntry).trace r ∨
      ListedIn (afterRejection (some 1) rejectedEntry).store rejectedEntry.id r ∨
      NamedIn (afterRejection (some 1) rejectedEntry).trace r ∨ NoBounce rejectedEntry := by
  unfold afterRejection
  exact ⟨by decide +kernel,
    (process_conserves_recipients plainRunner (rejectingEnv (some 1)) 0
      (RelayPolicy.new ["example.org"]) rejectedEntry (plainWorld rejectedEntry) rfl rfl
      (by decide +kernel)).1⟩

/-- A sender that is not null but holds a space gets no bounce either: its recipient is rejected,
the entry removed, and nothing is left of the recipient. -/
theorem process_drops_recipient_of_unusable_sender :
    ¬∀ (runner : QueueRunner) (env : Env) (now : Int) (policy : RelayPolicy) (entry : QueueEntry)
      (world : World), entry.validate = .ok () → world.store.entries entry.id = some entry →
      world.trace = [] → failures (runner.process env now policy entry world).2.trace ≤ 1 →
      ∀ r ∈ entry.recipients,
        AcceptedIn (runner.process env now policy entry world).2.trace r ∨
        ListedIn (runner.process env now policy entry world).2.store entry.id r ∨
        NamedIn (runner.process env now policy entry world).2.trace r ∨
        entry.isNullSender = true := by
  intro claim
  have trace : (afterRejection none (plainEntry "\"a b\"@example.org" ["r@remote.net"])).trace =
      [.delivered (.remote .direct) ["r@remote.net"] (.error rejected), .done (.remove "q1")] := rfl
  have gone : (afterRejection none
      (plainEntry "\"a b\"@example.org" ["r@remote.net"])).store.entries "q1" = none := rfl
  have lost := claim plainRunner (rejectingEnv none) 0 (RelayPolicy.new ["example.org"])
    (plainEntry "\"a b\"@example.org" ["r@remote.net"])
    (plainWorld (plainEntry "\"a b\"@example.org" ["r@remote.net"])) rfl rfl rfl
    (by decide +kernel) "r@remote.net" (by decide)
  change AcceptedIn (afterRejection _ _).trace _ ∨ ListedIn (afterRejection _ _).store "q1" _ ∨
    NamedIn (afterRejection _ _).trace _ ∨ _ at lost
  simp only [AcceptedIn, ListedIn, NamedIn, trace, gone] at lost
  rcases lost with ⟨_, _, _, mem, accepted⟩ | ⟨_, impossible, -⟩ | ⟨_, _, mem, -⟩ | null
  · simp only [List.mem_cons, List.not_mem_nil, or_false, reduceCtorEq,
      Event.delivered.injEq] at mem
    obtain ⟨-, -, rfl⟩ := mem
    simp [acceptedBy, rejected] at accepted
  · cases impossible
  · simp at mem
  · exact absurd null (by decide)

end MailStack.Queue
