import MailStack.Imap.Command
import MailStack.Lib.Machine
import MailStack.Lib.Table

/-! The throttle of the IMAP and POP3 logins: which attempts it refuses, how it counts the failures
of each user, and that a user with too many of them is locked. -/

namespace MailStack.Imap

open Lib

structure PenaltyState where
  windowStart : Int
  failures : Nat
  lockedUntil : Int

structure AuthThrottleConfig where
  maxFailures : Nat
  windowSecs : Int
  lockoutSecs : Int
  maxTracked : Nat

inductive ThrottleDecision
  | allow
  | deny (retryAfterSecs : Int)
deriving DecidableEq

abbrev Penalties := Table String PenaltyState

def Penalties.check (states : Penalties) (user : String) (now : Int) : ThrottleDecision :=
  match states.get user with
  | none => .allow
  | some state =>
    if state.lockedUntil > now then .deny (clampI64 (state.lockedUntil - now)) else .allow

section

variable (config : AuthThrottleConfig) (now : Int)

def PenaltyState.live (state : PenaltyState) : Bool :=
  state.lockedUntil > now || clampI64 (now - state.windowStart) < config.windowSecs

def PenaltyState.counted (state : PenaltyState) : PenaltyState :=
  if state.failures + 1 ≥ config.maxFailures then
    { state with lockedUntil := clampI64 (now + config.lockoutSecs), failures := 0 }
  else { state with failures := state.failures + 1 }

/-- The failure of a user who is tracked. -/
def PenaltyState.penalized (state : PenaltyState) : PenaltyState :=
  let state :=
    if state.lockedUntil ≠ 0 ∧ state.lockedUntil ≤ now then
      { lockedUntil := 0, failures := 0, windowStart := now }
    else state
  let state :=
    if clampI64 (now - state.windowStart) ≥ config.windowSecs ∨ now < state.windowStart then
      { state with windowStart := now, failures := 0 }
    else state
  state.counted config now

def Penalties.isFull (states : Penalties) : Bool := states.size ≥ config.maxTracked

/-- The table that a failure is recorded in: of a full one, what is live. -/
def Penalties.pruned (states : Penalties) : Penalties :=
  if states.isFull config then states.retain fun _ state => state.live config now else states

def Penalties.recordFailure (states : Penalties) (user : String) : Penalties :=
  if config.maxFailures = 0 then states
  else
    let states := states.pruned config now
    if states.isFull config ∧ user ∉ states then states
    else states.update user { windowStart := now, failures := 0, lockedUntil := 0 }
      (·.penalized config now)

end

/-- An attempt with a password: when it is checked, what the authenticator inside says to it if it
is asked, and when that is recorded. -/
structure Attempt where
  user : String
  checkedAt : Int
  outcome : AuthOutcome
  recordedAt : Int

def Attempt.key (a : Attempt) : String := toAsciiLowercase (trim a.user)

/-- The attempts of a run: LOGIN, PLAIN and USER with PASS authenticate with a password, and SCRAM
reads credentials. -/
inductive AuthEvent
  | authenticate (a : Attempt)
  | scram (user : String) (time : Int) (outcome : AuthOutcome)

namespace AuthEvent

def start : AuthEvent → Int
  | .authenticate a => a.checkedAt
  | .scram _ time _ => time

def stop : AuthEvent → Int
  | .authenticate a => a.recordedAt
  | .scram _ time _ => time

end AuthEvent

def Attempt.allowed (states : Penalties) (a : Attempt) : Bool :=
  a.key.isEmpty || states.check a.key a.checkedAt = .allow

def answer (states : Penalties) : AuthEvent → AuthOutcome
  | .authenticate a => if a.allowed states then a.outcome else .invalidCredentials
  | .scram _ _ outcome => outcome

variable (config : AuthThrottleConfig)

/-- The table after an attempt. -/
def after : AuthEvent → Penalties → Penalties
  | .authenticate a, states =>
    if a.key.isEmpty || !a.allowed states then states
    else
      match a.outcome with
      | .success user => states.remove user
      | .invalidCredentials => states.recordFailure config a.recordedAt a.key
      | .temporaryFailure _ => states
  | .scram _ _ _, states => states

def answers (states : Penalties) (events : List AuthEvent) : List AuthOutcome :=
  (trace (after config) states events).map fun met => answer met.1 met.2

/-- The time of a failure of the user, found by the authenticator inside. -/
def failedAt (user : String) : Penalties × AuthEvent → Option Int
  | (states, .authenticate a) =>
    if a.key = user ∧ a.allowed states ∧ a.outcome = .invalidCredentials then some a.recordedAt
    else none
  | (_, .scram _ _ _) => none

def failureTimes (user : String) (states : Penalties) (events : List AuthEvent) : List Int :=
  (trace (after config) states events).filterMap (failedAt user)

def clears (user : String) : Penalties × AuthEvent → Bool
  | (states, .authenticate a) => a.allowed states && a.outcome = .success user
  | (_, .scram _ _ _) => false

/-- No event starts before the one before it has ended. -/
def InOrder : Int → List AuthEvent → Prop
  | _, [] => True
  | now, event :: rest => now ≤ event.start ∧ event.start ≤ event.stop ∧ InOrder event.stop rest

/-- No failure of the user is still counted: the next one opens a window. -/
def OpensWindow (states : Penalties) (user : String) (now : Int) : Prop :=
  ∀ state, states.get user = some state →
    state.lockedUntil ≠ 0 ∧ state.lockedUntil ≤ now ∨
      config.windowSecs ≤ clampI64 (now - state.windowStart)

/-- The table has room for a state of the user. -/
def HasRoom (states : Penalties) (user : String) (now : Int) : Prop :=
  (states.pruned config now).isFull config = false ∨ user ∈ states.pruned config now

variable {config} {states : Penalties} {user : String} {state : PenaltyState} {now : Int}

theorem clampI64_lt {x b : Int} (nonneg : 0 ≤ x) (lt : x < b) : clampI64 x < b := by
  have low : i64Min ≤ x := le_trans (by decide) nonneg
  unfold clampI64
  rw [max_lt_iff]
  refine ⟨lt_of_le_of_lt low lt, lt_of_le_of_lt (min_le_left _ _) lt⟩

theorem live_of_window {start : Int} (opened : state.windowStart = start) (from_ : start ≤ now)
    (window : now - start < config.windowSecs) : state.live config now = true := by
  have inside : clampI64 (now - state.windowStart) < config.windowSecs := by
    rw [opened]
    exact clampI64_lt (by omega) window
  simp [PenaltyState.live, inside]

theorem live_of_locked (locked : now < state.lockedUntil) : state.live config now = true := by
  simp [PenaltyState.live, locked]

theorem get_pruned (found : states.get user = some state)
    (live : state.live config now = true) :
    (states.pruned config now).get user = some state := by
  unfold Penalties.pruned
  split
  · rw [Table.get_retain, found, Option.filter_some, if_pos live]
  · exact found

theorem get_pruned_getD (fresh : PenaltyState) :
    ((states.pruned config now).get user).getD fresh = fresh ∨
      ∃ state, states.get user = some state ∧
        ((states.pruned config now).get user).getD fresh = state := by
  cases found : (states.pruned config now).get user with
  | none => exact .inl rfl
  | some state =>
    refine .inr ⟨state, ?_, rfl⟩
    unfold Penalties.pruned at found
    split at found
    · rw [Table.get_retain, Option.filter_eq_some_iff] at found
      exact found.1
    · exact found

theorem get_recordFailure (limited : 1 ≤ config.maxFailures)
    (room : HasRoom config states user now) :
    (states.recordFailure config now user).get user =
      some ((((states.pruned config now).get user).getD
        { windowStart := now, failures := 0, lockedUntil := 0 }).penalized config now) := by
  unfold Penalties.recordFailure
  rw [if_neg (by omega)]
  simp only
  rw [if_neg]
  · exact Table.get_update
  · rintro ⟨full, missing⟩
    rcases room with free | present
    · rw [free] at full
      cases full
    · exact missing present

theorem get_recordFailure_ne {other : String} (ne : user ≠ other)
    (found : states.get user = some state) (live : state.live config now = true) :
    (states.recordFailure config now other).get user = some state := by
  unfold Penalties.recordFailure
  split
  · exact found
  · simp only
    split
    · exact get_pruned found live
    · rw [Table.get_update_ne ne]
      exact get_pruned found live

theorem check_eq_allow (found : states.get user = some state)
    (allowed : states.check user now = .allow) : state.lockedUntil ≤ now := by
  unfold Penalties.check at allowed
  rw [found] at allowed
  simp only at allowed
  split at allowed
  · cases allowed
  · omega

theorem check_ne_allow (found : states.get user = some state) (locked : now < state.lockedUntil) :
    states.check user now ≠ .allow := by
  unfold Penalties.check
  rw [found]
  simp [locked]

theorem penalized_opens (past : state.lockedUntil ≤ now)
    (opens : state.lockedUntil ≠ 0 ∧ state.lockedUntil ≤ now ∨
      config.windowSecs ≤ clampI64 (now - state.windowStart)) :
    state.penalized config now =
      PenaltyState.counted config now { windowStart := now, failures := 0, lockedUntil := 0 } := by
  unfold PenaltyState.penalized
  by_cases ended : state.lockedUntil ≠ 0 ∧ state.lockedUntil ≤ now
  · simp only [ended, ne_eq, not_false_eq_true, and_self, if_true]
    split <;> rfl
  · have unlocked : state.lockedUntil = 0 := by
      by_contra nonzero
      exact ended ⟨nonzero, past⟩
    rcases opens with locked | window
    · exact absurd locked ended
    · simp only [ended, if_false]
      rw [if_pos (.inl window)]
      simp [unlocked]

theorem penalized_inside (unlocked : state.lockedUntil = 0) (from_ : state.windowStart ≤ now)
    (window : now - state.windowStart < config.windowSecs) :
    state.penalized config now = state.counted config now := by
  have inside : clampI64 (now - state.windowStart) < config.windowSecs :=
    clampI64_lt (by omega) window
  unfold PenaltyState.penalized
  simp only [unlocked, ne_eq, not_true_eq_false, false_and, if_false]
  rw [if_neg]
  omega

variable {event : AuthEvent}

/-- An attempt that does not fail for the user, and does not clear what is counted for him, leaves
his entry while it is live. -/
theorem get_after (found : states.get user = some state)
    (live : state.live config event.stop = true) (kept : clears user (states, event) = false)
    (passed : failedAt user (states, event) = none) :
    (after config event states).get user = some state := by
  cases event with
  | scram => exact found
  | authenticate a =>
    simp only [after]
    split
    · exact found
    rename_i asked
    rw [Bool.or_eq_true, not_or] at asked
    have allowed : a.allowed states = true := by simpa using asked.2
    have live : state.live config a.recordedAt = true := live
    split
    · rename_i other outcome
      rw [Table.get_remove_ne]
      · exact found
      · rintro rfl
        simp [clears, allowed, outcome] at kept
    · rename_i outcome
      refine get_recordFailure_ne ?_ found live
      rintro rfl
      simp [failedAt, allowed, outcome] at passed
    · exact found

variable {time : Int}

theorem after_of_failedAt (named : user ≠ "") (failed : failedAt user (states, event) = some time) :
    event.stop = time ∧ states.check user event.start = .allow ∧
      after config event states = states.recordFailure config time user := by
  cases event with
  | scram => cases failed
  | authenticate a =>
    simp only [failedAt] at failed
    split at failed
    · rename_i h
      obtain ⟨rfl, allowed, outcome⟩ := h
      cases failed
      have nonempty : a.key.isEmpty = false := by simpa using named
      refine ⟨rfl, ?_, ?_⟩
      · have check : a.key = "" ∨ states.check a.key a.checkedAt = .allow := by
          simpa [Attempt.allowed] using allowed
        exact check.resolve_left named
      · simp [after, nonempty, allowed, outcome]
    · cases failed

/-- The entry of a user after so many failures from `start` on, the last one at `last`. -/
def counting (config : AuthThrottleConfig) (start : Int) (failures : Nat) (last : Int) :
    PenaltyState :=
  if failures < config.maxFailures then
    { windowStart := start, failures, lockedUntil := 0 }
  else { windowStart := start, failures := 0, lockedUntil := clampI64 (last + config.lockoutSecs) }

theorem counted_eq_counting (start : Int) (failures : Nat) :
    PenaltyState.counted config now { windowStart := start, failures, lockedUntil := 0 } =
      counting config start (failures + 1) now := by
  unfold PenaltyState.counted counting
  by_cases more : failures + 1 < config.maxFailures
  · rw [if_neg (by simpa using more), if_pos more]
  · rw [if_pos (by simpa using more), if_neg more]

theorem counting_opens (limited : 1 ≤ config.maxFailures)
    (allowed : states.check user now = .allow) (order : now ≤ time)
    (opens : OpensWindow config states user time) (room : HasRoom config states user time) :
    (states.recordFailure config time user).get user = some (counting config time 1 time) := by
  rw [get_recordFailure limited room, ← counted_eq_counting time 0]
  congr 1
  rcases @get_pruned_getD config states user time
    { windowStart := time, failures := 0, lockedUntil := 0 } with fresh | ⟨state, found, same⟩
  · rw [fresh]
    unfold PenaltyState.penalized
    simp
  · rw [same]
    exact penalized_opens (le_trans (check_eq_allow found allowed) order) (opens state found)

theorem counting_continues {start last time : Int} {failures : Nat}
    (few : failures < config.maxFailures)
    (found : states.get user = some (counting config start failures last))
    (order : start ≤ time) (window : time - start < config.windowSecs) :
    (states.recordFailure config time user).get user =
      some (counting config start (failures + 1) time) := by
  have shape : counting config start failures last =
      { windowStart := start, failures, lockedUntil := 0 } := if_pos few
  rw [shape] at found
  have kept := @get_pruned config _ _ _ _ found (live_of_window rfl order window)
  have room : HasRoom config states user time := by
    exact .inr (Table.mem_of_get kept)
  rw [get_recordFailure (by omega) room, kept, Option.getD_some,
    penalized_inside rfl order window, counted_eq_counting]

variable {events : List AuthEvent}

theorem le_of_mem_failureTimes (order : InOrder now events)
    (mem : time ∈ failureTimes config user states events) : now ≤ time := by
  induction events generalizing states now with
  | nil => cases mem
  | cons event rest ih =>
    obtain ⟨start, stop, later⟩ := order
    simp only [failureTimes, trace, List.filterMap_cons] at mem
    cases failed : failedAt user (states, event) with
    | none =>
      rw [failed] at mem
      exact le_trans (le_trans start stop) (ih later mem)
    | some at_ =>
      rw [failed] at mem
      rcases List.mem_cons.mp mem with rfl | mem
      · cases event with
        | scram => cases failed
        | authenticate a =>
          simp only [failedAt] at failed
          split at failed
          · cases failed
            exact le_trans start stop
          · cases failed
      · exact le_trans (le_trans start stop) (ih later mem)

theorem failureTimes_cons (event : AuthEvent) (rest : List AuthEvent) :
    failureTimes config user states (event :: rest) =
      (failedAt user (states, event)).toList ++
        failureTimes config user (after config event states) rest := by
  unfold failureTimes
  rw [trace, List.filterMap_cons]
  cases failedAt user (states, event) <;> rfl

/-- Between the first failure of a window and the one that locks, and then until the lock ends, the
entry of the user follows the count of the failures. -/
theorem get_applyAll (named : user ≠ "") {start last : Int}
    {failures : Nat} (found : states.get user = some (counting config start failures last))
    (order : InOrder now events) (from_ : start ≤ now)
    (kept : ∀ met ∈ trace (after config) states events, clears user met = false)
    (count : failures + (failureTimes config user states events).length = config.maxFailures)
    (window : ∀ time ∈ failureTimes config user states events, time - start < config.windowSecs)
    (early : ∀ event ∈ events, event.stop <
      clampI64 ((failureTimes config user states events).getLast?.getD last +
        config.lockoutSecs)) :
    (applyAll (after config) states events).get user =
      some (counting config start config.maxFailures
      ((failureTimes config user states events).getLast?.getD last)) := by
  induction events generalizing states now failures last with
  | nil =>
    obtain rfl : failures = config.maxFailures := by simpa [failureTimes, trace] using count
    exact found
  | cons event rest ih =>
    obtain ⟨begins, ends, later⟩ := order
    have from_' : start ≤ event.stop := by omega
    have keptLater : ∀ met ∈ trace (after config) (after config event states) rest,
        clears user met = false := fun met mem => kept met (List.mem_cons_of_mem _ mem)
    rw [failureTimes_cons] at count window early ⊢
    rw [applyAll_cons]
    cases failed : failedAt user (states, event) with
    | none =>
      rw [failed] at count window early
      rw [Option.toList_none, List.nil_append] at count window early ⊢
      refine ih (get_after found ?_ (kept _ List.mem_cons_self) failed) later from_' keptLater
        count window fun e mem => early e (List.mem_cons_of_mem _ mem)
      by_cases few : failures < config.maxFailures
      · -- a later failure is inside the window, so this attempt is
        obtain ⟨time, mem⟩ : ∃ time, time ∈ failureTimes config user
            (after config event states) rest :=
          List.exists_mem_of_length_pos (by omega)
        have until_ := le_of_mem_failureTimes later mem
        have inside := window time mem
        exact live_of_window (by simp [counting, few]) from_' (by omega)
      · have none_left : failureTimes config user (after config event states) rest = [] :=
          List.eq_nil_of_length_eq_zero (by omega)
        have locked := early event List.mem_cons_self
        rw [none_left] at locked
        exact live_of_locked (by simpa [counting, few] using locked)
    | some time =>
      rw [failed] at count window early
      simp only [Option.toList_some, List.singleton_append, List.length_cons,
        List.getLast?_cons, Option.getD_some] at count window early ⊢
      obtain ⟨at_, -, recorded⟩ := after_of_failedAt named failed
      have counted := @counting_continues _ _ _ _ _ time _ (by omega) found (by omega)
        (window time List.mem_cons_self)
      rw [← recorded] at counted
      exact ih counted later from_' keptLater (by omega)
        (fun t mem => window t (List.mem_cons_of_mem _ mem))
        fun e mem => early e (List.mem_cons_of_mem _ mem)

theorem InOrder.head_le (order : InOrder now (events ++ [event])) : now ≤ event.start := by
  induction events generalizing now with
  | nil => exact order.1
  | cons e rest ih =>
    obtain ⟨begins, ends, later⟩ := order
    have := ih later
    omega

theorem InOrder.append {events rest : List AuthEvent} (order : InOrder now (events ++ rest)) :
    InOrder now events := by
  induction events generalizing now with
  | nil => trivial
  | cons e events ih =>
    obtain ⟨begins, ends, later⟩ := order
    exact ⟨begins, ends, ih later⟩

theorem InOrder.stop_le
    (order : InOrder now (events ++ [event])) : ∀ e ∈ events, e.stop ≤ event.start := by
  induction events generalizing now with
  | nil => simp
  | cons e rest ih =>
    obtain ⟨-, -, later⟩ := order
    intro e' mem
    rcases List.mem_cons.mp mem with rfl | mem
    · exact later.head_le
    · exact ih later e' mem

/-- A user whose attempts failed too often in a window is locked: from the failure that reached the
limit until the lockout is over, whatever the others do, every password attempt for him fails. -/
theorem locked_after_failures (config : AuthThrottleConfig) (user : String) (states : Penalties)
    (first : AuthEvent) (events : List AuthEvent) (attempt : Attempt) (opened : Int)
    (limited : 1 ≤ config.maxFailures) (named : user ≠ "")
    (order : InOrder first.start (first :: events ++ [.authenticate attempt]))
    (failed : failedAt user (states, first) = some opened)
    (opens : OpensWindow config states user opened)
    (room : HasRoom config states user opened)
    (kept : ∀ met ∈ trace (after config) states (first :: events), clears user met = false)
    (count : (failureTimes config user states (first :: events)).length = config.maxFailures)
    (window : ∀ time ∈ failureTimes config user states (first :: events),
      time - opened < config.windowSecs)
    (mine : attempt.key = user)
    (early : ∀ last, (failureTimes config user states (first :: events)).getLast? = some last →
      attempt.checkedAt < clampI64 (last + config.lockoutSecs)) :
    answer (applyAll (after config) states (first :: events)) (.authenticate attempt) =
      .invalidCredentials := by
  obtain ⟨begins, ends, later⟩ := order
  obtain ⟨stop, allowed, recorded⟩ := after_of_failedAt named failed
  have start := counting_opens limited allowed (by omega) opens room
  rw [← recorded] at start
  rw [failureTimes_cons, failed] at count window early
  simp only [Option.toList_some, List.singleton_append, List.length_cons,
    List.getLast?_cons, Option.some.injEq, forall_eq'] at count window early
  have entry := get_applyAll named start later.append (by omega)
    (fun met mem => kept met (List.mem_cons_of_mem _ mem)) (by omega)
    (fun t mem => window t (List.mem_cons_of_mem _ mem))
    fun e mem => lt_of_le_of_lt (later.stop_le e mem) early
  simp only [counting, lt_irrefl, if_false] at entry
  have denied := check_ne_allow entry early
  rw [← mine] at denied named
  have refused : attempt.allowed (applyAll (after config) states (first :: events)) = false := by
    rw [Attempt.allowed, Bool.or_eq_false_iff]
    exact ⟨by simpa using named, decide_eq_false denied⟩
  rw [answer, refused]
  rfl

def attemptAt (time : Int) (user : String) (outcome : AuthOutcome) : AuthEvent :=
  .authenticate { user, checkedAt := time, outcome, recordedAt := time }

def threeInAMinute (maxTracked : Nat) : AuthThrottleConfig :=
  { maxFailures := 3, windowSecs := 60, lockoutSecs := 900, maxTracked }

theorem locked_after_three_failures :
    answer (applyAll (after (threeInAMinute 2)) ∅ [attemptAt 1000 "alice" .invalidCredentials,
        attemptAt 1010 "bob" .invalidCredentials, attemptAt 1020 "ALICE" .invalidCredentials,
        .scram "alice" 1025 .invalidCredentials, attemptAt 1030 "alice" .invalidCredentials,
        attemptAt 1040 "alice" (.success "alice")])
      (attemptAt 1900 "alice" (.success "alice")) = .invalidCredentials := by
  refine locked_after_failures (threeInAMinute 2) "alice" ∅
    (attemptAt 1000 "alice" .invalidCredentials) _ _ 1000 (by decide) (by decide) ?_ ?_ ?_ ?_ ?_ ?_
    ?_ ?_ ?_
  · simp only [attemptAt, List.cons_append, List.nil_append, InOrder, AuthEvent.start,
      AuthEvent.stop]
    decide
  · decide +kernel
  · intro state found
    cases found
  · exact .inl (by decide)
  · decide +kernel
  · decide +kernel
  · decide +kernel
  · decide +kernel
  · have times : failureTimes (threeInAMinute 2) "alice" ∅
        [attemptAt 1000 "alice" .invalidCredentials,
          attemptAt 1010 "bob" .invalidCredentials, attemptAt 1020 "ALICE" .invalidCredentials,
          .scram "alice" 1025 .invalidCredentials, attemptAt 1030 "alice" .invalidCredentials,
          attemptAt 1040 "alice" (.success "alice")] = [1000, 1020, 1030] := by decide +kernel
    rw [times]
    intro last shape
    cases shape
    decide

/-- The failures of a user for whom a full table has no place are not counted, and a window runs
from its first failure on, so that one may end between failures that are close together. -/
theorem failures_unlocked :
    answers (threeInAMinute 1) ∅ [attemptAt 1000 "bob" .invalidCredentials,
        attemptAt 1001 "alice" .invalidCredentials, attemptAt 1002 "alice" .invalidCredentials,
        attemptAt 1003 "alice" .invalidCredentials, attemptAt 1004 "alice" (.success "alice")] =
      [.invalidCredentials, .invalidCredentials, .invalidCredentials, .invalidCredentials,
        .success "alice"] ∧
    answers (threeInAMinute 10) ∅ [attemptAt 1000 "alice" .invalidCredentials,
        attemptAt 1059 "alice" .invalidCredentials, attemptAt 1061 "alice" .invalidCredentials,
        attemptAt 1062 "alice" .invalidCredentials, attemptAt 1063 "alice" (.success "alice")] =
      [.invalidCredentials, .invalidCredentials, .invalidCredentials, .invalidCredentials,
        .success "alice"] := by
  decide +kernel

end MailStack.Imap
