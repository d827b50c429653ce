import MailStack.Web.RateLimit

/-! The attempts of many clients against the limiter, what has happened to one pair of an address
and an account, what its lock is for, and which calls spare it. -/

namespace MailStack.Web

open Lib

inductive Call
  | check (ip account : String) (now : Int) (order : Order)
  | recordFailure (ip account : String) (now : Int) (order : Order)
  | recordSuccess (ip account : String) (now : Int)

namespace Call

def pair : Call → String × String
  | .check ip account _ _ => (ip, account)
  | .recordFailure ip account _ _ => (ip, account)
  | .recordSuccess ip account _ => (ip, account)

def key (call : Call) : String × String := LimiterState.sourceKey call.pair.1 call.pair.2

def time : Call → Int
  | .check _ _ now _ => now
  | .recordFailure _ _ now _ => now
  | .recordSuccess _ _ now => now

def apply (s : LimiterState) : Call → LimiterState
  | .check ip account now order => (s.checkAt order ip account now).2
  | .recordFailure ip account now order => s.recordFailureAt order ip account now
  | .recordSuccess ip account _ => s.recordSuccess ip account

end Call

/-- A lock that a failure has set: when, in which window, and for how long. -/
structure Lock where
  since : Int
  window : Int
  length : Int

structure History where
  time : Int
  /-- The failures since the last success and since the end of the last lock. -/
  failed : List Int
  /-- The announced end of the lock, until it is over. -/
  ends : Option Int
  locks : List Lock

namespace History

/-- The clock goes on, and what it leaves behind is a lock that is over. -/
def advance (now : Int) (h : History) : History :=
  if h.ends.any (· ≤ now) then { h with time := now, failed := [], ends := none }
  else { h with time := now }

def fail (lock : Option Lock) (h : History) : History :=
  { h with
    failed := h.time :: h.failed
    ends := lock.elim h.ends fun lock =>
      let until_ := lock.since + lock.length
      some (max (h.ends.getD until_) until_)
    locks := lock.toList ++ h.locks }

def succeed (h : History) : History := { h with failed := [], locks := [] }

end History

def FailureRecord.lockSet (now : Int) (record : FailureRecord) : Option Lock :=
  if record.failures = 0 then
    record.lockedUntil.map fun until_ =>
      { since := now, window := record.windowStart, length := until_ - now }
  else none

/-- What a call adds to the history, with the record of the pair after it. -/
def History.note (pair : String × String) (after : Option FailureRecord) (call : Call)
    (h : History) : History :=
  if call.pair = pair then
    match call with
    | .check _ _ _ _ => h
    | .recordFailure _ _ now _ => h.fail (after.bind (·.lockSet now))
    | .recordSuccess _ _ _ => h.succeed
  else h

/-- The limiter, the attempts that have passed the check and wait for their outcome, and the history
of one pair. -/
structure Watch where
  limiter : LimiterState
  passed : List (String × String)
  history : History

namespace Watch

variable (pair : String × String)

def start (time : Int) : Watch where
  limiter := .new
  passed := []
  history := { time, failed := [], ends := none, locks := [] }

def record (w : Watch) : Option FailureRecord :=
  w.limiter.failures.get (LimiterState.sourceKey pair.1 pair.2)

/-- The clock does not run backwards, and an attempt has one outcome after it has passed. -/
def step (w : Watch) (call : Call) : Option Watch :=
  if call.time < w.history.time then none
  else
    let limiter := call.apply w.limiter
    let after := limiter.failures.get (LimiterState.sourceKey pair.1 pair.2)
    let history := (w.history.advance call.time).note pair after call
    match call with
    | .check ip account now order =>
      let passes := (w.limiter.checkAt order ip account now).1 = .allow
      some { limiter, history, passed := if passes then (ip, account) :: w.passed else w.passed }
    | .recordFailure ip account _ _ =>
      if (ip, account) ∈ w.passed then
        some { limiter, history, passed := w.passed.erase (ip, account) }
      else none
    | .recordSuccess ip account _ =>
      if (ip, account) ∈ w.passed then
        some { limiter, history, passed := w.passed.erase (ip, account) }
      else none

/-- Five failures lock, and a lock limits the pair until its announced end. -/
def Guarded (w : Watch) : Prop :=
  (failureLockoutThreshold ≤ w.history.failed.length → w.history.ends.isSome = true) ∧
    ∀ until_, w.history.ends = some until_ → w.history.time < until_ ∧
      ∀ now order, w.history.time ≤ now → now < until_ →
        ∃ retry, (w.limiter.checkAt order pair.1 pair.2 now).1 = .limited retry

/-- A lock in the window of the one before it is not shorter. -/
def Escalates (w : Watch) : Prop :=
  w.history.locks.IsChain fun later earlier =>
    later.since - earlier.window < seconds lockoutEscalationWindowSeconds →
      earlier.length ≤ later.length

def Short (pair : String × String) : Prop :=
  pair.1.utf8ByteSize ≤ maxKeyLen ∧ pair.2.utf8ByteSize ≤ maxKeyLen

/-- What a call for another pair leaves alone: the lock, now and later. -/
def Apart (w : Watch) : Prop :=
  ∀ call : Call, call.pair ≠ pair → Short call.pair → Short pair → ∀ now, call.time ≤ now →
    (call.apply w.limiter).lockOf pair.1 pair.2 now = w.limiter.lockOf pair.1 pair.2 now

end Watch

namespace FailureRecord

def Idle (now : Int) (record : FailureRecord) : Prop :=
  record.failures = 0 ∧ record.locked now = false ∧
    (record.lockouts = 0 ∨ now - record.windowStart ≥ seconds lockoutEscalationWindowSeconds)

instance (now : Int) (record : FailureRecord) : Decidable (record.Idle now) :=
  inferInstanceAs (Decidable (record.failures = 0 ∧ record.locked now = false ∧
    (record.lockouts = 0 ∨ now - record.windowStart ≥ seconds lockoutEscalationWindowSeconds)))

/-- An eviction from the table keeps the record, whatever order it goes through the table in, or it
does not matter. -/
def Outlives (now : Int) (t : Failures) (record : FailureRecord) : Prop :=
  record.locked now = true ∨
    (0 < record.failures ∧ (record.lockedUntil.isSome = true ∨
      (t.retain fun _ record => record.live now).size ≤ maxTrackedKeys)) ∨
    record.Idle now

instance (now : Int) (t : Failures) (record : FailureRecord) : Decidable (record.Outlives now t) :=
  inferInstanceAs (Decidable (record.locked now = true ∨
    (0 < record.failures ∧ (record.lockedUntil.isSome = true ∨
      (t.retain fun _ record => record.live now).size ≤ maxTrackedKeys)) ∨
    record.Idle now))

def nextLock (now : Int) (record : FailureRecord) : Int :=
  seconds (lockSeconds { record.rollWindow now with
    lockouts := satAdd u32Max (record.rollWindow now).lockouts 1 })

/-- One more failure at that time does not set a lock that ends before `until_`. -/
def LocksAtLeast (now until_ : Int) (record : FailureRecord) : Prop :=
  failureLockoutThreshold ≤ record.failures + 1 → until_ ≤ now + record.nextLock now

instance (now until_ : Int) (record : FailureRecord) : Decidable (record.LocksAtLeast now until_) :=
  inferInstanceAs (Decidable (_ → _))

end FailureRecord

/-- The table that a call evicts from. -/
def Call.evictsFrom (s : LimiterState) : Call → Option Failures
  | .check ip account now _ =>
    let cleared := s.endLock ip account now
    let counted := (cleared.roll ip account now).countAttempt ip account now
    if s.lockOf ip account now = none ∧ cleared.verdict ip account now = .allow ∧
        counted.tooLong = true then
      some cleared.failures
    else none
  | .recordFailure ip account now _ =>
    let added := s.addFailure ip account now
    if added.failures.size > maxTrackedKeys then some added.failures else none
  | .recordSuccess _ _ _ => none

namespace Watch

variable (pair : String × String)

/-- A check that ends a lock of the pair finds no failure after its end, a failure does not shorten
the lock, and no success is recorded during it. -/
def SparesOwn (record : Option FailureRecord) (h : History) : Call → Prop
  | .check _ _ now _ =>
    record.any (fun record => record.lockedUntil.any (· ≤ now)) = true → h.failed = []
  | .recordFailure _ _ now _ =>
    ∀ until_ ∈ h.ends, (record.getD (.new now)).LocksAtLeast now until_
  | .recordSuccess _ _ _ => h.ends = none

instance (record : Option FailureRecord) (h : History) : (call : Call) →
    Decidable (SparesOwn record h call)
  | .check _ _ now _ => inferInstanceAs (Decidable
      (record.any (fun record => record.lockedUntil.any (· ≤ now)) = true → h.failed = []))
  | .recordFailure _ _ now _ => inferInstanceAs (Decidable
      (∀ until_ ∈ h.ends, (record.getD (.new now)).LocksAtLeast now until_))
  | .recordSuccess _ _ _ => inferInstanceAs (Decidable (h.ends = none))

/-- The key of the pair is that of no other, an eviction does not take its record away, and its own
calls spare it. -/
def Spares (w : Watch) (call : Call) : Prop :=
  (call.key = LimiterState.sourceKey pair.1 pair.2 → call.pair = pair) ∧
  (∀ t ∈ call.evictsFrom w.limiter, ∀ record ∈ t.get (LimiterState.sourceKey pair.1 pair.2),
    record.Outlives call.time t) ∧
  (call.pair = pair → SparesOwn (w.record pair) (w.history.advance call.time) call)

instance (w : Watch) (call : Call) : Decidable (w.Spares pair call) :=
  inferInstanceAs (Decidable ((call.key = LimiterState.sourceKey pair.1 pair.2 → call.pair = pair) ∧
    (∀ t ∈ call.evictsFrom w.limiter, ∀ record ∈ t.get (LimiterState.sourceKey pair.1 pair.2),
      record.Outlives call.time t) ∧
    (call.pair = pair → SparesOwn (w.record pair) (w.history.advance call.time) call)))

end Watch

end MailStack.Web
