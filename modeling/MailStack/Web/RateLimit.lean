import MailStack.Webmail.LoginThrottle

/-! The limiter of the admin logins: a window of attempts for all, for each address and for each
account, and the locks of each address with an account. -/

namespace MailStack.Web

open Lib

def globalLimitPerMinute : Nat := 600

def ipLimitPerMinute : Nat := 20

def accountLimitPerMinute : Nat := 10

def failureLockoutThreshold : Nat := 5

def lockoutEscalationSeconds : List Int := [900, 3600, 21600]

def lockoutEscalationWindowSeconds : Int := 24 * 3600

def maxKeyLen : Nat := 256

def maxTrackedKeys : Nat := 4096

/-- A moment is a number of nanoseconds, and so is what lies between two. -/
def seconds (n : Int) : Int := n * 1000000000

def wholeSeconds (nanos : Int) : Int := nanos.tdiv 1000000000

inductive LimitVerdict
  | allow
  | limited (retryAfterSecs : Int)
deriving DecidableEq

structure Counter where
  windowStart : Int
  count : Nat

structure FailureRecord where
  failures : Nat
  lockedUntil : Option Int
  lockouts : Nat
  windowStart : Int
deriving DecidableEq

abbrev Counters := Table String Counter

abbrev Failures := Table (String × String) FailureRecord

namespace Counter

def new (now : Int) : Counter := { windowStart := now, count := 0 }

variable (now : Int) (counter : Counter)

def roll : Counter := if now - counter.windowStart ≥ seconds 60 then new now else counter

def peek (limit : Nat) : LimitVerdict :=
  let counter := counter.roll now
  if counter.count ≥ limit then .limited (max (60 - wholeSeconds (now - counter.windowStart)) 1)
  else .allow

def add : Counter := { counter with count := counter.count + 1 }

end Counter

namespace FailureRecord

def new (now : Int) : FailureRecord :=
  { failures := 0, lockedUntil := none, lockouts := 0, windowStart := now }

variable (now : Int) (record : FailureRecord)

def lockSeconds : Int :=
  lockoutEscalationSeconds.getD (min (record.lockouts - 1) (lockoutEscalationSeconds.length - 1)) 0

def rollWindow : FailureRecord :=
  if now - record.windowStart ≥ seconds lockoutEscalationWindowSeconds then
    { record with lockouts := 0, windowStart := now }
  else record

def locked : Bool := record.lockedUntil.any (now < ·)

/-- The condition under which an eviction keeps a record at first. -/
def live : Bool := record.locked now || record.failures > 0

/-- What a check does about a lock that is over. -/
def endLock : FailureRecord :=
  if record.lockedUntil.any (· ≤ now) then
    ({ record with lockedUntil := none, failures := 0 } : FailureRecord).rollWindow now
  else record

def lock : FailureRecord :=
  let record := { record with lockouts := satAdd u32Max record.lockouts 1 }
  { record with lockedUntil := some (now + seconds record.lockSeconds), failures := 0 }

def recordFailure : FailureRecord :=
  let record := record.rollWindow now
  let record := { record with failures := satAdd u32Max record.failures 1 }
  if record.failures ≥ failureLockoutThreshold then record.lock now else record

end FailureRecord

/-- The orders in which the entries of the tables are gone through. -/
structure Order where
  counters : Counters → List (Sigma fun _ : String => Counter)
  failures : Failures → List (Sigma fun _ : String × String => FailureRecord)
  perm_counters : ∀ t, (counters t).Perm t.entries
  perm_failures : ∀ t, (failures t).Perm t.entries

structure LimiterState where
  global : Option Counter
  byIp : Counters
  byAccount : Counters
  failures : Failures

def sanitized (key : String) : String :=
  if key.utf8ByteSize ≤ maxKeyLen then key
  else String.ofList (Webmail.takeBytes maxKeyLen key.toList) ++ "\x00"

/-- The loop that removes the oldest counter, for at most so many counters. -/
def dropOldest (order : Order) : Nat → Counters → Counters
  | 0, t => t
  | n + 1, t =>
    if t.size > maxTrackedKeys then
      match @List.argmin _ Int Int.instLinearOrder.toPreorder _ (fun e => e.2.windowStart)
          (order.counters t) with
      | some oldest => dropOldest order n (t.remove oldest.1)
      | none => t
    else t

/-- The loop that removes records without a lock, for at most so many records. -/
def dropUnlocked (order : Order) : Nat → Failures → Failures
  | 0, t => t
  | n + 1, t =>
    if t.size > maxTrackedKeys then
      match (order.failures t).find? fun e => e.2.lockedUntil.isNone with
      | some victim => dropUnlocked order n (t.remove victim.1)
      | none => t
    else t

namespace LimiterState

def new : LimiterState := { global := none, byIp := ∅, byAccount := ∅, failures := ∅ }

variable (order : Order) (s : LimiterState) (ip account : String) (now : Int)

def keepFresh (t : Counters) : Counters :=
  let kept := t.retain fun _ c => now - c.windowStart < seconds 60
  dropOldest order kept.size kept

def keepRecords (t : Failures) : Failures :=
  let kept := t.retain fun _ record => record.live now
  dropUnlocked order kept.size kept

def evictExpired : LimiterState :=
  { s with
    byIp := keepFresh order now s.byIp
    byAccount := keepFresh order now s.byAccount
    failures := keepRecords order now s.failures }

def sourceKey : String × String := (sanitized ip, sanitized account)

/-- The lock of the pair, if it is over, is taken away. -/
def endLock : LimiterState :=
  match s.failures.get (sourceKey ip account) with
  | some record => { s with failures := s.failures.put (sourceKey ip account) (record.endLock now) }
  | none => s

def rollIn (key : String) (t : Counters) : Counters :=
  match t.get key with
  | some counter => t.put key (counter.roll now)
  | none => t

/-- The counters that `peek` looks at begin a new window if theirs is over. -/
def roll : LimiterState :=
  { s with
    global := s.global.map (·.roll now)
    byIp := rollIn now (sanitized ip) s.byIp
    byAccount := rollIn now (sanitized account) s.byAccount }

/-- The first of the three verdicts that limits. -/
def verdict : LimitVerdict :=
  let peek (limit : Nat) (counter : Option Counter) : LimitVerdict :=
    counter.elim .allow fun counter => counter.peek now limit
  let globalVerdict := peek globalLimitPerMinute s.global
  let ipVerdict := peek ipLimitPerMinute (s.byIp.get (sanitized ip))
  let accountVerdict := peek accountLimitPerMinute (s.byAccount.get (sanitized account))
  if globalVerdict ≠ .allow then globalVerdict
  else if ipVerdict ≠ .allow then ipVerdict
  else accountVerdict

def countAttempt : LimiterState :=
  { s with
    global := some (s.global.getD (.new now)).add
    byIp := s.byIp.update (sanitized ip) (.new now) (·.add)
    byAccount := s.byAccount.update (sanitized account) (.new now) (·.add) }

def tooLong : Bool :=
  s.byIp.size > maxTrackedKeys || s.byAccount.size > maxTrackedKeys ||
    s.failures.size > maxTrackedKeys

def lockOf : Option Int :=
  (s.failures.get (sourceKey ip account)).bind fun record => record.lockedUntil.filter (now < ·)

def checkAt : LimitVerdict × LimiterState :=
  match s.lockOf ip account now with
  | some until_ => (.limited (max (wholeSeconds (until_ - now)) 1), s)
  | none =>
    let s := s.endLock ip account now
    let found := s.verdict ip account now
    let s := s.roll ip account now
    if found ≠ .allow then (found, s)
    else
      let s := s.countAttempt ip account now
      (.allow, if s.tooLong then s.evictExpired order now else s)

def addFailure : LimiterState :=
  { s with
    failures := s.failures.update (sourceKey ip account) (.new now) (·.recordFailure now) }

def recordFailureAt : LimiterState :=
  let s := s.addFailure ip account now
  if s.failures.size > maxTrackedKeys then s.evictExpired order now else s

def recordSuccess : LimiterState :=
  { s with failures := s.failures.remove (sourceKey ip account) }

end LimiterState

end MailStack.Web
