import MailStack.Queue.Dsn

/-! The retry schedule: the delay before an attempt, spread by the entry's id, and what a failed
attempt writes into the entry. -/

namespace MailStack.Queue

open Lib

structure BackoffPolicy where
  baseSecs : Nat
  factor : Nat
  maxSecs : Nat
  maxAttempts : Nat

def BackoffPolicy.default : BackoffPolicy :=
  { baseSecs := 300, factor := 2, maxSecs := 14400, maxAttempts := 10 }

def maxLastErrorLen : Nat := 500

def sanitizeLastError (text : String) : String :=
  String.ofList ((sanitizeHeader text).toList.take maxLastErrorLen)

def stableHash (input : String) : UInt64 :=
  (bytes input).foldl (fun hash byte => (hash ^^^ byte.toUInt64) * 0x100000001b3)
    0xcbf29ce484222325

/-- The loop of `nominal_delay_secs`: `n` further multiplications, left at the cap. -/
def BackoffPolicy.grow (policy : BackoffPolicy) : Nat → Nat → Nat
  | 0, delay => min delay policy.maxSecs
  | n + 1, delay =>
    let delay := satMul u64Max delay policy.factor
    if delay ≥ policy.maxSecs then policy.maxSecs else policy.grow n delay

def BackoffPolicy.nominalDelaySecs (policy : BackoffPolicy) (attempt : Nat) : Nat :=
  if attempt = 0 then 0 else policy.grow (attempt - 1) policy.baseSecs

def BackoffPolicy.delaySecs (policy : BackoffPolicy) (attempt : Nat) (entryId : String) : Nat :=
  let nominal := policy.nominalDelaySecs attempt
  if nominal = 0 then 0
  else
    let spread := max (nominal / 10) 1
    let hash := (stableHash entryId).toNat
    let lower := max (nominal - spread) 1
    let upper :=
      if nominal ≥ policy.maxSecs then nominal
      else min (satAdd u64Max nominal spread) (max policy.maxSecs 1)
    let span := upper - lower
    max (satAdd u64Max lower (hash % (span + 1))) 1

def BackoffPolicy.exhausted (policy : BackoffPolicy) (attempts : Nat) : Bool :=
  attempts ≥ policy.maxAttempts

/-- Records a failed attempt on the entry. The flag says that no attempt is left. -/
def BackoffPolicy.onFailure (policy : BackoffPolicy) (entry : QueueEntry) (now : Int)
    (lastError : Option String) (lastCode : Option Nat) : QueueEntry × Bool :=
  let attempts := satAdd u32Max entry.attempts 1
  let delay := asI64 (policy.delaySecs attempts entry.id)
  ({ entry with
      attempts
      lastError := lastError.map sanitizeLastError
      lastCode
      nextAttemptUnix := clampI64 (now + delay) },
    policy.exhausted attempts)

/-- A policy with which every delay is positive and can be added to a time stamp. -/
structure BackoffPolicy.Usable (policy : BackoffPolicy) : Prop where
  base : 1 ≤ policy.baseSecs
  factor : 1 ≤ policy.factor
  cap : 1 ≤ policy.maxSecs
  signed : policy.maxSecs < 2 ^ 63

variable {policy : BackoffPolicy}

/-- Saturation is not seen under the cap: the loop ends before, or at the same value. -/
theorem BackoffPolicy.Usable.grow_eq (usable : policy.Usable) (n delay : Nat) :
    policy.grow n delay = min (delay * policy.factor ^ n) policy.maxSecs := by
  induction n generalizing delay with
  | zero => rw [grow, pow_zero, mul_one]
  | succ n ih =>
    have small := usable.signed
    have power : 1 ≤ policy.factor ^ n := Nat.one_le_pow _ _ usable.factor
    have product : delay * policy.factor ^ (n + 1) = delay * policy.factor * policy.factor ^ n := by
      rw [pow_succ', Nat.mul_assoc]
    rw [grow]
    by_cases full : policy.maxSecs ≤ delay * policy.factor
    · have stopped : satMul u64Max delay policy.factor ≥ policy.maxSecs := by
        simp only [satMul, u64Max]
        omega
      have later : policy.maxSecs ≤ delay * policy.factor * policy.factor ^ n :=
        full.trans (Nat.le_mul_of_pos_right _ power)
      rw [if_pos stopped, product, min_eq_right later]
    · have unchanged : satMul u64Max delay policy.factor = delay * policy.factor := by
        simp only [satMul, u64Max]
        omega
      rw [unchanged, if_neg full, ih, product]

variable {attempt : Nat}

theorem BackoffPolicy.Usable.nominalDelaySecs_eq (usable : policy.Usable) (started : 1 ≤ attempt) :
    policy.nominalDelaySecs attempt =
      min (policy.baseSecs * policy.factor ^ (attempt - 1)) policy.maxSecs := by
  rw [nominalDelaySecs, if_neg (by omega), usable.grow_eq]

theorem BackoffPolicy.Usable.nominalDelaySecs_mono (usable : policy.Usable) {earlier later : Nat}
    (started : 1 ≤ earlier) (le : earlier ≤ later) :
    policy.nominalDelaySecs earlier ≤ policy.nominalDelaySecs later := by
  rw [usable.nominalDelaySecs_eq started, usable.nominalDelaySecs_eq (started.trans le)]
  have powers : policy.factor ^ (earlier - 1) ≤ policy.factor ^ (later - 1) :=
    Nat.pow_le_pow_right usable.factor (by omega)
  exact min_le_min_right _ (Nat.mul_le_mul_left _ powers)

theorem BackoffPolicy.Usable.nominalDelaySecs_range (usable : policy.Usable)
    (started : 1 ≤ attempt) :
    1 ≤ policy.nominalDelaySecs attempt ∧ policy.nominalDelaySecs attempt ≤ policy.maxSecs := by
  have power : 1 ≤ policy.factor ^ (attempt - 1) := Nat.one_le_pow _ _ usable.factor
  have product : 1 ≤ policy.baseSecs * policy.factor ^ (attempt - 1) :=
    Nat.mul_pos usable.base power
  have cap := usable.cap
  rw [usable.nominalDelaySecs_eq started]
  omega

/-- The delay stays within the cap and within the spread around the nominal delay. -/
structure BackoffPolicy.Spread (policy : BackoffPolicy) (attempt delay : Nat) : Prop where
  positive : 1 ≤ delay
  capped : delay ≤ policy.maxSecs
  above : policy.nominalDelaySecs attempt ≤ delay + max 1 (policy.nominalDelaySecs attempt / 10)
  below : delay ≤ policy.nominalDelaySecs attempt + max 1 (policy.nominalDelaySecs attempt / 10)

/-- What is left after the division by the span leads from the lower bound to the upper one. -/
theorem BackoffPolicy.Usable.delaySecs_spread (usable : policy.Usable)
    (started : 1 ≤ attempt)
    (id : String) : policy.Spread attempt (policy.delaySecs attempt id) := by
  obtain ⟨low, high⟩ := usable.nominalDelaySecs_range started
  have small := usable.signed
  have shape : ∃ lower upper rest, policy.delaySecs attempt id = max (min (lower + rest) u64Max) 1 ∧
      rest < upper - lower + 1 ∧
      lower = max (policy.nominalDelaySecs attempt - max (policy.nominalDelaySecs attempt / 10) 1) 1 ∧
      policy.nominalDelaySecs attempt ≤ upper ∧ upper ≤ policy.maxSecs ∧
      upper ≤ policy.nominalDelaySecs attempt + max (policy.nominalDelaySecs attempt / 10) 1 := by
    unfold delaySecs
    rw [if_neg (by omega)]
    refine ⟨_, _, _, rfl, Nat.mod_lt _ (Nat.succ_pos _), rfl, ?_⟩
    by_cases capped : policy.nominalDelaySecs attempt ≥ policy.maxSecs
    · rw [if_pos capped]
      omega
    · rw [if_neg capped]
      simp only [satAdd, u64Max]
      omega
  obtain ⟨lower, upper, rest, eq, within, bottom, least, most, near⟩ := shape
  have bound : u64Max = 2 ^ 64 - 1 := rfl
  rw [eq]
  constructor <;> omega

theorem BackoffPolicy.Usable.onFailure_schedules (usable : policy.Usable) (entry : QueueEntry)
    {now : Int} (lastError : Option String) (lastCode : Option Nat) (stamp : i64Min ≤ now)
    (room : now + policy.maxSecs ≤ i64Max) :
    now < (policy.onFailure entry now lastError lastCode).1.nextAttemptUnix ∧
      (policy.onFailure entry now lastError lastCode).1.nextAttemptUnix ≤ now + policy.maxSecs := by
  have counted : 1 ≤ satAdd u32Max entry.attempts 1 := by
    simp only [satAdd, u32Max]
    omega
  obtain ⟨positive, capped, -, -⟩ := usable.delaySecs_spread counted entry.id
  have small := usable.signed
  show now < clampI64 (now + asI64 (policy.delaySecs (satAdd u32Max entry.attempts 1) entry.id)) ∧
    clampI64 (now + asI64 (policy.delaySecs (satAdd u32Max entry.attempts 1) entry.id)) ≤
      now + policy.maxSecs
  generalize policy.delaySecs (satAdd u32Max entry.attempts 1) entry.id = delay at positive capped
  have whole : asI64 delay = delay := if_pos (capped.trans_lt small)
  rw [whole]
  simp only [clampI64]
  omega

/-- The nominal delay is the capped geometric progression, the delay stays around it, and a failure
puts the next attempt off by at least a second and at most the cap. -/
theorem backoff_schedule (usable : policy.Usable) :
    (∀ earlier later, 1 ≤ earlier → earlier ≤ later →
      policy.nominalDelaySecs earlier ≤ policy.nominalDelaySecs later) ∧
    (∀ attempt, 1 ≤ attempt →
      policy.nominalDelaySecs attempt =
        min (policy.baseSecs * policy.factor ^ (attempt - 1)) policy.maxSecs ∧
      ∀ id, policy.Spread attempt (policy.delaySecs attempt id)) ∧
    ∀ (entry : QueueEntry) (now : Int) (lastError : Option String) (lastCode : Option Nat),
      i64Min ≤ now → now + policy.maxSecs ≤ i64Max →
        now < (policy.onFailure entry now lastError lastCode).1.nextAttemptUnix ∧
        (policy.onFailure entry now lastError lastCode).1.nextAttemptUnix ≤ now + policy.maxSecs :=
  ⟨fun _ _ => usable.nominalDelaySecs_mono,
    fun _ started => ⟨usable.nominalDelaySecs_eq started, usable.delaySecs_spread started⟩,
    fun entry _ lastError lastCode => usable.onFailure_schedules entry lastError lastCode⟩

theorem backoff_schedule_default :
    BackoffPolicy.default.nominalDelaySecs 4 = 2400 ∧
      BackoffPolicy.default.Spread 7 (BackoffPolicy.default.delaySecs 7 "00000000001-0000") := by
  have usable : BackoffPolicy.default.Usable :=
    ⟨by decide, by decide, by decide, by decide⟩
  obtain ⟨-, delays, -⟩ := backoff_schedule usable
  exact ⟨(delays 4 (by decide)).1, (delays 7 (by decide)).2 _⟩

end MailStack.Queue
