import Mathlib.Data.List.Chain
import Mathlib.Data.List.MinMax
import MailStack.Lib.Machine
import MailStack.Lib.Table
import MailStack.Lib.Text
import MailStack.Lib.Word

/-! The throttle of the webmail logins: what is counted for each address and each login, how long
the two tables get, and which keys are locked. -/

namespace MailStack.Webmail

open Lib

def loginFailureThreshold : Nat := 5

def loginBaseLockSeconds : Int := 30

def loginMaxLockSeconds : Int := 900

def loginAttemptsPerWindow : Nat := 30

def loginWindowSeconds : Int := 60

def maxTrackedLoginKeys : Nat := 4096

def maxLoginKeyLen : Nat := 256

inductive ThrottleDecision
  | allow
  | limited (retryAfterSecs : Int)
deriving DecidableEq

structure KeyState where
  windowStart : Int
  attempts : Nat
  failures : Nat
  lockedUntil : Int
  lastFailure : Int

/-- `1 << over`, for no more than sixteen places, in seconds. -/
def lockSeconds (failures : Nat) : Int :=
  min (clampI64 (loginBaseLockSeconds * 2 ^ min (failures - loginFailureThreshold) 16))
    loginMaxLockSeconds

namespace KeyState

def fresh : KeyState :=
  { windowStart := 0, attempts := 0, failures := 0, lockedUntil := 0, lastFailure := 0 }

variable (now : Int) (entry : KeyState)

def windowVerdict : ThrottleDecision :=
  let elapsed := clampI64 (now - entry.windowStart)
  if elapsed < loginWindowSeconds ∧ entry.attempts ≥ loginAttemptsPerWindow then
    .limited (max (loginWindowSeconds - elapsed) 1)
  else .allow

def lockVerdict : ThrottleDecision :=
  if entry.lockedUntil > now then .limited (max (entry.lockedUntil - now) 1) else .allow

def recordAttempt : KeyState :=
  -- a window that was never opened
  let entry := if entry.windowStart = 0 then { entry with windowStart := now } else entry
  let entry :=
    if clampI64 (now - entry.windowStart) ≥ loginWindowSeconds then
      { entry with windowStart := now, attempts := 0 }
    else entry
  { entry with attempts := satAdd u32Max entry.attempts 1 }

/-- Failures that are more than a day old are given up. -/
def forgetOld : KeyState :=
  if entry.lastFailure ≠ 0 ∧ clampI64 (now - entry.lastFailure) > 86400 then
    { entry with failures := 0 }
  else entry

def endLock : KeyState :=
  if entry.lockedUntil ≠ 0 ∧ now ≥ entry.lockedUntil then { entry with lockedUntil := 0 } else entry

def countFailure : KeyState :=
  let entry := { entry with lastFailure := now, failures := satAdd u32Max entry.failures 1 }
  if entry.failures ≥ loginFailureThreshold then
    { entry with lockedUntil := clampI64 (now + lockSeconds entry.failures) }
  else entry

def recordFailure : KeyState := ((entry.forgetOld now).endLock now).countFailure now

/-- The condition under which an eviction keeps an entry at first. -/
def live : Bool :=
  entry.lockedUntil > now || clampI64 (now - entry.windowStart) < loginWindowSeconds

end KeyState

abbrev Keys := Table String KeyState

/-- An order in which the entries of a table are gone through. -/
structure Iteration where
  entries : Keys → List (Sigma fun _ : String => KeyState)
  perm : ∀ keys, (entries keys).Perm keys.entries

/-- The loop that removes the oldest entry, for at most so many entries. -/
@[grind =] def dropOldest (iteration : Iteration) : Nat → Keys → Keys
  | 0, keys => keys
  | n + 1, keys =>
    if keys.size > maxTrackedLoginKeys then
      match @List.argmin _ Int Int.instLinearOrder.toPreorder _ (fun e => e.2.windowStart)
          (iteration.entries keys) with
      | some oldest => dropOldest iteration n (keys.remove oldest.1)
      | none => keys
    else keys

def evict (iteration : Iteration) (now : Int) (keys : Keys) : Keys :=
  let kept := keys.retain fun _ entry => entry.live now
  dropOldest iteration kept.size kept

structure ThrottleState where
  byIp : Keys
  byLogin : Keys

namespace ThrottleState

def new : ThrottleState := { byIp := ∅, byLogin := ∅ }

def fits (s : ThrottleState) : Bool :=
  s.byIp.size ≤ maxTrackedLoginKeys && s.byLogin.size ≤ maxTrackedLoginKeys

def evictIfNeeded (iteration : Iteration) (now : Int) (s : ThrottleState) : ThrottleState :=
  if s.fits then s
  else { byIp := evict iteration now s.byIp, byLogin := evict iteration now s.byLogin }

end ThrottleState

def takeBytes : Nat → List Char → List Char
  | _, [] => []
  | room, c :: rest =>
    if c.utf8Size ≤ room then c :: takeBytes (room - c.utf8Size) rest else []

def normalizedKey (value : String) : String :=
  String.ofList (takeBytes maxLoginKeyLen (toAsciiLowercase (trim value)).toList)

/-- The calls that change what is counted. -/
inductive Call
  | recordAttempt (ip login : String) (now : Int) (iteration : Iteration)
  | recordFailure (ip login : String) (now : Int) (iteration : Iteration)
  | recordSuccess (login : String)

inductive Side
  | ip
  | login
deriving DecidableEq

def ThrottleState.keys (s : ThrottleState) : Side → Keys
  | .ip => s.byIp
  | .login => s.byLogin

def ThrottleState.updateBoth (s : ThrottleState) (ip login : String) (f : KeyState → KeyState) :
    ThrottleState :=
  { byIp := s.byIp.update (normalizedKey ip) .fresh f
    byLogin := s.byLogin.update (normalizedKey login) .fresh f }

def Call.written (s : ThrottleState) : Call → ThrottleState
  | .recordAttempt ip login now _ => s.updateBoth ip login (·.recordAttempt now)
  | .recordFailure ip login now _ => s.updateBoth ip login (·.recordFailure now)
  | .recordSuccess login => { s with byLogin := s.byLogin.remove (normalizedKey login) }

def Call.apply (call : Call) (s : ThrottleState) : ThrottleState :=
  match call with
  | .recordAttempt _ _ now iteration => (call.written s).evictIfNeeded iteration now
  | .recordFailure _ _ now iteration => (call.written s).evictIfNeeded iteration now
  | .recordSuccess _ => call.written s

def verdict (keys : Keys) (key : String) (now : Int) : ThrottleDecision :=
  match keys.get key with
  | none => .allow
  | some entry =>
    if entry.lockVerdict now ≠ .allow then entry.lockVerdict now else entry.windowVerdict now

def checkAt (s : ThrottleState) (ip login : String) (now : Int) : ThrottleDecision :=
  let byIp := verdict s.byIp (normalizedKey ip) now
  if byIp ≠ .allow then byIp else verdict s.byLogin (normalizedKey login) now

/-! ### What the throttle is for -/

def Side.key (side : Side) (ip login : String) : String :=
  match side with
  | .ip => normalizedKey ip
  | .login => normalizedKey login

def failedAt (side : Side) (key : String) : Call → Option Int
  | .recordFailure ip login now _ => if side.key ip login = key then some now else none
  | _ => none

def failureTimes (side : Side) (key : String) (calls : List Call) : List Int :=
  calls.filterMap (failedAt side key)

def clears (side : Side) (key : String) : Call → Bool
  | .recordSuccess login => side = .login && normalizedKey login = key
  | _ => false

def Call.time : Call → Option Int
  | .recordAttempt _ _ now _ => some now
  | .recordFailure _ _ now _ => some now
  | .recordSuccess _ => none

/-- No entry has to be evicted, or the entry of the key is live and the table is not too long
without those that are not. -/
def Spared (side : Side) (key : String) (s : ThrottleState) (call : Call) : Prop :=
  (call.written s).fits = true ∨ ∀ now, call.time = some now →
    (∀ entry, ((call.written s).keys side).get key = some entry → entry.live now = true) ∧
      (((call.written s).keys side).retain fun _ entry => entry.live now).size ≤
        maxTrackedLoginKeys

/-! ### The length of the tables -/

variable {iteration : Iteration} {keys : Keys} {s : ThrottleState} {side : Side} {key : String}
  {entry : KeyState} {call : Call} {now : Int} {calls : List Call} {done : List Int}

variable {n : Nat}

theorem size_dropOldest_le (short : keys.size ≤ n + maxTrackedLoginKeys) :
    (dropOldest iteration n keys).size ≤ maxTrackedLoginKeys := by
  induction n generalizing keys with
  | zero => simpa [dropOldest] using short
  | succ n ih =>
    unfold dropOldest
    split
    · split
      · rename_i oldest found
        have mem : oldest ∈ keys.entries :=
          (iteration.perm keys).mem_iff.mp (List.argmin_mem found)
        have shorter := Table.size_remove_of_mem (t := keys) (List.mem_map_of_mem mem)
        refine ih ?_
        omega
      · rename_i long missing
        rw [List.argmin_eq_none] at missing
        have empty := (iteration.perm keys).length_eq
        rw [missing, List.length_nil] at empty
        simp only [Table.size] at long ⊢
        omega
    · rename_i fits
      omega

theorem dropOldest_eq_self (short : keys.size ≤ maxTrackedLoginKeys) :
    dropOldest iteration n keys = keys := by
  cases n with
  | zero => rfl
  | succ n => rw [dropOldest, if_neg (by omega)]

theorem size_evict_le : (evict iteration now keys).size ≤ maxTrackedLoginKeys :=
  size_dropOldest_le (Nat.le_add_right _ _)

theorem fits_iff : s.fits = true ↔
    s.byIp.size ≤ maxTrackedLoginKeys ∧ s.byLogin.size ≤ maxTrackedLoginKeys := by
  simp [ThrottleState.fits]

theorem evictIfNeeded_fits : (s.evictIfNeeded iteration now).fits = true := by
  unfold ThrottleState.evictIfNeeded
  split
  · assumption
  · exact fits_iff.mpr ⟨size_evict_le, size_evict_le⟩

theorem apply_fits (fits : s.fits = true) : (call.apply s).fits = true := by
  cases call with
  | recordAttempt => exact evictIfNeeded_fits
  | recordFailure => exact evictIfNeeded_fits
  | recordSuccess login =>
    obtain ⟨byIp, byLogin⟩ := fits_iff.mp fits
    exact fits_iff.mpr ⟨byIp, le_trans Table.size_remove_le byLogin⟩

theorem applyAll_fits (fits : s.fits = true) (calls : List Call) :
    (applyAll Call.apply s calls).fits = true := by
  induction calls generalizing s with
  | nil => exact fits
  | cons call rest ih => exact ih (apply_fits fits)

/-! ### The entry of a key -/

@[simp] theorem evictIfNeeded_keys_fits (fits : s.fits = true) :
    (s.evictIfNeeded iteration now).keys side = s.keys side := by
  rw [ThrottleState.evictIfNeeded, if_pos fits]

theorem evictIfNeeded_keys (full : s.fits = false) :
    (s.evictIfNeeded iteration now).keys side = evict iteration now (s.keys side) := by
  rw [ThrottleState.evictIfNeeded, if_neg (by simp [full])]
  cases side <;> rfl

theorem get_evict (found : keys.get key = some entry) (live : entry.live now = true)
    (short : (keys.retain fun _ entry => entry.live now).size ≤ maxTrackedLoginKeys) :
    (evict iteration now keys).get key = some entry := by
  rw [evict, dropOldest_eq_self short, Table.get_retain, found, Option.filter_some, if_pos live]

theorem get_apply (spared : Spared side key s call)
    (found : ((call.written s).keys side).get key = some entry) :
    ((call.apply s).keys side).get key = some entry := by
  have evicted : ∀ {iteration : Iteration} {now : Int}, call.time = some now →
      (((call.written s).evictIfNeeded iteration now).keys side).get key = some entry := by
    intro iteration now time
    cases fits : (call.written s).fits with
    | true => rwa [evictIfNeeded_keys_fits fits]
    | false =>
      rw [evictIfNeeded_keys fits]
      rcases spared with roomy | spared
      · rw [fits] at roomy
        cases roomy
      · obtain ⟨live, short⟩ := spared now time
        exact get_evict found (live entry found) short
  cases call with
  | recordAttempt => exact evicted rfl
  | recordFailure => exact evicted rfl
  | recordSuccess => exact found

theorem get_updateBoth (ip login : String) (f : KeyState → KeyState) :
    ((s.updateBoth ip login f).keys side).get key =
      if side.key ip login = key then some (f (((s.keys side).get key).getD .fresh))
      else (s.keys side).get key := by
  have one : ∀ (keys : Keys) (written : String), (keys.update written .fresh f).get key =
      if written = key then some (f ((keys.get key).getD .fresh)) else keys.get key := by
    intro keys written
    by_cases same : written = key
    · subst same
      simp
    · rw [Table.get_update_ne (Ne.symm same), if_neg same]
  cases side with
  | ip => exact one _ _
  | login => exact one _ _

/-- `later` has the failures and the lock of `entry`. -/
structure KeyState.Keeps (entry later : KeyState) : Prop where
  failures : later.failures = entry.failures
  locked : later.lockedUntil = entry.lockedUntil
  last : later.lastFailure = entry.lastFailure

theorem KeyState.keeps_recordAttempt : entry.Keeps (entry.recordAttempt now) := by
  unfold recordAttempt
  constructor <;> simp only <;> split <;> split <;> rfl

theorem get_written (found : (s.keys side).get key = some entry)
    (passed : failedAt side key call = none) (kept : clears side key call = false) :
    ∃ later, ((call.written s).keys side).get key = some later ∧ entry.Keeps later := by
  cases call with
  | recordAttempt ip login now iteration =>
    simp only [Call.written, get_updateBoth, found, Option.getD_some]
    split
    · exact ⟨_, rfl, KeyState.keeps_recordAttempt⟩
    · exact ⟨entry, rfl, rfl, rfl, rfl⟩
  | recordFailure ip login now iteration =>
    have other : side.key ip login ≠ key := by
      intro same
      simp [failedAt, same] at passed
    simp only [Call.written, get_updateBoth, found, other, if_false]
    exact ⟨entry, rfl, rfl, rfl, rfl⟩
  | recordSuccess login =>
    refine ⟨entry, ?_, rfl, rfl, rfl⟩
    cases side with
    | ip => exact found
    | login =>
      have other : key ≠ normalizedKey login := by
        intro same
        simp [clears, same] at kept
      exact (Table.get_remove_ne other).trans found

/-! ### Counting -/

theorem clampI64_mono {a b : Int} (le : a ≤ b) : clampI64 a ≤ clampI64 b :=
  max_le_max (le_refl _) (min_le_min le (le_refl _))

theorem lockSeconds_mono {m n : Nat} (le : min m u32Max ≤ n) : lockSeconds m ≤ lockSeconds n := by
  have places : min (m - loginFailureThreshold) 16 ≤ min (n - loginFailureThreshold) 16 := by
    simp only [u32Max, loginFailureThreshold] at le ⊢
    omega
  have power : (2 : Int) ^ min (m - loginFailureThreshold) 16 ≤
      2 ^ min (n - loginFailureThreshold) 16 := pow_le_pow_right₀ (by decide) places
  refine min_le_min (clampI64_mono ?_) (le_refl _)
  unfold loginBaseLockSeconds
  omega

/-- The entry counts so many failures, the last one at `last`. -/
structure KeyState.Counts (n : Nat) (last : Int) (entry : KeyState) : Prop where
  enough : min n u32Max ≤ entry.failures
  latest : entry.lastFailure = last
  locked : loginFailureThreshold ≤ n → clampI64 (last + lockSeconds n) ≤ entry.lockedUntil

theorem KeyState.Counts.keeps {last : Int} {later : KeyState}
    (counts : entry.Counts n last) (keeps : entry.Keeps later) : later.Counts n last :=
  ⟨keeps.failures ▸ counts.enough, keeps.last ▸ counts.latest, keeps.locked ▸ counts.locked⟩

theorem KeyState.failures_endLock : (entry.endLock now).failures = entry.failures := by
  unfold endLock
  split <;> rfl

theorem KeyState.forgetOld_recent (recent : now - entry.lastFailure ≤ 86400) :
    entry.forgetOld now = entry := by
  have elapsed : clampI64 (now - entry.lastFailure) ≤ clampI64 86400 := clampI64_mono recent
  have day : clampI64 86400 = 86400 := by decide
  rw [forgetOld, if_neg]
  omega

theorem KeyState.counts_countFailure (enough : min n u32Max ≤ entry.failures) :
    (entry.countFailure now).Counts (n + 1) now := by
  have more : min (n + 1) u32Max ≤ satAdd u32Max entry.failures 1 := by
    simp only [satAdd, u32Max] at enough ⊢
    omega
  unfold countFailure
  simp only
  split
  · refine ⟨more, rfl, fun _ => clampI64_mono ?_⟩
    have longer := lockSeconds_mono more
    omega
  · rename_i few
    refine ⟨more, rfl, fun many => absurd ?_ few⟩
    simp only [loginFailureThreshold, u32Max] at many more ⊢
    omega

theorem KeyState.counts_first : (entry.recordFailure now).Counts 1 now :=
  counts_countFailure (Nat.zero_le _)

theorem KeyState.Counts.recordFailure {last : Int} (counts : entry.Counts n last)
    (recent : now - last ≤ 86400) : (entry.recordFailure now).Counts (n + 1) now := by
  refine counts_countFailure ?_
  rw [failures_endLock, forgetOld_recent (by rw [counts.latest]; exact recent)]
  exact counts.enough

/-! ### Runs -/

/-- The failures `done` of the key are counted. -/
def Counted (side : Side) (key : String) (done : List Int) (s : ThrottleState) : Prop :=
  ∀ last, done.getLast? = some last →
    ∃ entry, (s.keys side).get key = some entry ∧ entry.Counts done.length last

/-- Of two failures that follow each other the second one is not more than a day later. -/
def WithinADay (times : List Int) : Prop := times.IsChain fun a b => b - a ≤ 86400

theorem Counted.apply (counted : Counted side key done s)
    (spared : Spared side key s call) (kept : clears side key call = false)
    (recent : WithinADay (done ++ (failedAt side key call).toList)) :
    Counted side key (done ++ (failedAt side key call).toList) (call.apply s) := by
  cases failed : failedAt side key call with
  | none =>
    rw [Option.toList_none, List.append_nil]
    intro last shape
    obtain ⟨entry, found, counts⟩ := counted last shape
    obtain ⟨later, written, keeps⟩ := get_written found failed kept
    exact ⟨later, get_apply spared written, counts.keeps keeps⟩
  | some time =>
    rw [failed] at recent
    rw [Option.toList_some] at recent ⊢
    intro last shape
    obtain rfl : time = last := by simpa using shape
    cases call with
    | recordAttempt => cases failed
    | recordSuccess => cases failed
    | recordFailure ip login now iteration =>
      simp only [failedAt] at failed
      split at failed
      case isFalse => cases failed
      case isTrue same =>
        cases failed
        refine ⟨(((s.keys side).get key).getD .fresh).recordFailure time,
          get_apply spared ?_, ?_⟩
        · simp only [Call.written, get_updateBoth, same, if_true]
        · rw [List.length_append, List.length_singleton]
          cases done using List.reverseRecOn with
          | nil => exact KeyState.counts_first
          | append_singleton before last =>
            obtain ⟨entry, found, counts⟩ := counted last (by simp)
            rw [found, Option.getD_some]
            refine counts.recordFailure ?_
            rw [WithinADay, List.append_assoc] at recent
            simpa using recent.right_of_append

theorem counted_applyAll {calls : List Call} (counted : Counted side key done s)
    (spared : ∀ met ∈ trace Call.apply s calls, Spared side key met.1 met.2)
    (kept : ∀ call ∈ calls, clears side key call = false)
    (recent : WithinADay (done ++ failureTimes side key calls)) :
    Counted side key (done ++ failureTimes side key calls) (applyAll Call.apply s calls) := by
  induction calls generalizing s done with
  | nil => simpa [failureTimes] using counted
  | cons call rest ih =>
    have split_ : failureTimes side key (call :: rest) =
        (failedAt side key call).toList ++ failureTimes side key rest := by
      unfold failureTimes
      rw [List.filterMap_cons]
      cases failedAt side key call <;> rfl
    rw [split_, ← List.append_assoc] at recent ⊢
    refine ih (counted.apply (spared _ List.mem_cons_self) (kept _ List.mem_cons_self) ?_)
      (fun met mem => spared met (List.mem_cons_of_mem _ mem))
      (fun c mem => kept c (List.mem_cons_of_mem _ mem)) recent
    exact recent.left_of_append

theorem verdict_limited (found : keys.get key = some entry) (locked : now < entry.lockedUntil) :
    ∃ retry, verdict keys key now = .limited retry := by
  refine ⟨max (entry.lockedUntil - now) 1, ?_⟩
  simp [verdict, found, KeyState.lockVerdict, locked]

theorem checkAt_limited {ip login : String}
    (limited : ∃ retry, verdict (s.keys side) (side.key ip login) now = .limited retry) :
    ∃ retry, checkAt s ip login now = .limited retry := by
  obtain ⟨retry, limited⟩ := limited
  cases side with
  | ip =>
    refine ⟨retry, ?_⟩
    simp only [ThrottleState.keys, Side.key] at limited
    simp [checkAt, limited]
  | login =>
    simp only [ThrottleState.keys, Side.key] at limited
    unfold checkAt
    cases byIp : verdict s.byIp (normalizedKey ip) now with
    | allow => exact ⟨retry, by simp [limited]⟩
    | limited other => exact ⟨other, by simp⟩

/-- The tables never get too long, and a key with enough failures is limited until its lock ends,
if no call evicts its entry or clears it. -/
theorem bounded_and_limited :
    (∀ calls, (applyAll Call.apply .new calls).fits = true) ∧
    ∀ side key s calls,
      (∀ met ∈ trace Call.apply s calls, Spared side key met.1 met.2) →
      (∀ call ∈ calls, clears side key call = false) →
      WithinADay (failureTimes side key calls) →
      loginFailureThreshold ≤ (failureTimes side key calls).length →
      ∃ entry, ((applyAll Call.apply s calls).keys side).get key = some entry ∧
        (∀ last, (failureTimes side key calls).getLast? = some last →
          clampI64 (last + lockSeconds (failureTimes side key calls).length) ≤
            entry.lockedUntil) ∧
        ∀ ip login now, side.key ip login = key → now < entry.lockedUntil →
          ∃ retry, checkAt (applyAll Call.apply s calls) ip login now = .limited retry := by
  refine ⟨fun calls => applyAll_fits rfl calls, ?_⟩
  intro side key s calls spared kept recent enough
  have counted := @counted_applyAll s _ _ [] _ nofun spared kept recent
  rw [List.nil_append] at counted
  obtain ⟨last, shape⟩ : ∃ last, (failureTimes side key calls).getLast? = some last := by
    cases times : (failureTimes side key calls).getLast? with
    | some last => exact ⟨last, rfl⟩
    | none =>
      rw [List.getLast?_eq_none_iff.mp times] at enough
      cases enough
  obtain ⟨entry, found, counts⟩ := counted last shape
  refine ⟨entry, found, ?_, ?_⟩
  · intro last' shape'
    obtain rfl : last = last' := Option.some.inj (shape.symm.trans shape')
    exact counts.locked enough
  · rintro ip login now rfl locked
    exact checkAt_limited (verdict_limited found locked)

def inOrder : Iteration := { entries := (·.entries), perm := fun _ => .refl _ }

def fiveFailures : List Call :=
  [1000, 1001, 1002, 1003, 1004].flatMap fun now =>
    [.recordAttempt "203.0.113.7" "alice" now inOrder,
      .recordFailure "203.0.113.7" "alice" now inOrder,
      .recordFailure "203.0.113.8" "bob" now inOrder]

theorem alice_limited :
    ∃ entry, ((applyAll Call.apply .new fiveFailures).keys .login).get "alice" = some entry ∧
      (∀ last, (failureTimes .login "alice" fiveFailures).getLast? = some last →
        clampI64 (last + lockSeconds (failureTimes .login "alice" fiveFailures).length) ≤
          entry.lockedUntil) ∧
      ∀ ip login now, Side.key .login ip login = "alice" → now < entry.lockedUntil →
        ∃ retry, checkAt (applyAll Call.apply .new fiveFailures) ip login now = .limited retry := by
  refine bounded_and_limited.2 .login "alice" .new fiveFailures ?_ ?_ ?_ ?_
  · intro met mem
    have roomy : (trace Call.apply ThrottleState.new fiveFailures).all
        (fun met => (met.2.written met.1).fits) = true := by decide +kernel
    exact .inl (List.all_eq_true.mp roomy met mem)
  · decide +kernel
  · unfold WithinADay
    decide +kernel
  · decide +kernel

theorem get_dropOldest_eq_none (missing : keys.get key = none) :
    (dropOldest iteration n keys).get key = none := by
  induction n generalizing keys with
  | zero => exact missing
  | succ n ih =>
    unfold dropOldest
    split
    · split
      · rename_i oldest _
        refine ih ?_
        by_cases same : key = oldest.1
        · rw [same, Table.get_remove]
        · rw [Table.get_remove_ne same, missing]
      · exact missing
    · exact missing

theorem get_evictIfNeeded_eq_none (missing : (s.keys side).get key = none) :
    ((s.evictIfNeeded iteration now).keys side).get key = none := by
  cases fits : s.fits with
  | true => rwa [evictIfNeeded_keys_fits fits]
  | false =>
    rw [evictIfNeeded_keys fits]
    refine get_dropOldest_eq_none ?_
    rw [Table.get_retain, missing, Option.filter_none]

theorem get_applyAll_eq_none {ip : String}
    (about : ∀ call ∈ calls, ∃ login now iteration, call = .recordFailure ip login now iteration)
    (other : normalizedKey ip ≠ key) (missing : s.byIp.get key = none) :
    (applyAll Call.apply s calls).byIp.get key = none := by
  induction calls generalizing s with
  | nil => exact missing
  | cons call rest ih =>
    refine ih (fun c mem => about c (List.mem_cons_of_mem _ mem)) ?_
    obtain ⟨login, now, iteration, rfl⟩ := about call List.mem_cons_self
    refine @get_evictIfNeeded_eq_none _ _ .ip _ _ ?_
    exact (get_updateBoth ip login (·.recordFailure now)).trans ((if_neg other).trans missing)

def visitor (i : Nat) : String := String.ofList [Char.ofNat (0x4E00 + i)]

def flood : List Call :=
  (List.range 4097).flatMap fun i =>
    List.replicate 5 (.recordFailure "203.0.113.7" (visitor i) 1000 inOrder)

theorem toNat_visitor {i : Nat} (small : i < 4097) :
    (Char.ofNat (0x4E00 + i)).toNat = 0x4E00 + i := by
  have valid : (0x4E00 + i).isValidChar := .inl (by omega)
  rw [Char.ofNat, dif_pos valid]
  rfl

theorem normalizedKey_visitor {i : Nat} (small : i < 4097) :
    normalizedKey (visitor i) = visitor i := by
  have code : (Char.ofNat (0x4E00 + i)).val.toNat = 0x4E00 + i := toNat_visitor small
  unfold visitor
  generalize Char.ofNat (0x4E00 + i) = c at code ⊢
  have large : 0x4E00 ≤ c.toNat := by
    show 0x4E00 ≤ c.val.toNat
    omega
  have visible : isWhitespace c = false := by
    simp only [isWhitespace, Bool.or_eq_false_iff, Bool.and_eq_false_iff, decide_eq_false_iff_not,
      UInt32.le_iff_toNat_le, ← UInt32.toNat_inj]
    simp
    omega
  have lower : c.toLower = c := by
    have last : 'Z'.val.toNat = 90 := by decide
    refine dif_neg ?_
    simp only [ge_iff_le, UInt32.le_iff_toNat_le]
    omega
  have trimmed : trim (String.ofList [c]) = String.ofList [c] :=
    trim_eq_self (by simp [visible]) (by simp [visible])
  have room : c.utf8Size ≤ maxLoginKeyLen := le_trans c.utf8Size_le_four (by decide)
  rw [normalizedKey, trimmed]
  simp [toAsciiLowercase, lower, takeBytes, room]

theorem visitor_injective {i j : Nat} (hi : i < 4097) (hj : j < 4097)
    (same : visitor i = visitor j) : i = j := by
  have chars : Char.ofNat (0x4E00 + i) = Char.ofNat (0x4E00 + j) := by
    simpa [visitor] using same
  have codes := congrArg Char.toNat chars
  rw [toNat_visitor hi, toNat_visitor hj] at codes
  omega

theorem exists_not_mem (fits : s.fits = true) : ∃ i < 4097, s.byLogin.get (visitor i) = none := by
  by_contra all
  push Not at all
  have distinct : ((List.range 4097).map visitor).Nodup := by
    refine List.Nodup.map_on ?_ List.nodup_range
    intro i hi j hj same
    exact visitor_injective (List.mem_range.mp hi) (List.mem_range.mp hj) same
  have inside : (List.range 4097).map visitor ⊆ s.byLogin.keys := by
    intro key mem
    obtain ⟨i, small, rfl⟩ := List.mem_map.mp mem
    by_contra missing
    exact all i (List.mem_range.mp small) (Table.get_eq_none_iff.mpr missing)
  have long := (List.subperm_of_subset distinct inside).length_le
  simp only [List.length_map, List.length_range, ← Table.size_eq_length_keys] at long
  have short := (fits_iff.mp fits).2
  unfold maxTrackedLoginKeys at short
  omega

def slowFailures : List Call :=
  [1000, 1010, 1020, 1030, 100000].map fun now =>
    .recordFailure "203.0.113.7" "alice" now inOrder

theorem exists_allowed
    (about : ∀ call ∈ calls, ∃ login now iteration,
      call = .recordFailure "203.0.113.7" login now iteration) :
    ∃ i < 4097,
      checkAt (applyAll Call.apply .new calls) "198.51.100.9" (visitor i) now = .allow := by
  obtain ⟨i, small, missing⟩ := exists_not_mem (applyAll_fits (s := .new) rfl calls)
  have strange : (applyAll Call.apply .new calls).byIp.get (normalizedKey "198.51.100.9") = none :=
    get_applyAll_eq_none about (by decide) rfl
  refine ⟨i, small, ?_⟩
  unfold checkAt verdict
  rw [strange, normalizedKey_visitor small, missing]
  rfl

/-- After five failures for each of too many logins one of them is not limited at once, and of five
failures the ones before a pause of more than a day are given up. -/
theorem failures_forgotten :
    (∃ i < 4097,
      checkAt (applyAll Call.apply .new flood) "198.51.100.9" (visitor i) 1001 = .allow) ∧
    checkAt (applyAll Call.apply .new slowFailures) "203.0.113.7" "alice" 100001 = .allow := by
  constructor
  · refine exists_allowed fun call mem => ?_
    obtain ⟨i, -, mem⟩ := List.mem_flatMap.mp mem
    exact ⟨_, _, _, List.eq_of_mem_replicate mem⟩
  · decide +kernel

end MailStack.Webmail
