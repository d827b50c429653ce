import MailStack.Web.Lockout

/-! The lock of an address with an account: five failures set it, it is kept until its announced
end, and a later one is not shorter. Each holds as long as no call takes a record away, or shortens
a lock. -/

namespace MailStack.Web

open Lib

/-! ### Evictions -/

section Evictions

variable {order : Order} {now : Int} {n : Nat} {t : Failures} {key : String × String}
  {record : FailureRecord}

theorem get_dropUnlocked : (dropUnlocked order n t).get key = t.get key ∨
    (dropUnlocked order n t).get key = none ∧
      ∀ record, t.get key = some record → record.lockedUntil = none := by
  induction n generalizing t with
  | zero => exact .inl rfl
  | succ n ih =>
    unfold dropUnlocked
    split
    · split
      next victim found =>
        have unlocked : victim.2.lockedUntil = none :=
          Option.isNone_iff_eq_none.mp (by simpa using List.find?_some found)
        have mem : victim ∈ t.entries :=
          (order.perm_failures t).mem_iff.mp (List.mem_of_find?_eq_some found)
        by_cases here : key = victim.1
        · have none_ : (dropUnlocked order n (t.remove victim.1)).get key = none := by
            have removed : (t.remove victim.1).get key = none := by rw [here, Table.get_remove]
            rcases @ih (t.remove victim.1) with eq | ⟨none_, -⟩
            · rw [eq, removed]
            · exact none_
          refine .inr ⟨none_, fun record found => ?_⟩
          have stored : t.get key = some victim.2 := Table.get_eq_some_iff.mpr (here ▸ mem)
          rw [stored] at found
          exact Option.some.inj found ▸ unlocked
        · rw [← Table.get_remove_ne (t := t) here]
          exact ih
      next => exact .inl rfl
    · exact .inl rfl

theorem dropUnlocked_eq_self (short : t.size ≤ maxTrackedKeys) : dropUnlocked order n t = t := by
  cases n with
  | zero => rfl
  | succ n => rw [dropUnlocked, if_neg (by omega)]

theorem get_retain_live (found : t.get key = some record) :
    (t.retain fun _ record => record.live now).get key =
      if record.live now then some record else none := by
  rw [Table.get_retain, found, Option.filter_some]

theorem not_locked_of_unlocked (unlocked : record.lockedUntil = none) :
    record.locked now = false := by
  rw [FailureRecord.locked, unlocked]
  rfl

theorem live_of_locked (locked : record.locked now = true) : record.live now = true := by
  rw [FailureRecord.live, locked, Bool.true_or]

theorem get_keepRecords : (LimiterState.keepRecords order now t).get key = t.get key ∨
    (LimiterState.keepRecords order now t).get key = none ∧
      ∀ record, t.get key = some record → record.locked now = false := by
  have dropped := @get_dropUnlocked order (t.retain fun _ record => record.live now).size
    (t.retain fun _ record => record.live now) key
  cases found : t.get key with
  | none =>
    have none_ : (t.retain fun _ record => record.live now).get key = none := by
      rw [Table.get_retain, found]
      rfl
    rw [none_] at dropped
    rcases dropped with eq | ⟨eq, -⟩
    · exact .inl eq
    · exact .inl eq
  | some record =>
    rw [get_retain_live found] at dropped
    by_cases live : record.live now = true
    · rw [if_pos live] at dropped
      rcases dropped with eq | ⟨eq, unlocked⟩
      · exact .inl eq
      · refine .inr ⟨eq, fun _ same => ?_⟩
        cases same
        exact not_locked_of_unlocked (unlocked record rfl)
    · rw [if_neg live] at dropped
      have idle : record.locked now = false := by
        rw [Bool.eq_false_iff]
        exact fun locked => live (live_of_locked locked)
      refine .inr ⟨?_, fun _ same => ?_⟩
      · rcases dropped with eq | ⟨eq, -⟩
        · exact eq
        · exact eq
      · cases same
        exact idle

theorem get_keepRecords_of_outlives (found : t.get key = some record)
    (outlives : record.Outlives now t) :
    (LimiterState.keepRecords order now t).get key = some record ∨
      (LimiterState.keepRecords order now t).get key = none ∧ record.Idle now := by
  have dropped := @get_dropUnlocked order (t.retain fun _ record => record.live now).size
    (t.retain fun _ record => record.live now) key
  rw [get_retain_live found] at dropped
  by_cases live : record.live now = true
  · rw [if_pos live] at dropped
    refine .inl ?_
    rcases dropped with eq | ⟨eq, unlocked⟩
    · exact eq
    have unlocked := unlocked record rfl
    have notLocked : record.locked now = false := not_locked_of_unlocked unlocked
    rcases outlives with locked | ⟨-, locked | short⟩ | ⟨none_, -, -⟩
    · rw [notLocked] at locked
      cases locked
    · rw [unlocked] at locked
      cases locked
    · rw [LimiterState.keepRecords, dropUnlocked_eq_self short, get_retain_live found, if_pos live]
    · rw [FailureRecord.live, notLocked, none_] at live
      cases live
  · rw [if_neg live] at dropped
    refine .inr ⟨?_, ?_⟩
    · rcases dropped with eq | ⟨eq, -⟩
      · exact eq
      · exact eq
    · rcases outlives with locked | ⟨some_, -⟩ | idle
      · exact absurd (live_of_locked locked) live
      · exact absurd (by simp [FailureRecord.live, some_]) live
      · exact idle

end Evictions

/-! ### The record of a key -/

section Records

variable {s : LimiterState} {call : Call} {key : String × String} {now : Int}
  {record : FailureRecord}

def Call.noted (s : LimiterState) : Call → Failures
  | .check ip account now _ =>
    if s.lockOf ip account now = none then (s.endLock ip account now).failures else s.failures
  | .recordFailure ip account now _ => (s.addFailure ip account now).failures
  | .recordSuccess ip account _ => (s.recordSuccess ip account).failures

def Call.change (record : Option FailureRecord) : Call → Option FailureRecord
  | .check _ _ now _ => record.map (·.endLock now)
  | .recordFailure _ _ now _ => some ((record.getD (.new now)).recordFailure now)
  | .recordSuccess _ _ _ => none

theorem apply_failures (s : LimiterState) (call : Call) :
    (call.apply s).failures = call.noted s ∨
      ∃ order, call.evictsFrom s = some (call.noted s) ∧
        (call.apply s).failures = LimiterState.keepRecords order call.time (call.noted s) := by
  cases call with
  | check ip account now order =>
    simp only [Call.apply, Call.noted, Call.evictsFrom, LimiterState.checkAt, Call.time]
    cases locked : s.lockOf ip account now with
    | some until_ => simp
    | none =>
      by_cases allowed : (s.endLock ip account now).verdict ip account now = .allow
      · by_cases full : (((s.endLock ip account now).roll ip account now).countAttempt
            ip account now).tooLong = true
        · refine .inr ⟨order, ?_, ?_⟩
          · simp [allowed, full]
          · simp only [allowed, full, ne_eq, not_true_eq_false, if_false, if_true]
            rfl
        · refine .inl ?_
          simp only [allowed, full, ne_eq, not_true_eq_false, if_false, if_true]
          rfl
      · refine .inl ?_
        simp only [allowed, ne_eq, not_false_eq_true, if_true]
        rfl
  | recordFailure ip account now order =>
    simp only [Call.apply, Call.noted, Call.evictsFrom, LimiterState.recordFailureAt, Call.time]
    by_cases full : (s.addFailure ip account now).failures.size > maxTrackedKeys
    · refine .inr ⟨order, ?_, ?_⟩
      · rw [if_pos full]
      · rw [if_pos full]
        rfl
    · rw [if_neg full]
      exact .inl rfl
  | recordSuccess ip account now => exact .inl rfl

theorem endLock_of_locked (locked : record.locked now = true) : record.endLock now = record := by
  rw [FailureRecord.endLock, if_neg]
  rw [FailureRecord.locked] at locked
  cases here : record.lockedUntil with
  | none => simp
  | some until_ =>
    rw [here] at locked
    have later : now < until_ := by simpa using locked
    simpa using later

variable {ip account : String}

theorem lockOf_eq_some_iff {until_ : Int} :
    s.lockOf ip account now = some until_ ↔
      ∃ record, s.failures.get (LimiterState.sourceKey ip account) = some record ∧
        record.lockedUntil = some until_ ∧ now < until_ := by
  simp [LimiterState.lockOf, Option.bind_eq_some_iff, Option.filter_eq_some_iff]

theorem locked_iff :
    record.locked now = true ↔ ∃ until_, record.lockedUntil = some until_ ∧ now < until_ := by
  simp [FailureRecord.locked, Option.any_eq_true]

theorem get_noted (other : key ≠ call.key) : (call.noted s).get key = s.failures.get key := by
  cases call with
  | check ip account now order =>
    unfold Call.noted
    dsimp only
    split
    · unfold LimiterState.endLock
      split
      · exact Table.get_put_ne other
      · rfl
    · rfl
  | recordFailure ip account now order => exact Table.get_update_ne other
  | recordSuccess ip account now => exact Table.get_remove_ne other

theorem get_noted_key : (call.noted s).get call.key = call.change (s.failures.get call.key) := by
  cases call with
  | check ip account now order =>
    unfold Call.noted Call.change
    dsimp only [Call.key, Call.pair]
    split
    · unfold LimiterState.endLock
      cases found : s.failures.get (LimiterState.sourceKey ip account) with
      | none => exact found
      | some record => exact Table.get_put
    next locked =>
      cases found : s.failures.get (LimiterState.sourceKey ip account) with
      | none => rfl
      | some record =>
        obtain ⟨until_, eq⟩ := Option.ne_none_iff_exists'.mp locked
        obtain ⟨record', same, until_eq, later⟩ := lockOf_eq_some_iff.mp eq
        obtain rfl : record = record' := Option.some.inj (found.symm.trans same)
        exact congrArg some (endLock_of_locked (locked_iff.mpr ⟨until_, until_eq, later⟩)).symm
  | recordFailure ip account now order => exact Table.get_update
  | recordSuccess ip account now => exact Table.get_remove

end Records

theorem get_apply_other {s : LimiterState} {call : Call} {key : String × String}
    (other : key ≠ call.key) :
    (call.apply s).failures.get key = s.failures.get key ∨
      (call.apply s).failures.get key = none ∧
        ∀ record, s.failures.get key = some record → record.locked call.time = false := by
  rcases apply_failures s call with eq | ⟨order, -, eq⟩
  · exact .inl (by rw [eq, get_noted other])
  · rw [eq, ← get_noted (s := s) other]
    exact get_keepRecords

theorem sanitized_of_short {text : String} (short : text.utf8ByteSize ≤ maxKeyLen) :
    sanitized text = text := if_pos short

theorem lockOf_eq {s s' : LimiterState} {now time : Int} (later : time ≤ now)
    (kept : s'.failures.get (LimiterState.sourceKey ip account) =
        s.failures.get (LimiterState.sourceKey ip account) ∨
      s'.failures.get (LimiterState.sourceKey ip account) = none ∧
        ∀ record, s.failures.get (LimiterState.sourceKey ip account) = some record →
          record.locked time = false) :
    s'.lockOf ip account now = s.lockOf ip account now := by
  rcases kept with eq | ⟨eq, unlocked⟩
  · rw [LimiterState.lockOf, LimiterState.lockOf, eq]
  · have none_ : s'.lockOf ip account now = none := by
      rw [LimiterState.lockOf, eq]
      rfl
    rw [none_]
    cases before : s.lockOf ip account now with
    | none => rfl
    | some until_ =>
      obtain ⟨record, found, locked, inFuture⟩ := lockOf_eq_some_iff.mp before
      have still : record.locked time = true := locked_iff.mpr ⟨until_, locked, by omega⟩
      rw [unlocked record found] at still
      cases still

theorem Watch.apart (pair : String × String) (w : Watch) : w.Apart pair := by
  intro call other short short' now later
  have key : LimiterState.sourceKey pair.1 pair.2 ≠ call.key := by
    intro eq
    have first := congrArg Prod.fst eq
    have second := congrArg Prod.snd eq
    simp only [Call.key, LimiterState.sourceKey] at first second
    rw [sanitized_of_short short.1, sanitized_of_short short'.1] at first
    rw [sanitized_of_short short.2, sanitized_of_short short'.2] at second
    exact other (Prod.ext first.symm second.symm)
  exact lockOf_eq later (get_apply_other key)

/-! ### What every call keeps -/

namespace FailureRecord

variable {record : FailureRecord} {now until_ : Int}

theorem lockSeconds_eq (record : FailureRecord) : record.lockSeconds =
    if record.lockouts ≤ 1 then 900 else if record.lockouts = 2 then 3600 else 21600 := by
  obtain ⟨failures, lockedUntil, lockouts, windowStart⟩ := record
  match lockouts with
  | 0 => rfl
  | 1 => rfl
  | 2 => rfl
  | n + 3 =>
    have index : min (n + 3 - 1) (lockoutEscalationSeconds.length - 1) = 2 := by
      simp only [lockoutEscalationSeconds, List.length_cons, List.length_nil]
      omega
    rw [lockSeconds, index, if_neg (by simp), if_neg (by simp)]
    rfl

theorem lockSeconds_pos (record : FailureRecord) : 0 < seconds record.lockSeconds := by
  rw [lockSeconds_eq, seconds]
  split
  · omega
  · split <;> omega

theorem lockSeconds_le (record : FailureRecord) : seconds record.lockSeconds ≤
    seconds (lockSeconds { record with lockouts := satAdd u32Max record.lockouts 1 }) := by
  have max : u32Max = 4294967295 := rfl
  simp only [lockSeconds_eq, seconds, satAdd, max]
  split_ifs <;> omega

theorem rollWindow_eq (open_ : now - record.windowStart < seconds lockoutEscalationWindowSeconds) :
    record.rollWindow now = record := if_neg (by omega)

@[simp] theorem rollWindow_failures : (record.rollWindow now).failures = record.failures := by
  unfold rollWindow
  split <;> rfl

@[simp] theorem rollWindow_lockedUntil :
    (record.rollWindow now).lockedUntil = record.lockedUntil := by
  unfold rollWindow
  split <;> rfl

theorem satAdd_failures (few : record.failures < failureLockoutThreshold) :
    satAdd u32Max record.failures 1 = record.failures + 1 := by
  have max : u32Max = 4294967295 := rfl
  have five : failureLockoutThreshold = 5 := rfl
  rw [satAdd]
  omega

theorem recordFailure_of_few (few : record.failures + 1 < failureLockoutThreshold) :
    record.recordFailure now = { record.rollWindow now with failures := record.failures + 1 } := by
  unfold recordFailure
  simp only [rollWindow_failures, satAdd_failures (Nat.lt_of_succ_lt few)]
  rw [if_neg (by omega)]

theorem recordFailure_of_many (few : record.failures < failureLockoutThreshold)
    (many : failureLockoutThreshold ≤ record.failures + 1) :
    record.recordFailure now =
      { failures := 0
        lockedUntil := some (now + record.nextLock now)
        lockouts := satAdd u32Max (record.rollWindow now).lockouts 1
        windowStart := (record.rollWindow now).windowStart } := by
  unfold recordFailure
  simp only [rollWindow_failures, satAdd_failures few]
  rw [if_pos many]
  rfl

theorem recordFailure_counts (record : FailureRecord) :
    0 < (record.recordFailure now).failures ∨ (record.recordFailure now).locked now = true := by
  unfold recordFailure
  dsimp only
  split
  · refine .inr (locked_iff.mpr ⟨_, rfl, ?_⟩)
    exact Int.lt_add_of_pos_right now (lockSeconds_pos _)
  · refine .inl ?_
    have max : u32Max = 4294967295 := rfl
    show 0 < satAdd u32Max (record.rollWindow now).failures 1
    rw [satAdd]
    omega

theorem lockSet_of_many (few : record.failures < failureLockoutThreshold)
    (many : failureLockoutThreshold ≤ record.failures + 1) :
    (record.recordFailure now).lockSet now =
      some
        { since := now
          window := (record.rollWindow now).windowStart
          length := record.nextLock now } := by
  have length : now + record.nextLock now - now = record.nextLock now := by omega
  rw [recordFailure_of_many few many, lockSet, if_pos rfl, Option.map_some, length]

theorem satAdd_pos {n : Nat} : 0 < satAdd u32Max n 1 := by
  have max : 0 < u32Max := by decide
  rw [satAdd]
  omega

theorem lockSeconds_le_nextLock
    (open_ : now - record.windowStart < seconds lockoutEscalationWindowSeconds) :
    seconds record.lockSeconds ≤ record.nextLock now := by
  rw [nextLock, rollWindow_eq open_]
  exact lockSeconds_le record

theorem not_locked_later {now' : Int} (unlocked : record.locked now = false) (later : now ≤ now') :
    record.locked now' = false := by
  rw [Bool.eq_false_iff]
  intro locked
  obtain ⟨until_, eq, inFuture⟩ := locked_iff.mp locked
  have : record.locked now = true := locked_iff.mpr ⟨until_, eq, by omega⟩
  rw [unlocked] at this
  cases this

end FailureRecord

theorem History.fail_some {h : History} {window length : Int}
    (announced : h.ends.getD (h.time + length) ≤ h.time + length) :
    h.fail (some { since := h.time, window, length }) =
      { h with
        failed := h.time :: h.failed
        ends := some (h.time + length)
        locks := { since := h.time, window, length } :: h.locks } := by
  dsimp only [History.fail, Option.elim_some]
  rw [max_eq_right announced]
  rfl

/-- What the record of a pair says about its history. -/
structure Tracks (record : Option FailureRecord) (h : History) : Prop where
  few : ∀ r, record = some r → r.failures < failureLockoutThreshold
  guarded : ∀ until_, h.ends = some until_ → h.time < until_ ∧
    ∃ r, record = some r ∧ r.lockedUntil = some until_
  counted : h.ends = none → h.failed.length ≤ record.elim 0 (·.failures)
  over_ : h.ends = none → ∀ r, record = some r → r.locked h.time = false
  level : ∀ last, h.locks.head? = some last →
    h.time - last.window < seconds lockoutEscalationWindowSeconds →
      ∃ r, record = some r ∧ 0 < r.lockouts ∧ r.windowStart = last.window ∧
        last.length = seconds r.lockSeconds
  chain : h.locks.IsChain fun later earlier =>
    later.since - earlier.window < seconds lockoutEscalationWindowSeconds →
      earlier.length ≤ later.length

namespace Tracks

variable {record : Option FailureRecord} {h : History} {r : FailureRecord} {now : Int}

theorem advance (tracks : Tracks record h) (later : h.time ≤ now) :
    Tracks record (h.advance now) := by
  unfold History.advance
  split
  next ended =>
    obtain ⟨until_, eq, past⟩ : ∃ until_, h.ends = some until_ ∧ until_ ≤ now := by
      simpa [Option.any_eq_true] using ended
    obtain ⟨-, r, found, locked⟩ := tracks.guarded until_ eq
    refine ⟨tracks.few, (fun _ none_ => by cases none_), fun _ => Nat.zero_le _,
      fun _ r' found' => ?_, fun last head open_ => tracks.level last head ?_, tracks.chain⟩
    · obtain rfl : r = r' := Option.some.inj (found.symm.trans found')
      rw [Bool.eq_false_iff]
      intro still
      obtain ⟨until', eq', inFuture⟩ := locked_iff.mp still
      obtain rfl : until_ = until' := Option.some.inj (locked.symm.trans eq')
      dsimp only at inFuture
      omega
    · dsimp only at open_
      omega
  next lasting =>
    refine ⟨tracks.few, fun until_ eq => ?_, tracks.counted, fun none_ r found => ?_,
      fun last head open_ => tracks.level last head ?_, tracks.chain⟩
    · dsimp only at eq ⊢
      rw [eq] at lasting
      have lasting : now < until_ := by simpa using lasting
      exact ⟨lasting, (tracks.guarded until_ eq).2⟩
    · exact FailureRecord.not_locked_later (tracks.over_ none_ r found) later
    · dsimp only at open_
      omega

theorem endLock (tracks : Tracks record h)
    (none_ : record.any (fun r => r.lockedUntil.any (· ≤ h.time)) = true → h.failed = []) :
    Tracks (record.map (·.endLock h.time)) h := by
  cases record with
  | none => exact tracks
  | some r =>
    rw [Option.map_some, FailureRecord.endLock]
    split
    next ended =>
      have forgotten : h.failed = [] := none_ ended
      obtain ⟨past, locked, isPast⟩ : ∃ past, r.lockedUntil = some past ∧ past ≤ h.time := by
        simpa [Option.any_eq_true] using ended
      refine ⟨fun _ eq => ?_, fun until_ eq => ?_, fun _ => ?_, fun _ _ eq => ?_,
        fun last head open_ => ?_, tracks.chain⟩
      · cases eq
        rw [FailureRecord.rollWindow_failures]
        exact Nat.zero_lt_succ 4
      · obtain ⟨inFuture, _, found, lockedUntil⟩ := tracks.guarded until_ eq
        cases found
        rw [locked] at lockedUntil
        cases lockedUntil
        omega
      · rw [forgotten]
        exact Nat.zero_le _
      · cases eq
        exact not_locked_of_unlocked FailureRecord.rollWindow_lockedUntil
      · obtain ⟨_, found, some_, window, length⟩ := tracks.level last head open_
        cases found
        rw [← window] at open_
        exact ⟨_, rfl, by rwa [FailureRecord.rollWindow_eq (by exact open_)],
          by rwa [FailureRecord.rollWindow_eq (by exact open_)],
          by rwa [FailureRecord.rollWindow_eq (by exact open_)]⟩
    · exact tracks

theorem evict (tracks : Tracks (some r) h) (idle : r.Idle h.time) : Tracks none h := by
  obtain ⟨noFailures, unlocked, low⟩ := idle
  refine ⟨(fun _ eq => by cases eq), fun until_ eq => ?_, fun none_ => ?_,
    (fun _ _ eq => by cases eq), fun last head open_ => ?_, tracks.chain⟩
  · obtain ⟨inFuture, _, found, locked⟩ := tracks.guarded until_ eq
    cases found
    rw [locked_iff.mpr ⟨until_, locked, inFuture⟩] at unlocked
    cases unlocked
  · have few := tracks.counted none_
    rwa [Option.elim_some, noFailures] at few
  · obtain ⟨_, found, some_, window, -⟩ := tracks.level last head open_
    cases found
    omega

theorem fail (tracks : Tracks record h)
    (atLeast : ∀ until_, h.ends = some until_ →
      (record.getD (.new h.time)).LocksAtLeast h.time until_) :
    Tracks (some ((record.getD (.new h.time)).recordFailure h.time))
      (h.fail (((record.getD (.new h.time)).recordFailure h.time).lockSet h.time)) := by
  have few : (record.getD (.new h.time)).failures < failureLockoutThreshold := by
    cases record with
    | none => exact Nat.zero_lt_succ 4
    | some r => exact tracks.few r rfl
  have failures_eq : (record.getD (.new h.time)).failures = record.elim 0 (·.failures) := by
    cases record <;> rfl
  have getD_eq {r : FailureRecord} (found : record = some r) : record.getD (.new h.time) = r := by
    rw [found, Option.getD_some]
  have unlocked (none_ : h.ends = none) : (record.getD (.new h.time)).locked h.time = false := by
    cases record with
    | none => rfl
    | some r => exact tracks.over_ none_ r rfl
  generalize record.getD (.new h.time) = r at *
  by_cases many : failureLockoutThreshold ≤ r.failures + 1
  · have announced : (h.ends.getD (h.time + r.nextLock h.time)) ≤ h.time + r.nextLock h.time := by
      cases ends : h.ends with
      | none => exact le_refl _
      | some until_ => exact atLeast until_ ends many
    have positive : 0 < r.nextLock h.time := FailureRecord.lockSeconds_pos _
    rw [FailureRecord.lockSet_of_many few many, History.fail_some announced,
      FailureRecord.recordFailure_of_many few many]
    refine ⟨fun _ eq => ?_, fun until_ eq => ?_, (fun none_ => by cases none_),
      (fun none_ => by cases none_), fun last head open_ => ?_, ?_⟩
    · cases eq
      exact Nat.zero_lt_succ 4
    · cases eq
      exact ⟨Int.lt_add_of_pos_right h.time positive, _, rfl, rfl⟩
    · cases head
      exact ⟨_, rfl, FailureRecord.satAdd_pos, rfl, rfl⟩
    · refine List.isChain_cons.mpr ⟨fun last head open_ => ?_, tracks.chain⟩
      obtain ⟨r', found, -, window, before⟩ := tracks.level last head open_
      obtain rfl := getD_eq found
      rw [← window] at open_
      rw [before]
      exact FailureRecord.lockSeconds_le_nextLock open_
  · rw [FailureRecord.recordFailure_of_few (by omega)]
    refine ⟨fun _ eq => ?_, fun until_ eq => ?_, fun none_ => ?_, fun none_ _ eq => ?_,
      fun last head open_ => ?_, tracks.chain⟩
    · cases eq
      exact Nat.lt_of_not_le many
    · obtain ⟨inFuture, r', found, locked⟩ := tracks.guarded until_ eq
      obtain rfl := getD_eq found
      exact ⟨inFuture, _, rfl, FailureRecord.rollWindow_lockedUntil.trans locked⟩
    · have counted := tracks.counted none_
      rw [← failures_eq] at counted
      exact Nat.succ_le_succ counted
    · cases eq
      have same : FailureRecord.locked h.time
          { r.rollWindow h.time with failures := r.failures + 1 } = r.locked h.time := by
        simp [FailureRecord.locked]
      exact same.trans (unlocked none_)
    · obtain ⟨r', found, some_, window, length⟩ := tracks.level last head open_
      obtain rfl := getD_eq found
      have open_ : h.time - r.windowStart < seconds lockoutEscalationWindowSeconds := window ▸ open_
      rw [FailureRecord.rollWindow_eq open_]
      exact ⟨_, rfl, some_, window, length⟩

theorem succeed (unlocked : h.ends = none) : Tracks none h.succeed where
  few _ eq := by cases eq
  guarded until_ eq := by
    rw [show h.succeed.ends = h.ends from rfl, unlocked] at eq
    cases eq
  counted _ := Nat.zero_le _
  over_ _ _ eq := by cases eq
  level last head _ := by cases head
  chain := List.isChain_nil

end Tracks

@[simp] theorem History.advance_time (now : Int) (h : History) : (h.advance now).time = now := by
  unfold advance
  split <;> rfl

theorem Tracks.apply {s : LimiterState} {call : Call} {key : String × String} {h : History}
    (tracks : Tracks ((call.noted s).get key) h) (time : h.time = call.time)
    (outlives : ∀ t, call.evictsFrom s = some t → ∀ record, t.get key = some record →
      record.Outlives call.time t) : Tracks ((call.apply s).failures.get key) h := by
  rcases apply_failures s call with eq | ⟨order, evicts, eq⟩
  · rwa [eq]
  rw [eq]
  cases found : (call.noted s).get key with
  | none =>
    rw [found] at tracks
    have none_ : (LimiterState.keepRecords order call.time (call.noted s)).get key = none := by
      rcases @get_keepRecords order call.time (call.noted s) key with eq | ⟨eq, -⟩
      · rw [eq, found]
      · exact eq
    rwa [none_]
  | some record =>
    rw [found] at tracks
    rcases @get_keepRecords_of_outlives order call.time _ key record found
      (outlives _ evicts record found) with eq | ⟨eq, idle⟩
    · rwa [eq]
    · rw [eq]
      exact tracks.evict (time ▸ idle)

theorem get_recorded {s : LimiterState} {now : Int} {order : Order} {record : FailureRecord}
    (noted : ((Call.recordFailure ip account now order).noted s).get
      (LimiterState.sourceKey ip account) = some record)
    (counts : 0 < record.failures ∨ record.locked now = true)
    (outlives : ∀ t, (Call.recordFailure ip account now order).evictsFrom s = some t →
      ∀ record, t.get (LimiterState.sourceKey ip account) = some record → record.Outlives now t) :
    (s.recordFailureAt order ip account now).failures.get (LimiterState.sourceKey ip account) =
      some record := by
  rcases apply_failures s (.recordFailure ip account now order) with eq | ⟨order', evicts, eq⟩
  · exact (congrArg (·.get (LimiterState.sourceKey ip account)) eq).trans noted
  · refine (congrArg (·.get (LimiterState.sourceKey ip account)) eq).trans ?_
    rcases @get_keepRecords_of_outlives order' now _ _ record noted
      (outlives _ evicts record noted) with kept | ⟨-, none_, unlocked, -⟩
    · exact kept
    · rcases counts with some_ | locked
      · omega
      · rw [unlocked] at locked
        cases locked

namespace Watch

variable {pair : String × String} {w w' : Watch} {call : Call}

def Inv (pair : String × String) (w : Watch) : Prop := Tracks (w.record pair) w.history

theorem inv_start {time : Int} : Inv pair (start time) where
  few _ eq := by cases eq
  guarded _ eq := by cases eq
  counted _ := Nat.zero_le _
  over_ _ _ eq := by cases eq
  level _ head _ := by cases head
  chain := List.isChain_nil

theorem step_cases (stepped : w.step pair call = some w') :
    w.history.time ≤ call.time ∧ w'.record pair =
        (call.apply w.limiter).failures.get (LimiterState.sourceKey pair.1 pair.2) ∧
      w'.history = (w.history.advance call.time).note pair (w'.record pair) call := by
  unfold step at stepped
  split at stepped
  · cases stepped
  next notEarlier =>
    cases call with
    | check ip account now order =>
      cases stepped
      exact ⟨Int.not_lt.mp notEarlier, rfl, rfl⟩
    | recordFailure ip account now order =>
      dsimp only at stepped
      split at stepped
      · cases stepped
        exact ⟨Int.not_lt.mp notEarlier, rfl, rfl⟩
      · cases stepped
    | recordSuccess ip account now =>
      dsimp only at stepped
      split at stepped
      · cases stepped
        exact ⟨Int.not_lt.mp notEarlier, rfl, rfl⟩
      · cases stepped

theorem inv_step (inv : Inv pair w) (spares : w.Spares pair call)
    (stepped : w.step pair call = some w') : Inv pair w' := by
  obtain ⟨ownKey, outlives, own⟩ := spares
  obtain ⟨later, record, history⟩ := step_cases stepped
  have time : (w.history.advance call.time).time = call.time := History.advance_time _ _
  have advanced : Tracks (w.record pair) (w.history.advance call.time) := Tracks.advance inv later
  rw [Inv, history, record]
  by_cases here : call.pair = pair
  · have own := own here
    subst here
    have noted := @get_noted_key w.limiter call
    rw [History.note.eq_def, if_pos rfl]
    cases call with
    | check ip account now order =>
      have ended := advanced.endLock (by rw [time]; exact own)
      rw [time] at ended
      exact Tracks.apply (noted ▸ ended) time outlives
    | recordFailure ip account now order =>
      have failed := advanced.fail (by rw [time]; exact own)
      rw [time] at failed
      have after : (Call.apply w.limiter (.recordFailure ip account now order)).failures.get
          (LimiterState.sourceKey ip account) = _ :=
        get_recorded noted (FailureRecord.recordFailure_counts _) outlives
      dsimp only [Call.pair]
      rw [after]
      exact failed
    | recordSuccess ip account now => exact Tracks.apply (noted ▸ Tracks.succeed own) time outlives
  · rw [History.note.eq_def, if_neg here]
    exact Tracks.apply (by rwa [get_noted fun same => here (ownKey same.symm)]) time outlives

theorem inv_guarded (inv : Inv pair w) : w.Guarded pair := by
  refine ⟨fun enough => ?_, fun until_ ends => ?_⟩
  · cases ends : w.history.ends with
    | some _ => rfl
    | none =>
      have counted := inv.counted ends
      cases found : w.record pair with
      | none =>
        rw [found, Option.elim_none] at counted
        have five : failureLockoutThreshold = 5 := rfl
        omega
      | some record =>
        have few := inv.few record found
        rw [found, Option.elim_some] at counted
        omega
  · obtain ⟨inFuture, record, found, locked⟩ := inv.guarded until_ ends
    refine ⟨inFuture, fun now order later lasting => ?_⟩
    have limits : w.limiter.lockOf pair.1 pair.2 now = some until_ :=
      lockOf_eq_some_iff.mpr ⟨record, found, locked, lasting⟩
    rw [LimiterState.checkAt, limits]
    exact ⟨_, rfl⟩

/-- In every run that spares the pair, five failures lock it, the lock is kept until its announced
end, and a later lock in its window is not shorter; no call for another pair changes a lock. -/
theorem lockout_kept (pair : String × String) (time : Int) {calls : List Call}
    (run : Runs (step pair) (Spares pair) (start time) calls w) :
    w.Guarded pair ∧ w.Escalates ∧ w.Apart pair := by
  have inv : Inv pair w := run.invariant inv_start fun _ _ _ inv spares stepped =>
    inv_step inv spares stepped
  exact ⟨inv_guarded inv, inv.chain, w.apart pair⟩

end Watch

def asStored : Order where
  counters t := t.entries
  failures t := t.entries
  perm_counters _ := .refl _
  perm_failures _ := .refl _

def attacker : String × String := ("198.51.100.9", "admin")

def checks (n : Nat) (now : Int) : List Call :=
  List.replicate n (.check attacker.1 attacker.2 now asStored)

def failures (n : Nat) (now : Int) : List Call :=
  List.replicate n (.recordFailure attacker.1 attacker.2 now asStored)

/-- Twice five attempts that pass the check and fail. -/
def twoLocks : List Call :=
  checks 5 0 ++ failures 5 0 ++ checks 5 (seconds 1000) ++ failures 5 (seconds 1000)

/-- The second lock, of an hour, follows the first one of a quarter. -/
theorem lockout_kept_attacker :
    ∃ w, Runs (Watch.step attacker) (Watch.Spares attacker) (.start 0) twoLocks w ∧
      w.history.ends = some (seconds 4600) ∧ w.history.locks.length = 2 ∧
      (w.Guarded attacker ∧ w.Escalates ∧ w.Apart attacker) := by
  have locks : (checkedExec (Watch.step attacker) (fun w call => decide (w.Spares attacker call))
      (.start 0) twoLocks).map (fun w => (w.history.ends, w.history.locks.length)) =
        some (some (seconds 4600), 2) := by
    decide +kernel
  obtain ⟨w, computed, both⟩ := Option.map_eq_some_iff.mp locks
  obtain ⟨ends, two⟩ := Prod.mk.inj both
  have run : Runs (Watch.step attacker) (Watch.Spares attacker) (.start 0) twoLocks w :=
    runs_of_checkedExec (fun _ _ spares => of_decide_eq_true spares) computed
  exact ⟨w, run, ends, two, Watch.lockout_kept attacker 0 run⟩

/-- Three times five failures, the last with five more attempts that pass the check before and fail
when the window of the locks is over. -/
def lateFailures : List Call :=
  twoLocks ++ checks 10 (seconds 86399) ++ failures 5 (seconds 86399) ++ failures 5 (seconds 86400)

/-- These shorten the third lock. -/
theorem late_failures_shorten_lock : ¬∀ pair time calls w,
    Reaches (Watch.step pair) (.start time) calls w →
      w.Guarded pair ∧ w.Escalates ∧ w.Apart pair := by
  intro holds
  have facts : (exec (Watch.step attacker) (.start 0) lateFailures).map (fun w =>
      (w.history.time, w.history.ends,
        (w.limiter.checkAt asStored attacker.1 attacker.2 (seconds 90000)).1)) =
      some (seconds 86400, some (seconds 107999), .allow) := by decide +kernel
  obtain ⟨w, computed, facts⟩ := Option.map_eq_some_iff.mp facts
  obtain ⟨time, rest⟩ := Prod.mk.inj facts
  obtain ⟨ends, allowed⟩ := Prod.mk.inj rest
  have guarded := (holds attacker 0 lateFailures w (reaches_of_exec computed)).1.2 _ ends
  obtain ⟨retry, limited⟩ := guarded.2 (seconds 90000) asStored (time ▸ by decide) (by decide)
  rw [allowed] at limited
  cases limited

end MailStack.Web
