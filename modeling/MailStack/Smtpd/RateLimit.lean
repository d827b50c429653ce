import MailStack.Lib.Machine
import MailStack.Lib.TokenBucket
import MailStack.Smtpd.Ban

/-! The connection rate limit: a token bucket for each peer, in a table of a bounded size. The
numbers with a fraction are exact here. -/

namespace MailStack.Smtpd

open Lib TokenBucket

structure RateLimitConfig where
  burst : Nat
  refillPerSecond : Rat
  maxEntries : Nat

def RateLimitConfig.default : RateLimitConfig :=
  { burst := 30, refillPerSecond := 1, maxEntries := 10000 }

structure RateLimits extends RateLimitConfig where
  burst_pos : 1 ≤ burst
  refill_pos : 0 < refillPerSecond
  maxEntries_pos : 1 ≤ maxEntries

def RateLimitConfig.clamp (config : RateLimitConfig) : RateLimits where
  burst := max config.burst 1
  refillPerSecond := if config.refillPerSecond > 0 then config.refillPerSecond else 1
  maxEntries := max config.maxEntries 1
  burst_pos := le_max_right _ _
  refill_pos := by
    split
    case isTrue positive => exact positive
    case isFalse => exact one_pos
  maxEntries_pos := le_max_right _ _

inductive RateDecision
  | allowed
  | limited (retryAfterSecs : Nat)

def RateDecision.isAllowed : RateDecision → Bool
  | .allowed => true
  | .limited _ => false

abbrev Buckets := Table PeerKey (Bucket Rat)

def refill (bucket : Bucket Rat) (capacity rate : Rat) (now : Int) : Bucket Rat :=
  let elapsed := clampI64 (now - bucket.last)
  if elapsed > 0 then
    { tokens := min (bucket.tokens + elapsed / 1000 * rate) capacity, last := now }
  else bucket

def retryAfter (tokens rate : Rat) : Nat :=
  let missing := max (1 - tokens) 0
  min (max ⌈missing / rate⌉ 1).toNat u64Max

/-- The orders in which the buckets are gone through. -/
structure BucketOrder where
  buckets : Buckets → List (Sigma fun _ : PeerKey => Bucket Rat)
  perm : ∀ t, (buckets t).Perm t.entries

/-- The buckets that `evict` retains at first. -/
def notFull (limits : RateLimits) (now : Int) (buckets : Buckets) : Buckets :=
  buckets.retain fun _ bucket =>
    let elapsed := clampI64 (now - bucket.last)
    min (bucket.tokens + elapsed / 1000 * limits.refillPerSecond) limits.burst <
      (limits.burst : Rat)

/-- `ages` after its sort: the peers from the one that was seen longest ago. -/
def sortedAges (order : BucketOrder) (buckets : Buckets) : List (PeerKey × Int) :=
  ((order.buckets buckets).map fun e => (e.1, e.2.last)).mergeSort fun a b => a.2 ≤ b.2

def evict (order : BucketOrder) (limits : RateLimits) (now : Int) (buckets : Buckets) : Buckets :=
  let buckets := notFull limits now buckets
  if buckets.size < limits.maxEntries then buckets
  else
    let ages := sortedAges order buckets
    let target := limits.maxEntries - 1
    let removeCount := buckets.size - target
    ((ages.take removeCount).map (·.1)).foldl (fun t victim => t.remove victim) buckets

/-- A connection of a peer. The table is locked from the beginning of a check to its end. -/
structure Call where
  ip : IpAddr
  now : Int

def Call.key (call : Call) : PeerKey := PeerKey.fromIp call.ip

def takeToken (limits : RateLimits) (bucket : Bucket Rat) : RateDecision × Bucket Rat :=
  if bucket.tokens ≥ 1 then (.allowed, { bucket with tokens := bucket.tokens - 1 })
  else (.limited (retryAfter bucket.tokens limits.refillPerSecond), bucket)

def check (order : BucketOrder) (limits : RateLimits) (buckets : Buckets) (call : Call) :
    RateDecision × Buckets :=
  let capacity : Rat := limits.burst
  match buckets.get call.key with
  | some bucket =>
    let taken := takeToken limits (refill bucket capacity limits.refillPerSecond call.now)
    (taken.1, buckets.put call.key taken.2)
  | none =>
    let buckets :=
      if buckets.size ≥ limits.maxEntries then evict order limits call.now buckets else buckets
    let bucket :=
      refill { tokens := capacity, last := call.now } capacity limits.refillPerSecond call.now
    (.allowed, buckets.put call.key { bucket with tokens := bucket.tokens - 1 })

/-- The rule of the buckets, with the time in milliseconds. -/
def RateLimits.rule (limits : RateLimits) : Rule Rat where
  capacity := limits.burst
  rate := limits.refillPerSecond / 1000
  gain span := clampI64 span / 1000 * limits.refillPerSecond
  one_le := by exact_mod_cast limits.burst_pos
  rate_nonneg := by
    have := limits.refill_pos
    positivity
  gain_zero := by
    have : clampI64 0 = 0 := by decide
    simp [this]
  gain_mono := by
    intro a b le
    have clamped : clampI64 a ≤ clampI64 b := max_le_max_left _ (min_le_min_right _ le)
    have := limits.refill_pos
    have cast : (clampI64 a : Rat) ≤ clampI64 b := Int.cast_le.mpr clamped
    simp only
    gcongr
  gain_le := by
    intro span nonneg
    have clamped : clampI64 span ≤ span := by
      unfold clampI64
      exact max_le (le_trans (by decide) nonneg) (min_le_left _ _)
    have := limits.refill_pos
    have cast : (clampI64 span : Rat) ≤ span := Int.cast_le.mpr clamped
    calc (clampI64 span : Rat) / 1000 * limits.refillPerSecond
        ≤ span / 1000 * limits.refillPerSecond := by gcongr
      _ = limits.refillPerSecond / 1000 * span := by ring

variable {limits : RateLimits} {order : BucketOrder} {buckets other : Buckets} {call : Call}
  {now later : Int} {bucket : Bucket Rat}

def SoundTable (limits : RateLimits) (now : Int) (buckets : Buckets) : Prop :=
  ∀ key, ∀ bucket ∈ buckets.get key, limits.rule.Sound now bucket

theorem refill_eq (sound : limits.rule.Sound now bucket) :
    refill bucket limits.burst limits.refillPerSecond now =
      ⟨limits.rule.projected now bucket, now⟩ := by
  have past := sound.past
  rw [refill]
  split
  case isTrue positive => rfl
  case isFalse none =>
    have same : bucket.last = now := by
      unfold clampI64 at none
      have : i64Min ≤ 0 := by decide
      have : (0 : Int) < i64Max := by decide
      omega
    rw [← same, sound.projected_self]

/-- Without a bucket of the peer there is room for one more after this. -/
def makeRoom (order : BucketOrder) (limits : RateLimits) (buckets : Buckets)
    (call : Call) : Buckets :=
  if (buckets.get call.key).isNone ∧ buckets.size ≥ limits.maxEntries then
    evict order limits call.now buckets
  else buckets

def decisionOf (limits : RateLimits) (granted : Bool × Bucket Rat) : RateDecision :=
  if granted.1 then .allowed else .limited (retryAfter granted.2.tokens limits.refillPerSecond)

theorem check_eq (sound : SoundTable limits call.now buckets) : check order limits buckets call =
    (decisionOf limits (limits.rule.ask call.now (buckets.get call.key)),
      (makeRoom order limits buckets call).put call.key
        (limits.rule.ask call.now (buckets.get call.key)).2) := by
  unfold check makeRoom
  cases found : buckets.get call.key with
  | some bucket =>
    simp only [refill_eq (sound _ bucket found), takeToken, Rule.ask, Option.isNone_some,
      Bool.false_eq_true, false_and, if_false]
    split <;> rfl
  | none =>
    have fresh : refill ⟨(limits.burst : Rat), call.now⟩ limits.burst limits.refillPerSecond
        call.now =
        ⟨(limits.burst : Rat), call.now⟩ := by
      have zero : ¬ clampI64 (call.now - call.now) > 0 := by
        rw [Int.sub_self]
        decide
      rw [refill, if_neg zero]
    simp only [fresh, Option.isNone_none, true_and]
    rfl

variable {key : PeerKey}

theorem get_check_other (sound : SoundTable limits call.now buckets) (ne : key ≠ call.key) :
    (check order limits buckets call).2.get key = (makeRoom order limits buckets call).get key := by
  rw [check_eq sound]
  exact Table.get_put_ne ne

theorem get_check_self (sound : SoundTable limits call.now buckets) :
    (check order limits buckets call).2.get call.key =
      some (limits.rule.ask call.now (buckets.get call.key)).2 := by
  rw [check_eq sound]
  exact Table.get_put

theorem get_notFull : (notFull limits now buckets).get key =
    (buckets.get key).filter fun bucket =>
      limits.rule.projected now bucket < limits.rule.capacity :=
  Table.get_retain

theorem keys_sortedAges (order : BucketOrder) (buckets : Buckets) :
    ((sortedAges order buckets).map (·.1)).Perm buckets.keys := by
  refine ((List.mergeSort_perm _ _).map _).trans ?_
  rw [List.map_map]
  exact (order.perm buckets).map _

theorem size_evict_lt : (evict order limits now buckets).size < limits.maxEntries := by
  have positive := limits.maxEntries_pos
  rw [evict]
  split
  case isTrue room => exact room
  case isFalse full =>
    have perm := keys_sortedAges order (notFull limits now buckets)
    set kept := notFull limits now buckets
    set victims := ((sortedAges order kept).take (kept.size - (limits.maxEntries - 1))).map (·.1)
      with victims_eq
    have part : victims.Sublist ((sortedAges order kept).map (·.1)) :=
      (List.take_sublist _ _).map _
    have size := Table.size_foldl_remove (part.nodup (perm.nodup_iff.mpr kept.keys_nodup))
      fun key mem => AList.mem_keys.mpr (perm.mem_iff.mp (part.subset mem))
    have length : victims.length = min (kept.size - (limits.maxEntries - 1)) kept.size := by
      rw [victims_eq, List.length_map, List.length_take, ← List.length_map (·.1), perm.length_eq,
        ← Table.size_eq_length_keys]
    show Table.size (victims.foldl (fun t victim => t.remove victim) kept) < limits.maxEntries
    omega

theorem get_evict : (evict order limits now buckets).get key = none ∨
    (evict order limits now buckets).get key = buckets.get key := by
  rw [evict]
  have kept : (notFull limits now buckets).get key = none ∨
      (notFull limits now buckets).get key = buckets.get key := by
    rw [get_notFull]
    cases buckets.get key with
    | none => exact Or.inl rfl
    | some bucket =>
      simp only [Option.filter_some]
      split
      · exact Or.inr rfl
      · exact Or.inl rfl
  simp only
  split
  · exact kept
  · rw [Table.get_foldl_remove]
    split
    · exact Or.inl rfl
    · exact kept

theorem size_put_le {n : Nat}
    (room : key ∈ buckets ∧ buckets.size ≤ n ∨ buckets.size < n) :
    (buckets.put key bucket).size ≤ n := by
  rw [Table.size_eq_length_keys, Table.put, AList.keys_insert, List.length_cons]
  rcases room with ⟨mem, le⟩ | lt
  · rw [List.length_erase_add_one (AList.mem_keys.mp mem), ← Table.size_eq_length_keys]
    exact le
  · have erased := List.length_erase_le (a := key) (l := buckets.keys)
    rw [← Table.size_eq_length_keys] at erased
    omega

theorem size_check_le (sound : SoundTable limits call.now buckets)
    (le : buckets.size ≤ limits.maxEntries) :
    (check order limits buckets call).2.size ≤ limits.maxEntries := by
  rw [check_eq sound]
  apply size_put_le
  unfold makeRoom
  cases found : buckets.get call.key with
  | some bucket =>
    left
    simp only [Option.isNone_some, Bool.false_eq_true, false_and, if_false]
    exact ⟨Table.mem_of_get found, le⟩
  | none =>
    right
    simp only [Option.isNone_none, true_and]
    split
    case isTrue => exact size_evict_lt
    case isFalse room => omega

theorem SoundTable.mono (sound : SoundTable limits now buckets) (le : now ≤ later) :
    SoundTable limits later buckets :=
  fun key bucket mem => (sound key bucket mem).mono le

theorem get_makeRoom : (makeRoom order limits buckets call).get key = none ∨
    (makeRoom order limits buckets call).get key = buckets.get key := by
  unfold makeRoom
  split
  · exact get_evict
  · exact Or.inr rfl

theorem SoundTable.check (sound : SoundTable limits call.now buckets) :
    SoundTable limits call.now (check order limits buckets call).2 := by
  intro key bucket mem
  by_cases same : key = call.key
  · subst same
    rw [get_check_self sound] at mem
    cases mem
    exact Rule.Sound.ask (sound call.key)
  · rw [get_check_other sound same] at mem
    have made : (makeRoom order limits buckets call).get key = none ∨ _ := get_makeRoom
    rcases made with gone | kept
    · rw [gone] at mem
      cases mem
    · exact sound key bucket (kept ▸ mem)

/-- Fewer than the greatest number of peers hold a bucket that is not full. -/
def Roomy (limits : RateLimits) (now : Int) (buckets : Buckets) : Prop :=
  (notFull limits now buckets).size < limits.maxEntries

/-- The tables differ in full buckets only. -/
def AlikeTables (limits : RateLimits) (now : Int) (buckets other : Buckets) : Prop :=
  ∀ key, limits.rule.Alike now (buckets.get key) (other.get key)

theorem AlikeTables.mono (alike : AlikeTables limits now buckets other) (le : now ≤ later) :
    AlikeTables limits later buckets other :=
  fun key => (alike key).mono le

variable {o : Option (Bucket Rat)}

theorem filter_of_fullAt (full : limits.rule.FullAt now o) :
    (o.filter fun bucket => limits.rule.projected now bucket < limits.rule.capacity) = none := by
  cases o with
  | none => rfl
  | some bucket =>
    have le : ¬ limits.rule.projected now bucket < limits.rule.capacity :=
      not_lt.mpr (full bucket rfl)
    simp [Option.filter_some, le]

theorem AlikeTables.roomy_iff (alike : AlikeTables limits now buckets other) :
    Roomy limits now buckets ↔ Roomy limits now other := by
  have same : ∀ key, (notFull limits now buckets).get key = (notFull limits now other).get key := by
    intro key
    rw [get_notFull, get_notFull]
    rcases alike key with eq | ⟨full, full'⟩
    · rw [eq]
    · rw [filter_of_fullAt full, filter_of_fullAt full']
  have size := (Table.entries_perm same).length_eq
  unfold Roomy Table.size
  rw [size]

theorem alike_makeRoom (roomy : Roomy limits call.now buckets) :
    AlikeTables limits call.now (makeRoom order limits buckets call) buckets := by
  intro key
  unfold makeRoom
  split
  · have kept : evict order limits call.now buckets = notFull limits call.now buckets :=
      if_pos roomy
    rw [kept, get_notFull]
    cases buckets.get key with
    | none => exact Rule.Alike.refl
    | some bucket =>
      by_cases full : limits.rule.IsFull call.now bucket
      · right
        have le : ¬ limits.rule.projected call.now bucket < limits.rule.capacity := not_lt.mpr full
        simp only [Option.filter_some, le, decide_false, Bool.false_eq_true, if_false]
        exact ⟨nofun, by rintro _ ⟨⟩; exact full⟩
      · left
        have lt : limits.rule.projected call.now bucket < limits.rule.capacity := not_le.mp full
        simp [Option.filter_some, lt]
  · exact Rule.Alike.refl

theorem AlikeTables.trans {third : Buckets} (first : AlikeTables limits now buckets other)
    (second : AlikeTables limits now other third) : AlikeTables limits now buckets third :=
  fun key => (first key).trans (second key)

theorem AlikeTables.symm (alike : AlikeTables limits now buckets other) :
    AlikeTables limits now other buckets :=
  fun key => (alike key).symm

/-- Tables that differ in full buckets only give the same answer, and differ in full buckets only
after it. -/
theorem AlikeTables.check (alike : AlikeTables limits call.now buckets other)
    (sound : SoundTable limits call.now buckets) (sound' : SoundTable limits call.now other)
    (roomy : Roomy limits call.now buckets) :
    (check order limits buckets call).1 = (check order limits other call).1 ∧
      AlikeTables limits call.now (check order limits buckets call).2
        (check order limits other call).2 := by
  have same := (alike call.key).ask_eq
  refine ⟨by rw [check_eq sound, check_eq sound', same], ?_⟩
  intro key
  by_cases self : key = call.key
  · subst self
    rw [get_check_self sound, get_check_self sound', same]
    exact Rule.Alike.refl
  · rw [get_check_other sound self, get_check_other sound' self]
    exact ((alike_makeRoom roomy).trans
      (alike.trans (alike_makeRoom (alike.roomy_iff.mp roomy)).symm)) key

def checked (order : BucketOrder) (limits : RateLimits) (call : Call)
    (buckets : Buckets) : Buckets :=
  (check order limits buckets call).2

def visits (order : BucketOrder) (limits : RateLimits) (buckets : Buckets) (calls : List Call) :
    List (Buckets × Call) :=
  trace (checked order limits) buckets calls

def decisions (order : BucketOrder) (limits : RateLimits) (buckets : Buckets) (calls : List Call) :
    List RateDecision :=
  (visits order limits buckets calls).map fun visit => (check order limits visit.1 visit.2).1

def allowedTimes (order : BucketOrder) (limits : RateLimits) (key : PeerKey) (buckets : Buckets)
    (calls : List Call) : List Int :=
  ((visits order limits buckets calls).filter fun visit =>
    visit.2.key = key && (check order limits visit.1 visit.2).1.isAllowed).map (·.2.now)

/-- Each call meets a table in which fewer than the greatest number of buckets are not full. -/
def RoomyAlong (order : BucketOrder) (limits : RateLimits) (buckets : Buckets) (calls : List Call) :
    Prop :=
  ∀ visit ∈ visits order limits buckets calls, Roomy limits visit.2.now visit.1

def InOrder (now : Int) (calls : List Call) : Prop := (now :: calls.map (·.now)).Pairwise (· ≤ ·)

variable {calls : List Call}

theorem InOrder.head (ordered : InOrder now (call :: calls)) : now ≤ call.now :=
  (List.pairwise_cons.mp ordered).1 _ List.mem_cons_self

theorem InOrder.tail (ordered : InOrder now (call :: calls)) : InOrder call.now calls :=
  (List.pairwise_cons.mp ordered).2

theorem size_checked_le (sound : SoundTable limits now buckets) (ordered : InOrder now calls)
    (le : buckets.size ≤ limits.maxEntries) :
    (applyAll (checked order limits) buckets calls).size ≤ limits.maxEntries := by
  induction calls generalizing buckets now with
  | nil => exact le
  | cons call calls ih =>
    have here := sound.mono ordered.head
    exact ih here.check ordered.tail (size_check_le here le)

theorem visits_cons : visits order limits buckets (call :: calls) =
    (buckets, call) :: visits order limits (checked order limits call buckets) calls := rfl

theorem RoomyAlong.head (roomy : RoomyAlong order limits buckets (call :: calls)) :
    Roomy limits call.now buckets := by
  unfold RoomyAlong at roomy
  rw [visits_cons] at roomy
  exact roomy (buckets, call) List.mem_cons_self

theorem RoomyAlong.tail (roomy : RoomyAlong order limits buckets (call :: calls)) :
    RoomyAlong order limits (checked order limits call buckets) calls := by
  unfold RoomyAlong at roomy ⊢
  rw [visits_cons] at roomy
  exact fun visit mem => roomy visit (List.mem_cons_of_mem _ mem)

theorem decisions_cons : decisions order limits buckets (call :: calls) =
    (check order limits buckets call).1 ::
      decisions order limits (checked order limits call buckets) calls := rfl

theorem allowedTimes_cons : allowedTimes order limits key buckets (call :: calls) =
    if call.key = key ∧ (check order limits buckets call).1.isAllowed = true then
      call.now :: allowedTimes order limits key (checked order limits call buckets) calls
    else allowedTimes order limits key (checked order limits call buckets) calls := by
  generalize step : (check order limits buckets call).1.isAllowed = allowed
  simp only [allowedTimes, visits_cons, List.filter_cons, step]
  by_cases self : call.key = key <;> cases allowed <;> simp [self]

theorem decisions_alike (alike : AlikeTables limits now buckets other)
    (sound : SoundTable limits now buckets) (sound' : SoundTable limits now other)
    (ordered : InOrder now calls) (roomy : RoomyAlong order limits buckets calls) :
    decisions order limits buckets calls = decisions order limits other calls := by
  induction calls generalizing buckets other now with
  | nil => rfl
  | cons call calls ih =>
    have here := sound.mono ordered.head
    have here' := sound'.mono ordered.head
    have step : (check order limits buckets call).1 = (check order limits other call).1 ∧ _ :=
      (alike.mono ordered.head).check here here' roomy.head
    have rest := ih step.2 here.check here'.check ordered.tail roomy.tail
    rw [decisions_cons, decisions_cons, step.1]
    exact congrArg _ rest

theorem isAllowed_decisionOf (granted : Bool × Bucket Rat) :
    (decisionOf limits granted).isAllowed = granted.1 := by
  unfold decisionOf
  split
  case isTrue yes => exact yes.symm
  case isFalse no => exact (Bool.eq_false_iff.mpr no).symm

theorem alike_checked (alike : limits.rule.Alike call.now (buckets.get key) o)
    (sound : SoundTable limits call.now buckets) (roomy : Roomy limits call.now buckets) :
    limits.rule.Alike call.now ((checked order limits call buckets).get key)
      (if call.key = key then some (limits.rule.ask call.now o).2 else o) := by
  unfold checked
  split
  case isTrue self =>
    subst self
    rw [get_check_self sound, alike.ask_eq]
    exact Rule.Alike.refl
  case isFalse other =>
    rw [get_check_other sound (Ne.symm other)]
    exact (alike_makeRoom roomy key).trans alike

/-- A peer is allowed what its own bucket grants. -/
theorem allowedTimes_eq
    (alike : limits.rule.Alike now (buckets.get key) o) (sound : SoundTable limits now buckets)
    (ordered : InOrder now calls) (roomy : RoomyAlong order limits buckets calls) :
    allowedTimes order limits key buckets calls =
      limits.rule.grants o ((calls.filter fun call => call.key = key).map (·.now)) := by
  induction calls generalizing buckets o now with
  | nil => rfl
  | cons call calls ih =>
    have here := sound.mono ordered.head
    have alike' := alike.mono ordered.head
    have rest := ih (alike_checked alike' here roomy.head) here.check ordered.tail roomy.tail
    rw [allowedTimes_cons]
    by_cases self : call.key = key
    · subst self
      have allowed : (check order limits buckets call).1.isAllowed =
          (limits.rule.ask call.now o).1 := by
        rw [← alike'.ask_eq, check_eq here, isAllowed_decisionOf]
      rw [if_pos rfl] at rest
      rw [allowed, rest, List.filter_cons_of_pos (by simp), List.map_cons, Rule.grants]
      simp only [true_and]
    · rw [if_neg self] at rest
      rw [if_neg (fun both => self both.1), rest, List.filter_cons_of_neg (by simpa using self)]

theorem sound_empty : SoundTable limits now ∅ := fun _ _ mem => by cases mem

theorem exists_inOrder
    (clock : (calls.map (·.now)).Pairwise (· ≤ ·)) : ∃ now, InOrder now calls := by
  cases calls with
  | nil => exact ⟨0, List.pairwise_singleton _ _⟩
  | cons call calls =>
    refine ⟨call.now, List.pairwise_cons.mpr ⟨?_, clock⟩⟩
    intro time mem
    rcases List.mem_cons.mp mem with rfl | later
    · exact le_refl _
    · exact (List.pairwise_cons.mp clock).1 time later

/-- Only full buckets are evicted. -/
def EvictsFull (limits : RateLimits) (now : Int) (buckets evicted : Buckets) : Prop :=
  ∀ key, evicted.get key = buckets.get key ∨
    evicted.get key = none ∧ (notFull limits now buckets).get key = none

theorem EvictsFull.alike (evicts : EvictsFull limits now buckets other) :
    AlikeTables limits now other buckets := by
  intro key
  rcases evicts key with same | ⟨gone, full⟩
  · exact Or.inl same
  · rw [get_notFull, Option.filter_eq_none_iff] at full
    refine Or.inr ⟨by rw [gone]; exact nofun, fun bucket mem => ?_⟩
    exact not_lt.mp fun lt => full bucket mem (by simpa using lt)

theorem EvictsFull.sound (evicts : EvictsFull limits now buckets other)
    (sound : SoundTable limits now buckets) : SoundTable limits now other := by
  intro key bucket mem
  rcases evicts key with same | ⟨gone, _⟩
  · exact sound key bucket (same ▸ mem)
  · rw [gone] at mem
    cases mem

theorem sound_applyAll (sound : SoundTable limits now buckets) (ordered : InOrder now calls)
    (le : now ≤ later) (past : ∀ call ∈ calls, call.now ≤ later) :
    SoundTable limits later (applyAll (checked order limits) buckets calls) := by
  induction calls generalizing buckets now with
  | nil => exact sound.mono le
  | cons call calls ih =>
    exact ih (sound.mono ordered.head).check ordered.tail (past call List.mem_cons_self)
      fun call' mem => past call' (List.mem_cons_of_mem _ mem)

theorem visits_append {before after : List Call} : visits order limits buckets (before ++ after) =
    visits order limits buckets before ++
      visits order limits (applyAll (checked order limits) buckets before) after := by
  induction before generalizing buckets with
  | nil => rfl
  | cons call before ih =>
    rw [List.cons_append, visits_cons, visits_cons, ih, List.cons_append]
    rfl

/-- In every run from the empty table, with a clock that does not run backwards: the table is
bounded; and while there is room for the buckets that are not full, a peer is allowed no more calls
in an interval than the burst and what the interval fills in, and it changes no later answer that
full buckets are evicted. -/
theorem connection_rate_limit (config : RateLimitConfig) (order : BucketOrder) (calls : List Call)
    (clock : (calls.map (·.now)).Pairwise (· ≤ ·)) :
    (∀ before after, calls = before ++ after →
      (applyAll (checked order config.clamp) ∅ before).size ≤ config.clamp.maxEntries) ∧
    (RoomyAlong order config.clamp ∅ calls →
      (∀ key start stop, start ≤ stop →
        (Rule.within start stop (allowedTimes order config.clamp key ∅ calls) : Rat) ≤
          config.clamp.burst + config.clamp.refillPerSecond * (((stop : Rat) - start) / 1000)) ∧
      ∀ before after now evicted, calls = before ++ after → (∀ call ∈ before, call.now ≤ now) →
        (∀ call ∈ after, now ≤ call.now) →
        EvictsFull config.clamp now (applyAll (checked order config.clamp) ∅ before) evicted →
        decisions order config.clamp evicted after =
          decisions order config.clamp (applyAll (checked order config.clamp) ∅ before) after) := by
  obtain ⟨first, ordered⟩ := exists_inOrder clock
  refine ⟨?_, fun roomy => ⟨?_, ?_⟩⟩
  · rintro before after rfl
    have part : InOrder first before := by
      unfold InOrder at ordered ⊢
      rw [List.map_append, ← List.cons_append] at ordered
      exact (List.pairwise_append.mp ordered).1
    exact size_checked_le sound_empty part (Nat.zero_le _)
  · intro key start stop le
    have alike : config.clamp.rule.Alike first (Table.get (∅ : Buckets) key) none := Or.inl rfl
    rw [allowedTimes_eq alike sound_empty ordered roomy]
    have inside : (first :: (calls.filter fun call => call.key = key).map (·.now)).Pairwise
        (· ≤ ·) := by
      refine List.Pairwise.sublist ?_ ordered
      exact ((List.filter_sublist).map _).cons_cons first
    have bound :=
      @Rule.within_grants_le Rat _ _ _ config.clamp.rule first none start stop _ (by simp)
      inside le
    have rate : config.clamp.rule.rate * ((stop : Rat) - start) =
        config.clamp.refillPerSecond * (((stop : Rat) - start) / 1000) := by
      show config.clamp.refillPerSecond / 1000 * _ = _
      ring
    rw [rate] at bound
    exact bound
  · rintro before after now evicted rfl past future evicts
    have parts : InOrder first before ∧ (after.map (·.now)).Pairwise (· ≤ ·) := by
      unfold InOrder at ordered ⊢
      rw [List.map_append, ← List.cons_append] at ordered
      have both := List.pairwise_append.mp ordered
      exact ⟨both.1, both.2.1⟩
    have early : InOrder (min first now) before := by
      have head := List.pairwise_cons.mp parts.1
      exact List.pairwise_cons.mpr ⟨fun time mem => (min_le_left _ _).trans (head.1 time mem), head.2⟩
    have sound : SoundTable config.clamp now (applyAll (checked order config.clamp) ∅ before) :=
      sound_applyAll sound_empty early (min_le_right _ _) past
    have late : InOrder now after := by
      refine List.pairwise_cons.mpr ⟨?_, parts.2⟩
      intro time mem
      obtain ⟨call, inAfter, rfl⟩ := List.mem_map.mp mem
      exact future call inAfter
    have roomyAfter : RoomyAlong order config.clamp
        (applyAll (checked order config.clamp) ∅ before) after := by
      unfold RoomyAlong at roomy ⊢
      rw [visits_append] at roomy
      exact fun visit mem => roomy visit (List.mem_append_right _ mem)
    exact (decisions_alike evicts.alike.symm sound (evicts.sound sound) late roomyAfter).symm

def entryOrder : BucketOrder := ⟨fun t => t.entries, fun _ => List.Perm.refl _⟩

def threeCalls : List Call := [⟨.v4 1, 0⟩, ⟨.v4 1, 500⟩, ⟨.v4 2, 2000⟩]

theorem connection_rate_limit_three :
    (Rule.within 0 500 (allowedTimes entryOrder (RateLimitConfig.mk 1 1 2).clamp (.v4 1) ∅ threeCalls) :
      Rat) ≤ 1 + 1 * ((500 - 0) / 1000) := by
  have all := connection_rate_limit ⟨1, 1, 2⟩ entryOrder threeCalls (by decide)
  have roomy : RoomyAlong entryOrder (RateLimitConfig.mk 1 1 2).clamp ∅ threeCalls := by
    unfold RoomyAlong Roomy
    decide +kernel
  have burst : (RateLimitConfig.mk 1 1 2).clamp.burst = 1 := by decide
  have rate : (RateLimitConfig.mk 1 1 2).clamp.refillPerSecond = 1 := by decide +kernel
  have bound := (all.2 roomy).1 (.v4 1) 0 500 (by decide)
  rw [burst, rate] at bound
  exact_mod_cast bound

end MailStack.Smtpd
