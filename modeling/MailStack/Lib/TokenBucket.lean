import Mathlib

/-! Token buckets: a bucket fills with time up to its capacity, and what is granted takes one token
out of it. In a span of time it grants no more than the capacity and what the span can have filled
in. A bucket that is full may be forgotten. -/

namespace MailStack.Lib.TokenBucket

/-- The tokens at the time of the last change. -/
@[ext] structure Bucket (K : Type*) where
  tokens : K
  last : Int

variable {K : Type*} [Field K] [LinearOrder K] [IsStrictOrderedRing K]

/-- How a bucket fills: `gain` is for a span of time, and at most the rate. -/
structure Rule (K : Type*) [Field K] [LinearOrder K] [IsStrictOrderedRing K] where
  capacity : K
  rate : K
  gain : Int → K
  one_le : 1 ≤ capacity
  rate_nonneg : 0 ≤ rate
  gain_zero : gain 0 = 0
  gain_mono : Monotone gain
  gain_le : ∀ span, 0 ≤ span → gain span ≤ rate * span

namespace Rule

variable (rule : Rule K)

/-- The tokens at a later time. -/
def projected (now : Int) (b : Bucket K) : K :=
  min (b.tokens + rule.gain (now - b.last)) rule.capacity

def IsFull (now : Int) (b : Bucket K) : Prop := rule.capacity ≤ rule.projected now b

/-- No tokens are missing below zero, none are above the capacity, and none come from the future. -/
structure Sound (now : Int) (b : Bucket K) : Prop where
  nonneg : 0 ≤ b.tokens
  le : b.tokens ≤ rule.capacity
  past : b.last ≤ now

/-- Whether a token is granted, and the bucket after it. Without a bucket there is a full one. -/
def ask (now : Int) : Option (Bucket K) → Bool × Bucket K
  | some b =>
    let level := rule.projected now b
    if 1 ≤ level then (true, ⟨level - 1, now⟩) else (false, ⟨level, now⟩)
  | none => (true, ⟨rule.capacity - 1, now⟩)

/-- The times at which a token is granted. -/
@[grind =] def grants : Option (Bucket K) → List Int → List Int
  | _, [] => []
  | o, now :: times =>
    if (rule.ask now o).1 then now :: grants (some (rule.ask now o).2) times
    else grants (some (rule.ask now o).2) times

variable {rule} {now later : Int} {b : Bucket K} {o : Option (Bucket K)}

theorem Sound.mono (sound : rule.Sound now b) (le : now ≤ later) : rule.Sound later b :=
  ⟨sound.nonneg, sound.le, sound.past.trans le⟩

theorem Sound.projected_nonneg (sound : rule.Sound now b) : 0 ≤ rule.projected now b := by
  have past := sound.past
  have gained := rule.gain_mono (show 0 ≤ now - b.last by omega)
  rw [rule.gain_zero] at gained
  have one := rule.one_le
  have nonneg := sound.nonneg
  exact le_min (by linarith) (by linarith)

theorem projected_le_capacity : rule.projected now b ≤ rule.capacity := min_le_right _ _

theorem Sound.projected_le (sound : rule.Sound now b) :
    rule.projected now b ≤ b.tokens + rule.rate * ((now : K) - b.last) := by
  have past := sound.past
  have gained := rule.gain_le (now - b.last) (by omega)
  rw [Int.cast_sub] at gained
  exact (min_le_left _ _).trans (by linarith)

/-- Nothing is filled in when no time has passed. -/
theorem Sound.projected_self (sound : rule.Sound now b) : rule.projected b.last b = b.tokens := by
  rw [projected, Int.sub_self, rule.gain_zero, add_zero, min_eq_left sound.le]

/-- The bucket after a token was asked for. -/
theorem Sound.ask (sound : ∀ b ∈ o, rule.Sound now b) : rule.Sound now (rule.ask now o).2 := by
  cases o with
  | none =>
    have one := rule.one_le
    exact ⟨by simp only [Rule.ask]; linarith, by simp only [Rule.ask]; linarith, le_refl now⟩
  | some b =>
    have nonneg := (sound b rfl).projected_nonneg
    have le : rule.projected now b ≤ rule.capacity := rule.projected_le_capacity
    simp only [Rule.ask]
    split
    case isTrue enough => exact ⟨by simp only; linarith, by simp only; linarith, le_refl now⟩
    case isFalse => exact ⟨nonneg, le, le_refl now⟩

/-- What is granted is paid for by the tokens and by the time since. -/
theorem Sound.ask_pays (sound : rule.Sound now b) :
    (if (rule.ask now (some b)).1 then 1 else 0) + (rule.ask now (some b)).2.tokens ≤
      b.tokens + rule.rate * ((now : K) - b.last) := by
  have le := sound.projected_le
  simp only [Rule.ask]
  split
  · simp only [if_true]
    linarith
  · simpa using le

/-- At no time is more granted than the capacity. -/
theorem ask_le_capacity : (if (rule.ask now o).1 then 1 else 0) + (rule.ask now o).2.tokens ≤
    rule.capacity := by
  cases o with
  | none => simp [Rule.ask]
  | some b =>
    have le : rule.projected now b ≤ rule.capacity := rule.projected_le_capacity
    simp only [Rule.ask]
    split
    · simp only [if_true]
      linarith
    · simpa using le

@[simp] theorem last_ask : (rule.ask now o).2.last = now := by
  cases o with
  | none => rfl
  | some b =>
    simp only [Rule.ask]
    split <;> rfl

/-- The number of the times between two. -/
def within (start stop : Int) (times : List Int) : Nat :=
  (times.filter fun time => start ≤ time ∧ time ≤ stop).length

variable {start stop : Int} {times : List Int}

theorem grants_sublist : (rule.grants o times).Sublist times := by
  induction times generalizing o with
  | nil => exact List.Sublist.slnil
  | cons now times ih =>
    rw [grants]
    split
    · exact ih.cons_cons now
    · exact ih.cons now

/-- What is granted at one time and after it. -/
theorem within_grants_cons_le : (within start stop (rule.grants o (now :: times)) : K) ≤
    (if (rule.ask now o).1 then 1 else 0) +
      within start stop (rule.grants (some (rule.ask now o).2) times) := by
  rw [grants]
  split
  · rw [within, List.filter_cons]
    split
    · rw [List.length_cons, Nat.cast_succ, add_comm]
      exact le_refl _
    · rw [← within]
      linarith
  · rw [zero_add]

theorem within_grants_cons_early (early : now < start) :
    within start stop (rule.grants o (now :: times)) =
      within start stop (rule.grants (some (rule.ask now o).2) times) := by
  have outside : ¬ (start ≤ now ∧ now ≤ stop) := by omega
  rw [grants]
  split
  · rw [within, List.filter_cons_of_neg (by simpa using outside)]
    rfl
  · rfl

theorem within_grants_late (ordered : (now :: times).Pairwise (· ≤ ·)) (late : stop < now) :
    within start stop (rule.grants o (now :: times)) = 0 := by
  rw [within, List.length_eq_zero_iff, List.filter_eq_nil_iff]
  intro time mem
  have after : now ≤ time := by
    rcases List.mem_cons.mp (grants_sublist.subset mem) with rfl | mem
    · exact le_refl time
    · exact (List.pairwise_cons.mp ordered).1 time mem
  simp only [decide_eq_true_eq]
  omega

theorem filled_nonneg (rule : Rule K)
    (le : start ≤ stop) : 0 ≤ rule.rate * ((stop : K) - start) := by
  rw [← Int.cast_sub]
  exact mul_nonneg rule.rate_nonneg (Int.cast_nonneg (by omega))

/-- From a bucket on no more is granted than its tokens and the time since pay for. -/
theorem within_grants_some_le (sound : rule.Sound b.last b)
    (ordered : (b.last :: times).Pairwise (· ≤ ·)) (le : b.last ≤ stop) :
    (within start stop (rule.grants (some b) times) : K) ≤
      b.tokens + rule.rate * ((stop : K) - b.last) := by
  have filled := rule.filled_nonneg le
  have nonneg := sound.nonneg
  induction times generalizing b with
  | nil =>
    simp only [grants, within, List.filter_nil, List.length_nil, Nat.cast_zero]
    linarith
  | cons now times ih =>
    obtain ⟨first, ordered⟩ := List.pairwise_cons.mp ordered
    have after := first now List.mem_cons_self
    have sound' := sound.mono after
    rcases Int.lt_or_le stop now with late | inside
    · rw [within_grants_late ordered late, Nat.cast_zero]
      linarith
    · have next : rule.Sound (rule.ask now (some b)).2.last (rule.ask now (some b)).2 := by
        rw [last_ask]
        exact Sound.ask (by rintro _ ⟨⟩; exact sound')
      have rest := ih next (by rwa [last_ask]) (by rwa [last_ask])
        (rule.filled_nonneg (by rwa [last_ask])) next.nonneg
      rw [last_ask] at rest
      have pays := sound'.ask_pays
      have step : (within start stop (rule.grants (some b) (now :: times)) : K) ≤ _ :=
        within_grants_cons_le
      linarith

/-- In every interval no more is granted than the capacity and what the interval fills in. -/
theorem within_grants_le (sound : ∀ b ∈ o, rule.Sound now b)
    (ordered : (now :: times).Pairwise (· ≤ ·)) (le : start ≤ stop) :
    (within start stop (rule.grants o times) : K) ≤
      rule.capacity + rule.rate * ((stop : K) - start) := by
  have filled := rule.filled_nonneg le
  have one := rule.one_le
  induction times generalizing o now with
  | nil =>
    simp only [grants, within, List.filter_nil, List.length_nil, Nat.cast_zero]
    linarith
  | cons next times ih =>
    obtain ⟨first, ordered⟩ := List.pairwise_cons.mp ordered
    have sound' : ∀ b ∈ o, rule.Sound next b := fun b mem =>
      (sound b mem).mono (first next List.mem_cons_self)
    have after : rule.Sound next (rule.ask next o).2 := Sound.ask sound'
    rcases Int.lt_or_le next start with early | begun
    · rw [within_grants_cons_early early]
      exact ih (by rintro _ ⟨⟩; exact after) ordered
    · rcases Int.lt_or_le stop next with late | inside
      · rw [within_grants_late ordered late, Nat.cast_zero]
        linarith
      · -- The first time inside: the tokens then are within the capacity.
        have rest : (within start stop (rule.grants (some (rule.ask next o).2) times) : K) ≤ _ :=
          within_grants_some_le (by rwa [last_ask]) (by rwa [last_ask]) (by rwa [last_ask])
        rw [last_ask] at rest
        have step : (within start stop (rule.grants o (next :: times)) : K) ≤ _ :=
          within_grants_cons_le
        have most : (if (rule.ask next o).1 then 1 else 0) + (rule.ask next o).2.tokens ≤
            rule.capacity :=
          rule.ask_le_capacity
        have less : rule.rate * ((stop : K) - next) ≤ rule.rate * ((stop : K) - start) := by
          have : (start : K) ≤ next := Int.cast_le.mpr begun
          exact mul_le_mul_of_nonneg_left (by linarith) rule.rate_nonneg
        linarith

/-- A bucket that may be missing is full then. -/
def FullAt (rule : Rule K) (now : Int) (o : Option (Bucket K)) : Prop := ∀ b ∈ o, rule.IsFull now b

/-- The same for every later time: equal, or both full. -/
def Alike (rule : Rule K) (now : Int) (o o' : Option (Bucket K)) : Prop :=
  o = o' ∨ rule.FullAt now o ∧ rule.FullAt now o'

variable {o' o'' : Option (Bucket K)}

theorem IsFull.mono (full : rule.IsFull now b) (le : now ≤ later) : rule.IsFull later b := by
  refine le_min ?_ (le_refl _)
  have gained := rule.gain_mono (show now - b.last ≤ later - b.last by omega)
  have before : rule.capacity ≤ b.tokens + rule.gain (now - b.last) := full.trans (min_le_left _ _)
  linarith

theorem Alike.refl : rule.Alike now o o := Or.inl rfl

theorem Alike.symm (alike : rule.Alike now o o') : rule.Alike now o' o :=
  alike.imp Eq.symm And.symm

theorem Alike.trans (first : rule.Alike now o o') (second : rule.Alike now o' o'') :
    rule.Alike now o o'' := by
  rcases first with rfl | ⟨full, full'⟩
  · exact second
  · rcases second with rfl | ⟨_, full''⟩
    · exact Or.inr ⟨full, full'⟩
    · exact Or.inr ⟨full, full''⟩

theorem Alike.mono (alike : rule.Alike now o o') (le : now ≤ later) : rule.Alike later o o' :=
  alike.imp_right fun full =>
    ⟨fun b mem => (full.1 b mem).mono le, fun b mem => (full.2 b mem).mono le⟩

/-- A full bucket answers as a missing one. -/
theorem ask_of_fullAt (full : rule.FullAt now o) : rule.ask now o = rule.ask now none := by
  cases o with
  | none => rfl
  | some b =>
    have level : rule.projected now b = rule.capacity :=
      le_antisymm rule.projected_le_capacity (full b rfl)
    simp only [Rule.ask, level, if_pos rule.one_le]

theorem Alike.ask_eq (alike : rule.Alike now o o') : rule.ask now o = rule.ask now o' := by
  rcases alike with rfl | ⟨full, full'⟩
  · rfl
  · rw [ask_of_fullAt full, ask_of_fullAt full']

end Rule

end MailStack.Lib.TokenBucket
