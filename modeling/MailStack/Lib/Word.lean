import Mathlib.Tactic.Linarith

/-! Fixed-width integers as numbers: the bounds of the unsigned and signed widths and the saturating
operations between them. -/

namespace MailStack.Lib

def u32Max : Nat := 2 ^ 32 - 1

def u64Max : Nat := 2 ^ 64 - 1

def i64Min : Int := -2 ^ 63

def i64Max : Int := 2 ^ 63 - 1

/-- `a + b`, stopped at `top`. -/
def satAdd (top a b : Nat) : Nat := min (a + b) top

/-- `a * b`, stopped at `top`. -/
def satMul (top a b : Nat) : Nat := min (a * b) top

/-- The nearest value of an `i64`. -/
def clampI64 (x : Int) : Int := max i64Min (min x i64Max)

/-- A `u64` read as an `i64`, in two's complement. -/
def asI64 (n : Nat) : Int := if n < 2 ^ 63 then n else (n : Int) - 2 ^ 64

theorem satAdd_le (top a b : Nat) : satAdd top a b ≤ a + b := min_le_left _ _

/-- Saturation does not change a comparison with a bound inside the range. -/
theorem clampI64_lt_iff {x b : Int} (low : i64Min < b) (high : b ≤ i64Max) :
    clampI64 x < b ↔ x < b := by
  unfold clampI64
  constructor
  · intro h
    have h1 := lt_of_le_of_lt (le_max_right _ _) h
    rcases min_lt_iff.mp h1 with h2 | h2
    · exact h2
    · exact absurd h2 (not_lt.mpr high)
  · intro h
    exact max_lt low (lt_of_le_of_lt (min_le_left _ _) h)

end MailStack.Lib
