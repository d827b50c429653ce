import MailStack.Lib.Base32

/-! How the secret of a second factor is written down for an authenticator. -/

namespace MailStack.Core

open Lib

def base32Digit (n : UInt32) : Char := Base32.alphabet.getD (n &&& 0x1f).toNat 'A'

/-- The inner loop: what is written while there are five bits, and the bits that are left. -/
def base32Flush (buffer : UInt32) (bits : Nat) : List Char × Nat :=
  if 5 ≤ bits then
    let (out, left) := base32Flush buffer (bits - 5)
    (base32Digit (buffer >>> UInt32.ofNat (bits - 5)) :: out, left)
  else ([], bits)

/-- The loop over the bytes. The bits of the buffer that were written stay in it. -/
def base32Loop (buffer : UInt32) (bits : Nat) : List UInt8 → List Char
  | [] => if 0 < bits then [base32Digit (buffer <<< UInt32.ofNat (5 - bits))] else []
  | byte :: rest =>
    let next := buffer <<< 8 ||| byte.toUInt32
    let (out, left) := base32Flush next (bits + 8)
    out ++ base32Loop next left rest

def base32Encode (data : List UInt8) : String := String.ofList (base32Loop 0 0 data)

theorem base32Digit_eq (n : UInt32) :
    base32Digit n = Base32.digit (ofBits (bitsOf 5 n.toNat)) := by
  have mask : (n &&& 0x1f).toNat = n.toNat % 2 ^ 5 := by
    rw [UInt32.toNat_and]
    exact Nat.and_two_pow_sub_one_eq_mod n.toNat 5
  rw [base32Digit, mask, ofBits_bitsOf, Base32.digit]

variable {bits : Nat}

theorem base32Flush_eq (buffer : UInt32) (fits : bits ≤ 32) (tail : List Bool) :
    Base32.ofBitList (bitsOf bits buffer.toNat ++ tail) =
      (base32Flush buffer bits).1 ++
        Base32.ofBitList (bitsOf (base32Flush buffer bits).2 buffer.toNat ++ tail) ∧
      (base32Flush buffer bits).2 < 5 := by
  fun_induction base32Flush buffer bits with
  | case1 bits enough out left shown ih =>
    obtain ⟨later, less⟩ := ih (by omega)
    have shift : (buffer >>> UInt32.ofNat (bits - 5)).toNat = buffer.toNat >>> (bits - 5) := by
      rw [UInt32.toNat_shiftRight, UInt32.toNat_ofNat_of_lt' (by omega : bits - 5 < 2 ^ 32),
        Nat.mod_eq_of_lt (by omega)]
    have parts := bitsOf_add 5 (bits - 5) buffer.toNat
    rw [show 5 + (bits - 5) = bits by omega] at parts
    rw [shown] at later less
    refine ⟨?_, less⟩
    rw [parts, List.append_assoc, Base32.ofBitList_five, later, base32Digit_eq, shift,
      List.cons_append]
  | case2 bits few => exact ⟨rfl, by omega⟩

theorem testBit_shiftLeft (buffer : UInt32) {shift : Nat} (small : shift < 32) {i : Nat}
    (low : i < 32) : (buffer <<< UInt32.ofNat shift).toNat.testBit i =
      (decide (shift ≤ i) && buffer.toNat.testBit (i - shift)) := by
  rw [UInt32.toNat_shiftLeft, UInt32.toNat_ofNat_of_lt' (by omega : shift < 2 ^ 32),
    Nat.mod_eq_of_lt small, Nat.testBit_mod_two_pow, Nat.testBit_shiftLeft]
  simp [low]

theorem bitsOf_next (buffer : UInt32) (byte : UInt8) (few : bits < 5) :
    bitsOf (bits + 8) (buffer <<< 8 ||| byte.toUInt32).toNat =
      bitsOf bits buffer.toNat ++ bitsOf 8 byte.toNat := by
  have small : byte.toNat < 2 ^ 8 := byte.toNat_lt
  have bit {i : Nat} (low : i < 32) : (buffer <<< 8 ||| byte.toUInt32).toNat.testBit i =
      (decide (8 ≤ i) && buffer.toNat.testBit (i - 8) || byte.toNat.testBit i) := by
    rw [UInt32.toNat_or, Nat.testBit_or, UInt8.toNat_toUInt32]
    exact congrArg (· || _) (testBit_shiftLeft buffer (show 8 < 32 by decide) low)
  rw [bitsOf_add]
  congr 1
  · refine bitsOf_congr fun i less => ?_
    have above : byte.toNat.testBit (8 + i) = false :=
      Nat.testBit_lt_two_pow
        (Nat.lt_of_lt_of_le small (Nat.pow_le_pow_right (by decide) (by omega)))
    rw [Nat.testBit_shiftRight, bit (by omega), above]
    simp
  · refine bitsOf_congr fun i less => ?_
    rw [bit (by omega), decide_eq_false (by omega), Bool.false_and, Bool.false_or]

theorem base32Loop_nil (buffer : UInt32) (few : bits < 5) :
    base32Loop buffer bits [] = Base32.ofBitList (bitsOf bits buffer.toNat) := by
  rw [base32Loop]
  by_cases none_ : 0 < bits
  · have some : bitsOf bits buffer.toNat ≠ [] :=
      List.ne_nil_of_length_pos (by rw [length_bitsOf]; exact none_)
    have filled : bitsOf 5 (buffer <<< UInt32.ofNat (5 - bits)).toNat =
        bitsOf bits buffer.toNat ++ List.replicate (5 - bits) false := by
      have parts := bitsOf_add bits (5 - bits) (buffer <<< UInt32.ofNat (5 - bits)).toNat
      rw [show bits + (5 - bits) = 5 by omega] at parts
      rw [parts, ← bitsOf_zero]
      congr 1
      · refine bitsOf_congr fun i less => ?_
        rw [Nat.testBit_shiftRight, testBit_shiftLeft _ (by omega) (by omega),
          decide_eq_true (by omega), Nat.add_sub_cancel_left, Bool.true_and]
      · refine bitsOf_congr fun i less => ?_
        rw [testBit_shiftLeft _ (by omega) (by omega), decide_eq_false (by omega), Bool.false_and,
          Nat.zero_testBit]
    rw [if_pos none_, Base32.ofBitList_few some (by rw [length_bitsOf]; exact few), length_bitsOf,
      base32Digit_eq, filled]
  · obtain rfl : bits = 0 := by omega
    rfl

theorem base32Loop_eq (buffer : UInt32) (few : bits < 5) (data : List UInt8) :
    base32Loop buffer bits data =
      Base32.ofBitList (bitsOf bits buffer.toNat ++ data.flatMap fun byte =>
        bitsOf 8 byte.toNat) := by
  induction data generalizing buffer bits with
  | nil => rw [List.flatMap_nil, List.append_nil, base32Loop_nil buffer few]
  | cons byte rest ih =>
    obtain ⟨written, less⟩ := base32Flush_eq (buffer <<< 8 ||| byte.toUInt32)
      (show bits + 8 ≤ 32 by omega) (rest.flatMap fun byte => bitsOf 8 byte.toNat)
    rw [base32Loop, List.flatMap_cons, ← List.append_assoc, ← bitsOf_next buffer byte few, written,
      ← ih _ less]

/-- The text stands for the bytes, whatever bits are still in the buffer. -/
theorem toList_base32Encode (data : List UInt8) : (base32Encode data).toList =
    Base32.ofBitList (data.flatMap fun byte => bitsOf 8 byte.toNat) := by
  rw [base32Encode, String.toList_ofList, base32Loop_eq 0 (by decide)]
  rfl

end MailStack.Core
