import Mathlib.Data.List.Basic
import Mathlib.Data.Nat.Bitwise

/-! Numbers as bits, and bytes in base32: five bits in a character, without padding. -/

namespace MailStack.Lib

/-- The last bits of a number, the highest first. -/
@[grind =] def bitsOf : Nat → Nat → List Bool
  | 0, _ => []
  | width + 1, n => n.testBit width :: bitsOf width n

/-- The number that bits stand for, the highest first. -/
@[grind =] def ofBits : List Bool → Nat
  | [] => 0
  | bit :: rest => 2 ^ rest.length * bit.toNat + ofBits rest

@[simp] theorem length_bitsOf (width n : Nat) : (bitsOf width n).length = width := by
  induction width with
  | zero => rfl
  | succ width ih => rw [bitsOf, List.length_cons, ih]

/-- Only the bits of the width count. -/
theorem bitsOf_congr {width m n : Nat} (same : ∀ i < width, m.testBit i = n.testBit i) :
    bitsOf width m = bitsOf width n := by
  induction width with
  | zero => rfl
  | succ width ih =>
    rw [bitsOf, bitsOf, same width (Nat.lt_succ_self width),
      ih fun i less => same i (Nat.lt_succ_of_lt less)]

theorem bitsOf_add (width more n : Nat) :
    bitsOf (width + more) n = bitsOf width (n >>> more) ++ bitsOf more n := by
  induction width with
  | zero => simp [bitsOf]
  | succ width ih =>
    rw [show width + 1 + more = width + more + 1 by omega, bitsOf, bitsOf, ih, Nat.testBit_shiftRight,
      Nat.add_comm more width, List.cons_append]

theorem bitsOf_zero (width : Nat) : bitsOf width 0 = List.replicate width false := by
  induction width with
  | zero => rfl
  | succ width ih => rw [bitsOf, ih, Nat.zero_testBit, List.replicate_succ]

theorem ofBits_lt (bits : List Bool) : ofBits bits < 2 ^ bits.length := by
  induction bits with
  | nil => decide
  | cons bit rest ih =>
    rw [ofBits, List.length_cons, Nat.pow_succ]
    cases bit with
    | false => simp only [Bool.toNat_false]; omega
    | true => simp only [Bool.toNat_true]; omega

theorem bitsOf_ofBits (bits : List Bool) : bitsOf bits.length (ofBits bits) = bits := by
  induction bits with
  | nil => rfl
  | cons bit rest ih =>
    have low := ofBits_lt rest
    have below : bitsOf rest.length (ofBits (bit :: rest)) = rest := by
      refine (bitsOf_congr fun i less => ?_).trans ih
      rw [ofBits, Nat.testBit_two_pow_mul_add _ low, if_pos less]
    have top : (ofBits (bit :: rest)).testBit rest.length = bit := by
      rw [ofBits, Nat.testBit_two_pow_mul_add _ low, if_neg (Nat.lt_irrefl _), Nat.sub_self]
      cases bit <;> rfl
    rw [List.length_cons, bitsOf, top, below]

theorem ofBits_bitsOf (width n : Nat) : ofBits (bitsOf width n) = n % 2 ^ width := by
  induction width with
  | zero => rw [Nat.pow_zero, Nat.mod_one]; rfl
  | succ width ih =>
    rw [bitsOf, ofBits, length_bitsOf, ih, Nat.mod_pow_succ, Nat.toNat_testBit, Nat.add_comm]

namespace Base32

def alphabet : List Char := "ABCDEFGHIJKLMNOPQRSTUVWXYZ234567".toList

/-- The character of five bits. -/
def digit (n : Nat) : Char := alphabet.getD n 'A'

def value (c : Char) : Option Nat := alphabet.idxOf? c

/-- Five bits in a character. The last ones are filled up with zeros. -/
def ofBitList : List Bool → List Char
  | [] => []
  | a :: b :: c :: d :: e :: rest => digit (ofBits [a, b, c, d, e]) :: ofBitList rest
  | few => [digit (ofBits (few ++ List.replicate (5 - few.length) false))]

/-- Eight bits in a byte, as long as there are eight. -/
def toBytes : List Bool → List UInt8
  | a :: b :: c :: d :: e :: f :: g :: h :: rest =>
    UInt8.ofNat (ofBits [a, b, c, d, e, f, g, h]) :: toBytes rest
  | _ => []

/-- The bits after the last byte are fewer than a character has, and they have to be zero. -/
def decode (text : List Char) : Option (List UInt8) :=
  match text.mapM value with
  | none => none
  | some values =>
    let bits := values.flatMap (bitsOf 5)
    let left := bits.drop (bits.length / 8 * 8)
    if left.length < 5 ∧ left.all (!·) = true then some (toBytes bits) else none

theorem value_digit {n : Nat} (h : n < 32) : value (digit n) = some n := by
  have all : ∀ n < 32, value (digit n) = some n := by decide
  exact all n h

theorem ofBitList_five (n : Nat) (rest : List Bool) :
    ofBitList (bitsOf 5 n ++ rest) = digit (ofBits (bitsOf 5 n)) :: ofBitList rest := rfl

/-- The last bits are filled up with zeros. -/
theorem ofBitList_few {few : List Bool} (some : few ≠ []) (short : few.length < 5) :
    ofBitList few = [digit (ofBits (few ++ List.replicate (5 - few.length) false))] := by
  rcases few with _ | ⟨a, _ | ⟨b, _ | ⟨c, _ | ⟨d, _ | ⟨e, rest⟩⟩⟩⟩⟩
  · exact absurd rfl some
  · rfl
  · rfl
  · rfl
  · rfl
  · simp only [List.length_cons] at short
    omega

/-- The bits of the characters are the bits that were written, and some zeros. -/
theorem values_ofBitList (bits : List Bool) : ∃ values more,
    (ofBitList bits).mapM value = some values ∧ more < 5 ∧
      values.flatMap (bitsOf 5) = bits ++ List.replicate more false := by
  fun_induction ofBitList bits with
  | case1 => exact ⟨[], 0, rfl, by decide, rfl⟩
  | case2 a b c d e rest ih =>
    obtain ⟨values, more, read, few, all⟩ := ih
    have small : ofBits [a, b, c, d, e] < 32 := ofBits_lt [a, b, c, d, e]
    refine ⟨ofBits [a, b, c, d, e] :: values, more, ?_, few, ?_⟩
    · rw [List.mapM_cons, value_digit small, read]
      rfl
    · have own : bitsOf 5 (ofBits [a, b, c, d, e]) = [a, b, c, d, e] :=
        bitsOf_ofBits [a, b, c, d, e]
      rw [List.flatMap_cons, own, all]
      rfl
  | case3 few some long =>
    have length : few.length < 5 ∧ 0 < few.length := by
      rcases few with _ | ⟨a, _ | ⟨b, _ | ⟨c, _ | ⟨d, _ | ⟨e, rest⟩⟩⟩⟩⟩
      · exact absurd rfl some
      · simp
      · simp
      · simp
      · simp
      · exact absurd rfl (long a b c d e rest)
    have full : (few ++ List.replicate (5 - few.length) false).length = 5 := by
      rw [List.length_append, List.length_replicate]
      omega
    have small := ofBits_lt (few ++ List.replicate (5 - few.length) false)
    have own := bitsOf_ofBits (few ++ List.replicate (5 - few.length) false)
    rw [full] at small own
    refine ⟨[ofBits (few ++ List.replicate (5 - few.length) false)], 5 - few.length, ?_, by omega, ?_⟩
    · rw [List.mapM_cons, value_digit small]
      rfl
    · rw [List.flatMap_singleton, own]

/-- The bits of bytes, and a few zeros after them, are the bytes again. -/
theorem toBytes_bits (data : List UInt8) {more : Nat} (few : more < 8) :
    toBytes (data.flatMap (fun byte => bitsOf 8 byte.toNat) ++ List.replicate more false) =
      data := by
  induction data with
  | nil =>
    have none_ : ∀ more < 8, toBytes (List.replicate more false) = [] := by decide
    exact none_ more few
  | cons byte data ih =>
    have own := ofBits_bitsOf 8 byte.toNat
    rw [Nat.mod_eq_of_lt byte.toNat_lt] at own
    have step (rest : List Bool) : toBytes (bitsOf 8 byte.toNat ++ rest) =
        UInt8.ofNat (ofBits (bitsOf 8 byte.toNat)) :: toBytes rest := rfl
    rw [List.flatMap_cons, List.append_assoc, step, own, UInt8.ofNat_toNat, ih]

theorem decode_ofBitList (data : List UInt8) :
    decode (ofBitList (data.flatMap fun byte => bitsOf 8 byte.toNat)) = some data := by
  obtain ⟨values, more, read, few, all⟩ :=
    values_ofBitList (data.flatMap fun byte => bitsOf 8 byte.toNat)
  have length : (data.flatMap fun byte => bitsOf 8 byte.toNat).length = 8 * data.length := by
    simp [List.length_flatMap, Nat.mul_comm]
  have whole : (values.flatMap (bitsOf 5)).length / 8 * 8 = 8 * data.length := by
    rw [all, List.length_append, length, List.length_replicate]
    omega
  have left : (values.flatMap (bitsOf 5)).drop (8 * data.length) = List.replicate more false := by
    rw [all, List.drop_append_of_le_length (Nat.le_of_eq length.symm), ← length, List.drop_length,
      List.nil_append]
  simp only [decode, read, whole, left]
  rw [if_pos ⟨by simpa using few, by simp⟩, all, toBytes_bits data (by omega)]

end Base32

end MailStack.Lib
