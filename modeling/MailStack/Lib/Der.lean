import Mathlib.Data.List.Basic
import Mathlib.Data.Nat.Bitwise

/-! Elements of DER: a tag, a definite length and the content. -/

namespace MailStack.Lib.Der

/-- The number of some bytes, the highest first. -/
def ofBytes (data : List UInt8) : Nat := data.foldl (fun n byte => 256 * n + byte.toNat) 0

/-- A length and what follows it: one byte below 128, or the count of the bytes that have it, of
which there are no more than are needed. -/
def readLength : List UInt8 → Option (Nat × List UInt8)
  | [] => none
  | first :: rest =>
    if first.toNat < 0x80 then some (first.toNat, rest)
    else
      let count := first.toNat - 0x80
      let length := ofBytes (rest.take count)
      if count = 0 ∨ count = 127 ∨ rest.length < count then none
      else if rest.head? = some 0 ∨ length < 0x80 then none
      else some (length, rest.drop count)

/-- The content of the element of a tag, and what follows it. -/
def readElement (tag : UInt8) : List UInt8 → Option (List UInt8 × List UInt8)
  | [] => none
  | first :: rest =>
    match readLength rest with
    | some (length, rest) =>
      if first = tag ∧ length ≤ rest.length then some (rest.take length, rest.drop length) else none
    | none => none

/-- The bytes of a number, the lowest first. -/
@[grind =] def lowBytes (value : Nat) : List UInt8 :=
  if value = 0 then [] else UInt8.ofNat (value % 256) :: lowBytes (value / 256)
decreasing_by omega

theorem ofBytes_reverse_lowBytes (value : Nat) : ofBytes (lowBytes value).reverse = value := by
  rw [ofBytes, List.foldl_reverse]
  fun_induction lowBytes value with
  | case1 => rfl
  | case2 value some ih =>
    rw [List.foldr_cons, ih, UInt8.toNat_ofNat', Nat.mod_mod]
    omega

theorem length_lowBytes_le {value width : Nat} (small : value < 256 ^ width) :
    (lowBytes value).length ≤ width := by
  induction width generalizing value with
  | zero =>
    obtain rfl : value = 0 := by simpa using small
    simp [lowBytes]
  | succ width ih =>
    rw [lowBytes]
    split
    · exact Nat.zero_le _
    · rw [List.length_cons]
      have below : value / 256 < 256 ^ width := Nat.div_lt_of_lt_mul (by rwa [← Nat.pow_succ'])
      have := ih below
      omega

theorem lowBytes_ne_nil {value : Nat} (some : value ≠ 0) : lowBytes value ≠ [] := by
  rw [lowBytes, if_neg some]
  exact List.cons_ne_nil _ _

/-- The highest byte is not zero. -/
theorem getLast?_lowBytes (value : Nat) : (lowBytes value).getLast? ≠ some 0 := by
  fun_induction lowBytes value with
  | case1 => simp
  | case2 value some_ ih =>
    by_cases more : value / 256 = 0
    · have small : value % 256 = value := by omega
      rw [more, lowBytes, if_pos rfl, List.getLast?_singleton, small]
      intro zero
      have back := congrArg UInt8.toNat (Option.some.inj zero)
      rw [UInt8.toNat_ofNat', Nat.mod_eq_of_lt (by omega)] at back
      exact some_ back
    · obtain ⟨byte, rest, shape⟩ := List.exists_cons_of_ne_nil (lowBytes_ne_nil more)
      rw [shape] at ih ⊢
      rwa [List.getLast?_cons_cons]

/-- A length that is written in the short form. -/
theorem readLength_short {length : Nat} (small : length < 0x80) (rest : List UInt8) :
    readLength (UInt8.ofNat length :: rest) = some (length, rest) := by
  have value : (UInt8.ofNat length).toNat = length := by
    rw [UInt8.toNat_ofNat', Nat.mod_eq_of_lt (by omega)]
  rw [readLength, value, if_pos small]

/-- A length that is written in the long form. -/
theorem readLength_long {length : Nat} (big : 0x80 ≤ length) (fits : length < 256 ^ 126)
    (rest : List UInt8) :
    readLength ((0x80 ||| UInt8.ofNat (lowBytes length).length) ::
      ((lowBytes length).reverse ++ rest)) =
      some (length, rest) := by
  have count := length_lowBytes_le fits
  have some_ : 0 < (lowBytes length).length :=
    List.length_pos_of_ne_nil (lowBytes_ne_nil (by omega))
  have first : (0x80 ||| UInt8.ofNat (lowBytes length).length).toNat =
      0x80 + (lowBytes length).length := by
    rw [UInt8.toNat_or, UInt8.toNat_ofNat', Nat.mod_eq_of_lt (by omega)]
    exact (Nat.two_pow_add_eq_or_of_lt (i := 7) (by omega) 1).symm
  have width : (lowBytes length).reverse.length = (lowBytes length).length := List.length_reverse
  have taken : ((lowBytes length).reverse ++ rest).take (lowBytes length).length =
      (lowBytes length).reverse := by rw [← width, List.take_left]
  have dropped : ((lowBytes length).reverse ++ rest).drop (lowBytes length).length = rest := by
    rw [← width, List.drop_left]
  have head : ((lowBytes length).reverse ++ rest).head? ≠ some 0 := by
    rw [List.head?_append_of_ne_nil _ (by simpa using lowBytes_ne_nil (by omega)),
      List.head?_reverse]
    exact getLast?_lowBytes length
  have enough : ¬((lowBytes length).reverse ++ rest).length < (lowBytes length).length := by
    rw [List.length_append, width]
    omega
  simp only [readLength, first, Nat.add_sub_cancel_left, taken, dropped, ofBytes_reverse_lowBytes]
  rw [if_neg (by omega), if_neg (by omega), if_neg (by simp only [head, false_or]; omega)]

end MailStack.Lib.Der
