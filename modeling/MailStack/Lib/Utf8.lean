import MailStack.Lib.Text

/-! Reading text back from its UTF-8 encoding. -/

namespace MailStack.Lib

theorem byte_toNat {n : Nat} (h : n < 256) : (UInt8.ofNat n).toNat = n := by
  rw [UInt8.toNat_ofNat', Nat.mod_eq_of_lt h]

theorem isSecond_iff {a b : UInt8} :
    isSecond a b = true ↔ (0x80 ≤ b.toNat ∧ b.toNat ≤ 0xBF) ∧
      (a.toNat = 0xE0 → 0xA0 ≤ b.toNat) ∧ (a.toNat = 0xED → b.toNat ≤ 0x9F) ∧
      (a.toNat = 0xF0 → 0x90 ≤ b.toNat) ∧ (a.toNat = 0xF4 → b.toNat ≤ 0x8F) := by
  simp only [isSecond, isContinuation, ← UInt8.toNat_inj, UInt8.le_iff_toNat_le, UInt8.reduceToNat]
  split_ifs <;> simp only [Bool.and_eq_true, decide_eq_true_eq] <;> omega

/-- The bytes of an encoding after the first. -/
def encodedTail (v : Nat) : UInt8 := UInt8.ofNat (v % 64 + 128)

theorem encodedTail_toNat (v : Nat) : (encodedTail v).toNat = v % 64 + 128 :=
  byte_toNat (by omega)

theorem isContinuation_encodedTail (v : Nat) : isContinuation (encodedTail v) = true := by
  simp only [isContinuation, Bool.and_eq_true, decide_eq_true_eq, UInt8.le_iff_toNat_le,
    UInt8.reduceToNat, encodedTail_toNat]
  omega

/-! The classes of first bytes that the decoder goes by. -/

theorem isOne_iff (a : UInt8) : a < 0x80 ↔ a.toNat < 0x80 := by
  simp only [UInt8.lt_iff_toNat_lt, UInt8.reduceToNat]

theorem isTwo_iff (a : UInt8) :
    (0xC2 ≤ a && a ≤ 0xDF) = true ↔ 0xC2 ≤ a.toNat ∧ a.toNat ≤ 0xDF := by
  simp only [Bool.and_eq_true, decide_eq_true_eq, UInt8.le_iff_toNat_le, UInt8.reduceToNat]

theorem isThree_iff (a : UInt8) :
    (0xE0 ≤ a && a ≤ 0xEF) = true ↔ 0xE0 ≤ a.toNat ∧ a.toNat ≤ 0xEF := by
  simp only [Bool.and_eq_true, decide_eq_true_eq, UInt8.le_iff_toNat_le, UInt8.reduceToNat]

theorem isFour_iff (a : UInt8) :
    (0xF0 ≤ a && a ≤ 0xF4) = true ↔ 0xF0 ≤ a.toNat ∧ a.toNat ≤ 0xF4 := by
  simp only [Bool.and_eq_true, decide_eq_true_eq, UInt8.le_iff_toNat_le, UInt8.reduceToNat]

section Lead

variable {a : UInt8} {rest : List UInt8} {v : Nat}

theorem lossyChars_two (lead : a.toNat = v / 64 + 0xC0) (low : 0x80 ≤ v) (high : v ≤ 0x7FF) :
    lossyChars (a :: encodedTail v :: rest) = Char.ofNat v :: lossyChars rest := by
  have notOne := mt (isOne_iff a).mp (by omega)
  have two := (isTwo_iff a).mpr (by omega)
  have value : joinBits 3 a [encodedTail v] = Char.ofNat v := by
    simp only [joinBits, List.foldl_cons, List.foldl_nil, lead, encodedTail_toNat]
    congr 1
    omega
  rw [lossyChars.eq_def]
  simp only [if_neg notOne, if_pos two, isContinuation_encodedTail, if_true, value]

theorem lossyChars_three (lead : a.toNat = v / 4096 + 0xE0) (low : 0x800 ≤ v) (high : v ≤ 0xFFFF)
    (scalar : v < 0xD800 ∨ 0xDFFF < v) :
    lossyChars (a :: encodedTail (v / 64) :: encodedTail v :: rest) =
      Char.ofNat v :: lossyChars rest := by
  have notOne := mt (isOne_iff a).mp (by omega)
  have notTwo := mt (isTwo_iff a).mp (by omega)
  have three := (isThree_iff a).mpr (by omega)
  have second : isSecond a (encodedTail (v / 64)) = true := by
    rw [isSecond_iff, lead, encodedTail_toNat]
    omega
  have value : joinBits 4 a [encodedTail (v / 64), encodedTail v] = Char.ofNat v := by
    simp only [joinBits, List.foldl_cons, List.foldl_nil, lead, encodedTail_toNat]
    congr 1
    omega
  rw [lossyChars.eq_def]
  simp only [if_neg notOne, if_neg notTwo, if_pos three, second, isContinuation_encodedTail, if_true,
    value]

theorem lossyChars_four (lead : a.toNat = v / 262144 + 0xF0) (low : 0x10000 ≤ v)
    (high : v < 0x110000) :
    lossyChars (a :: encodedTail (v / 4096) :: encodedTail (v / 64) :: encodedTail v :: rest) =
      Char.ofNat v :: lossyChars rest := by
  have notOne := mt (isOne_iff a).mp (by omega)
  have notTwo := mt (isTwo_iff a).mp (by omega)
  have notThree := mt (isThree_iff a).mp (by omega)
  have four := (isFour_iff a).mpr (by omega)
  have second : isSecond a (encodedTail (v / 4096)) = true := by
    rw [isSecond_iff, lead, encodedTail_toNat]
    omega
  have value : joinBits 5 a [encodedTail (v / 4096), encodedTail (v / 64), encodedTail v] =
      Char.ofNat v := by
    simp only [joinBits, List.foldl_cons, List.foldl_nil, lead, encodedTail_toNat]
    congr 1
    omega
  rw [lossyChars.eq_def]
  simp only [if_neg notOne, if_neg notTwo, if_neg notThree, if_pos four, second,
    isContinuation_encodedTail, if_true, value]

end Lead

/-- A character is read back from its encoding. -/
theorem lossyChars_encode (c : Char) (rest : List UInt8) :
    lossyChars (String.utf8EncodeChar c ++ rest) = c :: lossyChars rest := by
  have scalar : c.val.toNat < 0xD800 ∨ 0xDFFF < c.val.toNat ∧ c.val.toNat < 0x110000 := c.valid
  have back : Char.ofNat c.val.toNat = c := Char.ofNat_toNat c
  refine Eq.trans ?_ (congrArg (· :: lossyChars rest) back)
  simp only [String.utf8EncodeChar]
  generalize c.val.toNat = v at scalar ⊢
  split_ifs with one two three
  · have small : UInt8.ofNat v < 0x80 := by
      rw [isOne_iff, byte_toNat (by omega)]
      exact Nat.lt_succ_of_le one
    rw [List.singleton_append, lossyChars.eq_def]
    simp only [if_pos small, byte_toNat (show v < 256 by omega)]
  · refine lossyChars_two (v := v) ?_ (by omega) two
    rw [byte_toNat (by omega)]
    omega
  · refine lossyChars_three (v := v) ?_ (by omega) three (by omega)
    rw [byte_toNat (by omega)]
    omega
  · refine lossyChars_four (v := v) ?_ (by omega) (by omega)
    rw [byte_toNat (by omega)]
    omega

/-- The encoding of a character is its own byte, or it has no ASCII byte. -/
theorem utf8EncodeChar_cases (c : Char) :
    (c.val.toNat < 0x80 ∧ String.utf8EncodeChar c = [UInt8.ofNat c.val.toNat]) ∨
      (0x80 ≤ c.val.toNat ∧ ∀ byte ∈ String.utf8EncodeChar c, 0x80 ≤ byte.toNat) := by
  by_cases ascii : c.val.toNat < 0x80
  · refine .inl ⟨ascii, ?_⟩
    rw [String.utf8EncodeChar, if_pos (Nat.le_of_lt_succ ascii)]
  · refine .inr ⟨by omega, fun byte mem => ?_⟩
    by_contra small
    have own := (ascii_mem_utf8EncodeChar mem (by omega)).1
    omega

/-- A text is read back from its encoding. -/
theorem fromUtf8Lossy_bytes (s : String) : fromUtf8Lossy (bytes s) = s := by
  have chars : ∀ cs : List Char, lossyChars (cs.flatMap String.utf8EncodeChar) = cs := by
    intro cs
    induction cs with
    | nil => rfl
    | cons c cs ih => rw [List.flatMap_cons, lossyChars_encode, ih]
  rw [fromUtf8Lossy, bytes, chars, String.ofList_toList]

theorem byteArray_bytes (s : String) : (⟨(bytes s).toArray⟩ : ByteArray) = s.toByteArray := by
  rw [← String.utf8Encode_toList]
  apply ByteArray.ext
  simp [List.utf8Encode, bytes]

theorem fromUtf8_bytes (s : String) : fromUtf8 (bytes s) = some s := by
  rw [fromUtf8, byteArray_bytes, String.fromUTF8?, dif_pos s.isValidUTF8]
  exact congrArg some (String.toByteArray_inj.mp rfl)

/-- A text that is read is the one of the bytes. -/
theorem bytes_of_fromUtf8 {data : List UInt8} {s : String} (h : fromUtf8 data = some s) :
    bytes s = data := by
  unfold fromUtf8 String.fromUTF8? at h
  split at h
  · have same := byteArray_bytes s
    obtain rfl := Option.some.inj h
    exact congrArg (fun array => array.data.toList) same
  · cases h

end MailStack.Lib
