import MailStack.Lib.Json

/-! Bytes written as two hexadecimal digits each, and read back. -/

namespace MailStack.Lib

/-- The value of a digit of either case. -/
def readHexDigit (c : Char) : Option Nat :=
  if c.isDigit then some (c.toNat - 48)
  else if 'a' ≤ c ∧ c ≤ 'f' then some (c.toNat - 87)
  else if 'A' ≤ c ∧ c ≤ 'F' then some (c.toNat - 55)
  else none

def hexChars (b : UInt8) : List Char := [hexDigit (b.toNat / 16), hexDigit (b.toNat % 16)]

def hexEncode (data : List UInt8) : String := String.ofList (data.flatMap hexChars)

def hexDecodeChars : List Char → Option (List UInt8)
  | [] => some []
  | [_] => none
  | a :: b :: rest => do
    let high ← readHexDigit a
    let low ← readHexDigit b
    let data ← hexDecodeChars rest
    some (UInt8.ofNat (16 * high + low) :: data)

def hexDecode (s : String) : Option (List UInt8) := hexDecodeChars s.toList

theorem readHexDigit_hexDigit : ∀ n < 16, readHexDigit (hexDigit n) = some n := by decide

theorem hexDecodeChars_flatMap (data : List UInt8) :
    hexDecodeChars (data.flatMap hexChars) = some data := by
  induction data with
  | nil => rfl
  | cons b data ih =>
    have small : b.toNat < 256 := b.toNat_lt
    have high := readHexDigit_hexDigit (b.toNat / 16) (by omega)
    have low := readHexDigit_hexDigit (b.toNat % 16) (by omega)
    have joined : 16 * (b.toNat / 16) + b.toNat % 16 = b.toNat := by omega
    simp only [List.flatMap_cons, hexChars, List.cons_append, List.nil_append, hexDecodeChars, high,
      low, Option.bind_eq_bind, Option.bind_some]
    rw [ih, Option.bind_some, joined, UInt8.ofNat_toNat]

@[simp] theorem hexDecode_hexEncode
    (data : List UInt8) : hexDecode (hexEncode data) = some data := by
  rw [hexDecode, hexEncode, String.toList_ofList, hexDecodeChars_flatMap]

theorem utf8Size_hexDigit : ∀ n < 16, (hexDigit n).utf8Size = 1 := by decide

/-- Two characters for each byte, of one byte each. -/
theorem length_bytes_hexEncode (data : List UInt8) :
    (bytes (hexEncode data)).length = 2 * data.length := by
  rw [hexEncode, bytes_ofList]
  induction data with
  | nil => rfl
  | cons b data ih =>
    have small : b.toNat < 256 := b.toNat_lt
    have high := utf8Size_hexDigit (b.toNat / 16) (by omega)
    have low := utf8Size_hexDigit (b.toNat % 16) (by omega)
    simp only [List.flatMap_cons, hexChars, List.cons_append, List.nil_append, List.length_append,
      String.length_utf8EncodeChar, high, low, ih, List.length_cons]
    omega

theorem isAlphanum_of_mem_hexEncode {data : List UInt8} {c : Char}
    (mem : c ∈ (hexEncode data).toList) : c.isAlphanum = true := by
  have digits : ∀ n < 16, (hexDigit n).isAlphanum = true := by decide
  rw [hexEncode, String.toList_ofList] at mem
  obtain ⟨b, -, inside⟩ := List.mem_flatMap.mp mem
  have small : b.toNat < 256 := b.toNat_lt
  rcases List.mem_pair.mp inside with rfl | rfl
  · exact digits _ (by omega)
  · exact digits _ (by omega)

end MailStack.Lib
