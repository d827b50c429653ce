import MailStack.Core.Totp
import MailStack.Smtp.Client
import MailStack.Webmail.EncodedWords

/-! How file names are written in parameters, and that what the encoders write is read back. -/

namespace MailStack.Webmail

open Lib

/-- The loop of `percent_decode`. -/
def percentDecodeBytes : List UInt8 → Option (List UInt8)
  | [] => some []
  | byte :: rest =>
    if byte = 37 then
      match rest with
      | high :: low :: rest =>
        match hexValue high, hexValue low with
        | some high, some low => (percentDecodeBytes rest).map ((high <<< 4 ||| low) :: ·)
        | _, _ => none
      | _ => none
    else (percentDecodeBytes rest).map (byte :: ·)

def percentDecode (value : String) : Option (List UInt8) := percentDecodeBytes (bytes value)

theorem hexValue_hexChars (byte : UInt8) : ∃ high low,
    ((hexChars byte).map Char.toUpper).flatMap String.utf8EncodeChar = [high, low] ∧
      ∃ a b, hexValue high = some a ∧ hexValue low = some b ∧ a <<< 4 ||| b = byte := by
  have digit : ∀ n < 16, ∃ d, String.utf8EncodeChar (hexDigit n).toUpper = [d] ∧
      hexValue d = some (UInt8.ofNat n) := by
    have digits : ∀ n < 16, hexValue (UInt8.ofNat (hexDigit n).toUpper.val.toNat) =
        some (UInt8.ofNat n) ∧ (hexDigit n).toUpper.val.toNat ≤ 127 := by decide
    intro n small
    refine ⟨_, ?_, (digits n small).1⟩
    rw [String.utf8EncodeChar, if_pos (digits n small).2]
  have small : byte.toNat < 256 := byte.toNat_lt
  obtain ⟨high, first, highValue⟩ := digit (byte.toNat / 16) (by omega)
  obtain ⟨low, second, lowValue⟩ := digit (byte.toNat % 16) (by omega)
  refine ⟨high, low, ?_, _, _, highValue, lowValue, ?_⟩
  · simp only [hexChars, List.map_cons, List.map_nil, List.flatMap_cons, first, second]
    rfl
  · apply UInt8.toNat_inj.mp
    have shift : (4 : UInt8).toNat % 8 = 4 := rfl
    rw [UInt8.toNat_or, UInt8.toNat_shiftLeft, byte_toNat (by omega), byte_toNat (by omega), shift,
      Nat.shiftLeft_eq, Nat.mod_eq_of_lt (by omega), ← Nat.shiftLeft_eq,
      ← Nat.shiftLeft_add_eq_or_of_lt (by omega), Nat.shiftLeft_eq]
    omega

theorem utf8EncodeChar_attributeByte {byte : UInt8} (own : isAttributeByte byte = true) :
    String.utf8EncodeChar (Char.ofNat byte.toNat) = [byte] ∧ byte ≠ 37 := by
  have all : ∀ n < 256, isAttributeByte (UInt8.ofNat n) = true →
      String.utf8EncodeChar (Char.ofNat n) = [UInt8.ofNat n] ∧ UInt8.ofNat n ≠ 37 := by
    decide +kernel
  have whole := all byte.toNat byte.toNat_lt
  rw [UInt8.ofNat_toNat] at whole
  exact whole own

theorem percentDecodeBytes_other {byte : UInt8} (other : byte ≠ 37) (rest : List UInt8) :
    percentDecodeBytes (byte :: rest) = (percentDecodeBytes rest).map (byte :: ·) := by
  rw [percentDecodeBytes.eq_def]
  exact if_neg other

theorem percentDecode_rfc2231Encode (filename : String) :
    percentDecode (rfc2231Encode filename) = some (bytes filename) := by
  rw [percentDecode, rfc2231Encode, bytes_ofList]
  induction bytes filename with
  | nil => rfl
  | cons byte rest ih =>
    rw [List.flatMap_cons, List.flatMap_append]
    split
    · next own =>
      obtain ⟨one, notPercent⟩ := utf8EncodeChar_attributeByte own
      rw [List.flatMap_singleton, one, List.singleton_append, percentDecodeBytes_other notPercent, ih]
      rfl
    · obtain ⟨high, low, digits, a, b, first, second, whole⟩ := hexValue_hexChars byte
      have percent : String.utf8EncodeChar '%' = [37] := by decide
      rw [List.flatMap_cons, digits, percent]
      simp only [List.cons_append, List.nil_append, percentDecodeBytes, if_true, first, second, ih,
        whole, Option.map_some]

/-- What each of the encoders writes is read back by the decoder of its standard, so that no two
values are written alike. -/
theorem encoders_read_back :
    (∀ data : List UInt8, Base32.decode (Core.base32Encode data).toList = some data) ∧
    (∀ input : String, Lib.Base64.decode (Smtp.base64 input).toList = some (bytes input)) ∧
    (∀ filename : String, percentDecode (rfc2231Encode filename) = some (bytes filename)) ∧
    Function.Injective Core.base32Encode ∧ Function.Injective Smtp.base64 ∧
    Function.Injective rfc2231Encode := by
  have secret (data : List UInt8) :
      Base32.decode (Core.base32Encode data).toList = some data := by
    rw [Core.toList_base32Encode, Base32.decode_ofBitList]
  have credential (input : String) :
      Lib.Base64.decode (Smtp.base64 input).toList = some (bytes input) := by
    rw [Smtp.base64, String.toList_ofList, Smtp.base64Chunks_eq, Lib.Base64.decode_encode]
  have text {s t : String} (same : some (bytes s) = some (bytes t)) : s = t := by
    rw [← fromUtf8Lossy_bytes s, Option.some.inj same, fromUtf8Lossy_bytes]
  refine ⟨secret, credential, percentDecode_rfc2231Encode, fun a b same => ?_, fun a b same => ?_,
    fun a b same => ?_⟩
  · exact Option.some.inj (by rw [← secret a, same, secret])
  · exact text (by rw [← credential a, same, credential])
  · exact text (by rw [← percentDecode_rfc2231Encode a, same, percentDecode_rfc2231Encode])

end MailStack.Webmail
