import Mathlib.Data.List.Basic

/-! Bytes in base64, three in four characters, and padding where there are fewer. -/

namespace MailStack.Lib.Base64

def alphabet : List Char :=
  "ABCDEFGHIJKLMNOPQRSTUVWXYZabcdefghijklmnopqrstuvwxyz0123456789+/".toList

/-- The character of six bits. -/
def digit (n : Nat) : Char := alphabet.getD n 'A'

def value (c : Char) : Option Nat := alphabet.idxOf? c

@[grind =] def encode : List UInt8 → List Char
  | [] => []
  | [a] => [digit (a.toNat / 4), digit (a.toNat % 4 * 16), '=', '=']
  | [a, b] =>
    [digit (a.toNat / 4), digit (a.toNat % 4 * 16 + b.toNat / 16), digit (b.toNat % 16 * 4), '=']
  | a :: b :: c :: rest =>
    digit (a.toNat / 4) :: digit (a.toNat % 4 * 16 + b.toNat / 16) ::
      digit (b.toNat % 16 * 4 + c.toNat / 64) :: digit (c.toNat % 64) :: encode rest

/-- The bits that padding leaves over have to be zero. -/
@[grind =] def decode : List Char → Option (List UInt8)
  | [] => some []
  | w :: x :: y :: z :: rest =>
    match value w, value x, value y, value z with
    | some w, some x, some y, some z =>
      (decode rest).map ([UInt8.ofNat (w * 4 + x / 16), UInt8.ofNat (x % 16 * 16 + y / 4),
        UInt8.ofNat (y % 4 * 64 + z)] ++ ·)
    | some w, some x, some y, none =>
      if z = '=' ∧ rest = [] ∧ y % 4 = 0 then
        some [UInt8.ofNat (w * 4 + x / 16), UInt8.ofNat (x % 16 * 16 + y / 4)]
      else none
    | some w, some x, none, none =>
      if y = '=' ∧ z = '=' ∧ rest = [] ∧ x % 16 = 0 then some [UInt8.ofNat (w * 4 + x / 16)] else none
    | _, _, _, _ => none
  | _ => none

/-- The padding is left out. -/
def decodeNoPad (text : List Char) : Option (List UInt8) :=
  if '=' ∈ text then none else decode (text ++ List.replicate ((4 - text.length % 4) % 4) '=')

/-- Two of the characters are others, and the padding is left out. -/
def encodeUrlSafeNoPad (data : List UInt8) : List Char :=
  ((encode data).filter (· ≠ '=')).map fun c => if c = '+' then '-' else if c = '/' then '_' else c

theorem value_digit {n : Nat} (h : n < 64) : value (digit n) = some n := by
  have all : ∀ n < 64, value (digit n) = some n := by decide
  exact all n h

theorem value_padding : value '=' = none := by decide

/-- A character of the text is a letter, a digit or one of three marks. -/
theorem mem_encode {data : List UInt8} {c : Char} (mem : c ∈ encode data) :
    c.isAlphanum = true ∨ c = '+' ∨ c = '/' ∨ c = '=' := by
  have digits (n : Nat) : (digit n).isAlphanum = true ∨ digit n = '+' ∨ digit n = '/' ∨
      digit n = '=' := by
    have all : (alphabet.all fun c => c.isAlphanum || c == '+' || c == '/' || c == '=') = true := by
      decide
    rw [digit, List.getD_eq_getElem?_getD]
    cases found : alphabet[n]? with
    | none => exact .inl (by decide)
    | some d => simpa [or_assoc] using List.all_eq_true.mp all d (List.mem_of_getElem? found)
  fun_induction encode data with
  | case1 => cases mem
  | case2 a =>
    simp only [List.mem_cons, List.not_mem_nil, or_false] at mem
    rcases mem with rfl | rfl | rfl | rfl
    · exact digits _
    · exact digits _
    · exact .inr (.inr (.inr rfl))
    · exact .inr (.inr (.inr rfl))
  | case3 a b =>
    simp only [List.mem_cons, List.not_mem_nil, or_false] at mem
    rcases mem with rfl | rfl | rfl | rfl
    · exact digits _
    · exact digits _
    · exact digits _
    · exact .inr (.inr (.inr rfl))
  | case4 a b c rest ih =>
    simp only [List.mem_cons] at mem
    rcases mem with rfl | rfl | rfl | rfl | later
    · exact digits _
    · exact digits _
    · exact digits _
    · exact digits _
    · exact ih later

theorem length_encode (data : List UInt8) : (encode data).length = 4 * ((data.length + 2) / 3) := by
  fun_induction encode data with
  | case1 => rfl
  | case2 a => simp
  | case3 a b => simp
  | case4 a b c rest ih =>
    simp only [List.length_cons, ih]
    omega

theorem decode_encode (data : List UInt8) : decode (encode data) = some data := by
  fun_induction encode data with
  | case1 => rw [decode]
  | case2 a =>
    have small := a.toNat_lt
    have first : (a.toNat / 4) * 4 + a.toNat % 4 * 16 / 16 = a.toNat := by omega
    rw [decode, value_digit (by omega), value_digit (by omega), value_padding]
    dsimp only
    rw [if_pos ⟨rfl, rfl, rfl, by omega⟩, first, UInt8.ofNat_toNat]
  | case3 a b =>
    have smallA := a.toNat_lt
    have smallB := b.toNat_lt
    have first : (a.toNat / 4) * 4 + (a.toNat % 4 * 16 + b.toNat / 16) / 16 = a.toNat := by omega
    have second : (a.toNat % 4 * 16 + b.toNat / 16) % 16 * 16 + b.toNat % 16 * 4 / 4 = b.toNat := by
      omega
    rw [decode, value_digit (by omega), value_digit (by omega), value_digit (by omega),
      value_padding]
    dsimp only
    rw [if_pos ⟨rfl, rfl, by omega⟩, first, second, UInt8.ofNat_toNat, UInt8.ofNat_toNat]
  | case4 a b c rest ih =>
    have smallA := a.toNat_lt
    have smallB := b.toNat_lt
    have smallC := c.toNat_lt
    have first : (a.toNat / 4) * 4 + (a.toNat % 4 * 16 + b.toNat / 16) / 16 = a.toNat := by omega
    have second : (a.toNat % 4 * 16 + b.toNat / 16) % 16 * 16 +
        (b.toNat % 16 * 4 + c.toNat / 64) / 4 = b.toNat := by
      omega
    have third : (b.toNat % 16 * 4 + c.toNat / 64) % 4 * 64 + c.toNat % 64 = c.toNat := by omega
    rw [decode, value_digit (by omega), value_digit (by omega), value_digit (by omega),
      value_digit (by omega)]
    dsimp only
    rw [ih, first, second, third, UInt8.ofNat_toNat, UInt8.ofNat_toNat, UInt8.ofNat_toNat]
    rfl

theorem length_decode {text : List Char} {data : List UInt8} (h : decode text = some data) :
    data.length ≤ text.length := by
  fun_induction decode text generalizing data with
  | case1 =>
    obtain rfl := Option.some.inj h
    exact Nat.le_refl _
  | case2 w x y z rest wv xv yv zv hw hx hy hz ih =>
    obtain ⟨more, read, rfl⟩ := Option.map_eq_some_iff.mp h
    have := ih read
    simp only [List.length_append, List.length_cons, List.length_nil]
    omega
  | case3 w x y z rest wv xv yv hw hx hy hz full =>
    obtain rfl := Option.some.inj h
    simp
  | case4 => cases h
  | case5 w x y z rest wv xv hw hx hy hz full =>
    obtain rfl := Option.some.inj h
    simp
  | case6 => cases h
  | case7 => cases h
  | case8 => cases h

end MailStack.Lib.Base64
