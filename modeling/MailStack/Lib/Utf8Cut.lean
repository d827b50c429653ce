import MailStack.Lib.Utf8

/-! What is read of a UTF-8 text that is cut in the middle of a character. -/

namespace MailStack.Lib

variable {a b : UInt8} {front back part tail rest : List UInt8} {c : Char}

theorem isContinuation_iff : isContinuation a = true ↔ 0x80 ≤ a.toNat ∧ a.toNat ≤ 0xBF := by
  simp only [isContinuation, Bool.and_eq_true, decide_eq_true_eq, UInt8.le_iff_toNat_le,
    UInt8.reduceToNat]

/-- A continuation byte that continues nothing is replaced. -/
theorem lossyChars_continuation (continues : isContinuation a = true) :
    lossyChars (a :: rest) = replacement :: lossyChars rest := by
  rw [isContinuation_iff] at continues
  have notOne := mt (isOne_iff a).mp (by omega)
  have notTwo := mt (isTwo_iff a).mp (by omega)
  have notThree := mt (isThree_iff a).mp (by omega)
  have notFour := mt (isFour_iff a).mp (by omega)
  rw [lossyChars.eq_def]
  simp only [if_neg notOne, if_neg notTwo, if_neg notThree, if_neg notFour]

theorem lossyChars_continuations (continue_ : ∀ a ∈ tail, isContinuation a = true) :
    lossyChars (tail ++ rest) = List.replicate tail.length replacement ++ lossyChars rest := by
  induction tail with
  | nil => rfl
  | cons a tail ih =>
    rw [List.cons_append, lossyChars_continuation (continue_ a List.mem_cons_self),
      ih fun a mem => continue_ a (List.mem_cons_of_mem _ mem)]
    rfl

theorem lossyChars_first (low : 0xC2 ≤ a.toNat) (high : a.toNat ≤ 0xF4) :
    lossyChars [a] = [replacement] := by
  rw [lossyChars.eq_def]
  simp only [if_neg (mt (isOne_iff a).mp (by omega))]
  split_ifs with two three four
  · rfl
  · rfl
  · rfl
  · rw [isTwo_iff] at two
    rw [isThree_iff] at three
    rw [isFour_iff] at four
    omega

theorem lossyChars_second (low : 0xE0 ≤ a.toNat) (high : a.toNat ≤ 0xF4)
    (second : isSecond a b = true) : lossyChars [a, b] = [replacement] := by
  have notOne := mt (isOne_iff a).mp (by omega)
  have notTwo := mt (isTwo_iff a).mp (by omega)
  rw [lossyChars.eq_def]
  simp only [if_neg notOne, if_neg notTwo, second, if_true]
  split_ifs with three four
  · rfl
  · rfl
  · rw [isThree_iff] at three
    rw [isFour_iff] at four
    omega

theorem lossyChars_third {third : UInt8} (low : 0xF0 ≤ a.toNat) (high : a.toNat ≤ 0xF4)
    (second : isSecond a b = true) (continues : isContinuation third = true) :
    lossyChars [a, b, third] = [replacement] := by
  have notOne := mt (isOne_iff a).mp (by omega)
  have notTwo := mt (isTwo_iff a).mp (by omega)
  have notThree := mt (isThree_iff a).mp (by omega)
  have four := (isFour_iff a).mpr (by omega)
  rw [lossyChars.eq_def]
  simp only [if_neg notOne, if_neg notTwo, if_neg notThree, if_pos four, second, continues, if_true]

/-- There are no more characters than bytes. -/
theorem lossyChars_length (data : List UInt8) : (lossyChars data).length ≤ data.length := by
  fun_induction lossyChars data
  all_goals
    simp only [List.length_cons, List.length_nil] at *
    try omega

/-- The bytes of a character: one, or a first one and some that continue it. -/
inductive Encoded : List UInt8 → Prop
  | one {a : UInt8} (small : a.toNat < 0x80) : Encoded [a]
  | two {a b : UInt8} (low : 0xC2 ≤ a.toNat) (high : a.toNat ≤ 0xF4)
      (last : isContinuation b = true) : Encoded [a, b]
  | three {a b d : UInt8} (low : 0xE0 ≤ a.toNat) (high : a.toNat ≤ 0xF4)
      (second : isSecond a b = true) (next : isContinuation b = true)
      (last : isContinuation d = true) : Encoded [a, b, d]
  | four {a b d e : UInt8} (low : 0xF0 ≤ a.toNat) (high : a.toNat ≤ 0xF4)
      (second : isSecond a b = true) (next : isContinuation b = true)
      (third : isContinuation d = true) (last : isContinuation e = true) : Encoded [a, b, d, e]

theorem encoded (c : Char) : Encoded (String.utf8EncodeChar c) := by
  have scalar : c.val.toNat < 0xD800 ∨ 0xDFFF < c.val.toNat ∧ c.val.toNat < 0x110000 := c.valid
  simp only [String.utf8EncodeChar]
  generalize c.val.toNat = v at scalar ⊢
  split_ifs with one two three
  · refine .one ?_
    rw [byte_toNat (by omega)]
    omega
  · refine .two ?_ ?_ (isContinuation_encodedTail v)
    · rw [byte_toNat (by omega)]
      omega
    · rw [byte_toNat (by omega)]
      omega
  · have second : isSecond (UInt8.ofNat (v / 4096 % 16 + 224)) (encodedTail (v / 64)) = true := by
      rw [isSecond_iff, byte_toNat (by omega), encodedTail_toNat]
      omega
    refine .three ?_ ?_ second (isContinuation_encodedTail (v / 64)) (isContinuation_encodedTail v)
    · rw [byte_toNat (by omega)]
      omega
    · rw [byte_toNat (by omega)]
      omega
  · have second : isSecond (UInt8.ofNat (v / 262144 % 8 + 240)) (encodedTail (v / 4096)) =
        true := by
      rw [isSecond_iff, byte_toNat (by omega), encodedTail_toNat]
      omega
    refine .four ?_ ?_ second (isContinuation_encodedTail (v / 4096))
      (isContinuation_encodedTail (v / 64)) (isContinuation_encodedTail v)
    · rw [byte_toNat (by omega)]
      omega
    · rw [byte_toNat (by omega)]
      omega

/-- Some bytes are in no text. -/
theorem lt_of_mem_utf8EncodeChar (mem : a ∈ String.utf8EncodeChar c) : a.toNat < 0xF8 := by
  have shape := encoded c
  generalize String.utf8EncodeChar c = encoding at mem shape
  cases shape with
  | one ascii =>
    obtain rfl := List.mem_singleton.mp mem
    omega
  | two low high last =>
    simp only [List.mem_cons, List.not_mem_nil, or_false, isContinuation_iff] at mem last
    rcases mem with rfl | rfl <;> omega
  | three low high second next last =>
    simp only [List.mem_cons, List.not_mem_nil, or_false, isContinuation_iff] at mem next last
    rcases mem with rfl | rfl | rfl <;> omega
  | four low high second next third last =>
    simp only [List.mem_cons, List.not_mem_nil, or_false, isContinuation_iff] at mem next third last
    rcases mem with rfl | rfl | rfl | rfl <;> omega

/-- A character that is cut is replaced in its first part, and so is each byte of the other. -/
theorem utf8EncodeChar_cut (split : String.utf8EncodeChar c = front ++ back) (some_ : front ≠ [])
    (more : back ≠ []) :
    lossyChars front = [replacement] ∧ (∀ a ∈ back, isContinuation a = true) ∧ back.length ≤ 3 := by
  have shape := encoded c
  rw [split] at shape
  obtain ⟨x, front, rfl⟩ := List.exists_cons_of_ne_nil some_
  obtain ⟨y, back, rfl⟩ := List.exists_cons_of_ne_nil more
  have notNil (front : List UInt8) : front ++ y :: back ≠ [] := by simp
  generalize whole : x :: front ++ y :: back = encoding at shape
  cases shape with
  | one small => exact absurd (List.cons.inj whole).2 (notNil _)
  | two low high last =>
    obtain ⟨rfl, later⟩ := List.cons.inj whole
    rcases front with _ | ⟨z, front⟩
    · obtain ⟨rfl, rfl⟩ := List.cons.inj later
      exact ⟨lossyChars_first low high, by simpa using last, by simp⟩
    · exact absurd (List.cons.inj later).2 (notNil _)
  | three low high second next last =>
    obtain ⟨rfl, later⟩ := List.cons.inj whole
    rcases front with _ | ⟨z, front⟩
    · obtain ⟨rfl, rfl⟩ := List.cons.inj later
      exact ⟨lossyChars_first (by omega) high, by simp [next, last], by simp⟩
    obtain ⟨rfl, rest⟩ := List.cons.inj later
    rcases front with _ | ⟨w, front⟩
    · obtain ⟨rfl, rfl⟩ := List.cons.inj rest
      exact ⟨lossyChars_second low high second, by simpa using last, by simp⟩
    · exact absurd (List.cons.inj rest).2 (notNil _)
  | four low high second next third last =>
    obtain ⟨rfl, later⟩ := List.cons.inj whole
    rcases front with _ | ⟨z, front⟩
    · obtain ⟨rfl, rfl⟩ := List.cons.inj later
      exact ⟨lossyChars_first (by omega) high, by simp [next, third, last], by simp⟩
    obtain ⟨rfl, rest⟩ := List.cons.inj later
    rcases front with _ | ⟨w, front⟩
    · obtain ⟨rfl, rfl⟩ := List.cons.inj rest
      exact ⟨lossyChars_second (by omega) high second, by simp [third, last], by simp⟩
    obtain ⟨rfl, final⟩ := List.cons.inj rest
    rcases front with _ | ⟨u, front⟩
    · obtain ⟨rfl, rfl⟩ := List.cons.inj final
      exact ⟨lossyChars_third low high second third, by simpa using last, by simp⟩
    · exact absurd (List.cons.inj final).2 (notNil _)

/-- The bytes of some characters. -/
def encode (cs : List Char) : List UInt8 := cs.flatMap String.utf8EncodeChar

@[simp] theorem encode_nil : encode [] = [] := rfl

@[simp] theorem encode_cons (c : Char) (cs : List Char) :
    encode (c :: cs) = String.utf8EncodeChar c ++ encode cs := rfl

@[simp] theorem encode_append (cs ds : List Char) : encode (cs ++ ds) = encode cs ++ encode ds :=
  List.flatMap_append

theorem lossyChars_encode_append (cs : List Char) (rest : List UInt8) :
    lossyChars (encode cs ++ rest) = cs ++ lossyChars rest := by
  induction cs with
  | nil => rfl
  | cons c cs ih => rw [encode_cons, List.append_assoc, lossyChars_encode, ih, List.cons_append]

theorem lossyChars_encode_all (cs : List Char) : lossyChars (encode cs) = cs := by
  have all := lossyChars_encode_append cs []
  rw [List.append_nil] at all
  rw [all, lossyChars, List.append_nil]

theorem encode_injective {cs ds : List Char} (same : encode cs = encode ds) : cs = ds := by
  rw [← lossyChars_encode_all cs, same, lossyChars_encode_all]

/-- A text is cut between two characters or within one. -/
inductive Cut (cs : List Char) (n : Nat) : Prop
  | between (front back : List Char) (eq : cs = front ++ back)
      (before : (encode cs).take n = encode front) (after : (encode cs).drop n = encode back)
  | within (front : List Char) (c : Char) (back : List Char) (first second : List UInt8)
      (eq : cs = front ++ c :: back) (split : String.utf8EncodeChar c = first ++ second)
      (some_ : first ≠ []) (more : second ≠ [])
      (before : (encode cs).take n = encode front ++ first)
      (after : (encode cs).drop n = second ++ encode back)

theorem cut (cs : List Char) (n : Nat) : Cut cs n := by
  induction cs generalizing n with
  | nil => exact .between [] [] rfl (by simp) (by simp)
  | cons c cs ih =>
    by_cases whole : (String.utf8EncodeChar c).length ≤ n
    · cases ih (n - (String.utf8EncodeChar c).length) with
      | between front back eq before after =>
        refine .between (c :: front) back (by rw [eq]; rfl) ?_ ?_
        · rw [encode_cons, List.take_append, List.take_of_length_le whole, before]
          rfl
        · rw [encode_cons, List.drop_append, List.drop_eq_nil_of_le whole, List.nil_append, after]
      | within front d back first second eq split some_ more before after =>
        refine .within (c :: front) d back first second (by rw [eq]; rfl) split some_ more ?_ ?_
        · rw [encode_cons, List.take_append, List.take_of_length_le whole, before, encode_cons,
            List.append_assoc]
        · rw [encode_cons, List.drop_append, List.drop_eq_nil_of_le whole, List.nil_append, after]
    · by_cases none_ : n = 0
      · subst none_
        exact .between [] (c :: cs) rfl rfl rfl
      · have short : n - (String.utf8EncodeChar c).length = 0 := by omega
        refine .within [] c cs ((String.utf8EncodeChar c).take n) ((String.utf8EncodeChar c).drop n)
          rfl (List.take_append_drop n _).symm ?_ ?_ ?_ ?_
        · intro eq
          rcases List.take_eq_nil_iff.mp eq with zero | nil
          · exact none_ zero
          · exact String.utf8EncodeChar_ne_nil nil
        · intro eq
          exact whole (List.drop_eq_nil_iff.mp eq)
        · rw [encode_cons, List.take_append, short]
          simp
        · rw [encode_cons, List.drop_append, short]
          rfl

end MailStack.Lib
