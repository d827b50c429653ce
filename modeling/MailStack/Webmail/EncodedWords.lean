import MailStack.Lib.Utf8Cut
import MailStack.Webmail.Compose

/-! The encoded words of a header value and how they are read. -/

namespace MailStack.Webmail

open Lib

/-- The encodings that are looked up by their labels, and the one that is taken where there is
none. -/
structure Charsets where
  forLabel : String → Option (List UInt8 → String)
  windows1252 : List UInt8 → String

section Decoding

variable (codec : Base64) (charsets : Charsets)

def decodeCharset (data : List UInt8) (charset : Option String) : String :=
  if data.isEmpty then ""
  else
    let label := (charset.map trim).filter fun label => !label.isEmpty
    match label.bind fun label => charsets.forLabel (trimMatches '"' label) with
    | some decode => decode data
    | none =>
      match fromUtf8 data with
      | some value => value
      | none => charsets.windows1252 data

/-- The text without white space, and with the padding that it lacks. -/
def decodeBase64Relaxed (text : List Char) : Option (List UInt8) :=
  let cleaned := text.filter fun c => !isWhitespace c
  codec.decode (String.ofList (cleaned ++ List.replicate ((4 - cleaned.length % 4) % 4) '='))

def hexValue (byte : UInt8) : Option UInt8 :=
  if 48 ≤ byte && byte ≤ 57 then some (byte - 48)
  else if 97 ≤ byte && byte ≤ 102 then some (byte - 97 + 10)
  else if 65 ≤ byte && byte ≤ 70 then some (byte - 65 + 10)
  else none

def decodeQEncoding : List UInt8 → Option (List UInt8)
  | [] => some []
  | 95 :: rest => (decodeQEncoding rest).map (32 :: ·)
  | 61 :: high :: low :: rest =>
    match hexValue high, hexValue low with
    | some high, some low => (decodeQEncoding rest).map ((high * 16 + low) :: ·)
    | _, _ => none
  | 61 :: _ => none
  | other :: rest => (decodeQEncoding rest).map (other :: ·)

/-- The text of an encoded word that the input begins with, and how many characters it has. -/
def parseEncodedWord (input : List Char) : Option (List Char × Nat) :=
  match input with
  | '=' :: '?' :: rest =>
    match splitOnceChars '?' rest with
    | none => none
    | some (charset, afterCharset) =>
      if charset.isEmpty || (encode charset).length > 64 then none
      else
        match afterCharset with
        | encoding :: '?' :: textRest =>
          if encoding = '?' || encoding.val ≥ 128 then none
          else
            match splitOnceAt ['?', '='] textRest with
            | none => none
            | some (text, _) =>
              if !text.all (fun c => c.val < 128) || text.length > 4096 then none
              else
                let data := match encoding.toUpper with
                  | 'B' => decodeBase64Relaxed codec text
                  | 'Q' => decodeQEncoding (encode text)
                  | _ => none
                let label := String.ofList (charset.takeWhile (· ≠ '*'))
                data.map fun data => ((decodeCharset charsets data (some label)).toList,
                  2 + charset.length + 3 + text.length + 2)
        | _ => none
  | _ => none

/-- The characters that `is_ascii_whitespace` accepts. -/
def isAsciiWhitespace (c : Char) : Bool := c = ' ' || c = '\t' || c = '\n' || c = '\x0c' || c = '\r'

/-- The loop over the characters, of which some are still to be skipped. White space is dropped
between two words. -/
@[grind =] def decodeLoop : Nat → Bool → List Char → List Char
  | _, _, [] => []
  | skip + 1, lastWasEncoded, _ :: rest => decodeLoop skip lastWasEncoded rest
  | 0, lastWasEncoded, c :: rest =>
    match parseEncodedWord codec charsets (c :: rest) with
    | some (decoded, consumed) => decoded ++ decodeLoop (consumed - 1) true rest
    | none =>
      let blanks := (c :: rest).takeWhile isAsciiWhitespace
      if lastWasEncoded && isAsciiWhitespace c &&
          (parseEncodedWord codec charsets ((c :: rest).drop blanks.length)).isSome then
        decodeLoop (blanks.length - 1) true rest
      else c :: decodeLoop 0 false rest

def decodeRfc2047 (input : String) : String :=
  if containsText input "=?" then String.ofList (decodeLoop codec charsets 0 false input.toList)
  else input

end Decoding

end MailStack.Webmail

/-! What is read of an encoded word is shorter than the word, so a text with one is not read as
itself. -/

namespace MailStack.Webmail

open Lib

/-- What the `base64` crate documents of its standard engine. -/
structure Base64.Standard (codec : Base64) : Prop where
  alphabet : ∀ data, ∀ c ∈ (codec.encode data).toList,
    c.isAlphanum = true ∨ c = '+' ∨ c = '/' ∨ c = '='
  size : ∀ data, (codec.encode data).length = 4 * ((data.length + 2) / 3)
  inverts : ∀ data, codec.decode (codec.encode data) = some data
  shortens : ∀ text data, codec.decode text = some data → data.length ≤ text.length

/-- The data without a mark that says it is UTF-8. -/
def withoutBom (data : List UInt8) : List UInt8 :=
  if [0xEF, 0xBB, 0xBF].isPrefixOf data then data.drop 3 else data

/-- What is known of the decoders: UTF-8 replaces what is invalid, after marks of UTF-8 and UTF-16
were looked for, and none makes more characters than there are bytes and one. -/
structure Charsets.Documented (charsets : Charsets) : Prop where
  utf8 : ∃ decode, charsets.forLabel "UTF-8" = some decode ∧
    ∀ data, ¬[0xFF, 0xFE] <+: data → ¬[0xFE, 0xFF] <+: data →
      decode data = fromUtf8Lossy (withoutBom data)
  labelled : ∀ label decode, charsets.forLabel label = some decode →
    ∀ data, (decode data).length ≤ data.length + 1
  windows1252 : ∀ data, (charsets.windows1252 data).length ≤ data.length + 1

variable {codec : Base64} {charsets : Charsets} {data : List UInt8} {text cs decoded : List Char}
  {consumed : Nat}

theorem length_le_encode (cs : List Char) : cs.length ≤ (encode cs).length := by
  induction cs with
  | nil => exact Nat.le_refl _
  | cons c cs ih =>
    have some_ : 1 ≤ (String.utf8EncodeChar c).length := by
      have shape := encoded c
      generalize String.utf8EncodeChar c = encoding at shape
      cases shape with
      | one | two | three | four => simp
    rw [encode_cons, List.length_append, List.length_cons]
    omega

theorem length_encode_of_ascii
    (ascii : ∀ c ∈ cs, c.val < 128) : (encode cs).length = cs.length := by
  induction cs with
  | nil => rfl
  | cons c cs ih =>
    have small : c.val.toNat ≤ 0x7f := by
      have here := UInt32.lt_iff_toNat_lt.mp (ascii c List.mem_cons_self)
      simp only [UInt32.reduceToNat] at here
      omega
    rw [encode_cons, List.length_append, ih fun d mem => ascii d (List.mem_cons_of_mem _ mem),
      String.utf8EncodeChar, if_pos small]
    simp only [List.length_cons, List.length_nil]
    omega

theorem length_le_of_fromUtf8 {value : String} (h : fromUtf8 data = some value) :
    value.length ≤ data.length := by
  rw [← bytes_of_fromUtf8 h, ← String.length_toList]
  exact length_le_encode value.toList

theorem decodeCharset_length (documented : charsets.Documented) (data : List UInt8)
    (charset : Option String) : (decodeCharset charsets data charset).length ≤ data.length + 1 := by
  unfold decodeCharset
  split
  · exact Nat.zero_le _
  · dsimp only
    split
    next decode found =>
      obtain ⟨label, -, looked⟩ := Option.bind_eq_some_iff.mp found
      exact documented.labelled _ decode looked data
    next =>
      split
      next value read => exact (length_le_of_fromUtf8 read).trans (Nat.le_succ _)
      next => exact documented.windows1252 data

theorem decodeBase64Relaxed_length (standard : codec.Standard)
    (h : decodeBase64Relaxed codec text = some data) : data.length ≤ text.length + 3 := by
  have short := standard.shortens _ _ h
  rw [String.length_ofList, List.length_append, List.length_replicate] at short
  have fewer := List.length_filter_le (fun c => !isWhitespace c) text
  omega

theorem decodeQEncoding_length {input : List UInt8} (h : decodeQEncoding input = some data) :
    data.length ≤ input.length := by
  fun_induction decodeQEncoding input generalizing data with
  | case1 =>
    obtain rfl := Option.some.inj h
    exact Nat.le_refl _
  | case2 rest ih =>
    obtain ⟨more, read, rfl⟩ := Option.map_eq_some_iff.mp h
    exact Nat.succ_le_succ (ih read)
  | case3 first second rest high low secondEq firstEq ih =>
    obtain ⟨more, read, rfl⟩ := Option.map_eq_some_iff.mp h
    have := ih read
    simp only [List.length_cons]
    omega
  | case4 => cases h
  | case5 => cases h
  | case6 other rest notBlank notPair notSign ih =>
    obtain ⟨more, read, rfl⟩ := Option.map_eq_some_iff.mp h
    exact Nat.succ_le_succ (ih read)

theorem splitOnceAt_eq_some {sep s before after : List Char}
    (h : splitOnceAt sep s = some (before, after)) : s = before ++ sep ++ after := by
  induction s generalizing before with
  | nil =>
    rw [splitOnceAt] at h
    split at h
    next none_ =>
      cases h
      rw [List.isEmpty_iff.mp none_]
      rfl
    next => cases h
  | cons x xs ih =>
    rw [splitOnceAt] at h
    split at h
    next here =>
      obtain ⟨rest, eq⟩ := List.isPrefixOf_iff_prefix.mp here
      cases h
      rw [← eq, List.drop_left]
      rfl
    next =>
      obtain ⟨⟨front, back⟩, split, eq⟩ := Option.map_eq_some_iff.mp h
      cases eq
      rw [ih split]
      rfl

theorem parseEncodedWord_length (standard : codec.Standard) (documented : charsets.Documented)
    (h : parseEncodedWord codec charsets cs = some (decoded, consumed)) :
    decoded.length < consumed ∧ consumed ≤ cs.length := by
  unfold parseEncodedWord at h
  split at h
  next rest =>
    split at h
    · cases h
    next charset afterCharset split =>
      split at h
      · cases h
      next labelled =>
        split at h
        next encoding textRest =>
          split at h
          · cases h
          · split at h
            · cases h
            next text after found =>
              split at h
              · cases h
              next plain =>
                obtain ⟨data, read, eq⟩ := Option.map_eq_some_iff.mp h
                obtain ⟨rfl, rfl⟩ := Prod.mk.inj eq
                obtain ⟨rfl, -⟩ := splitOnceChars_eq_some split
                obtain rfl := splitOnceAt_eq_some found
                rw [Bool.or_eq_true, not_or] at labelled plain
                have some_ : 0 < charset.length := by
                  rw [List.length_pos_iff]
                  exact fun none_ => labelled.1 (List.isEmpty_iff.mpr none_)
                have short : data.length ≤ text.length + 3 := by
                  split at read
                  · exact decodeBase64Relaxed_length standard read
                  · have ascii : ∀ c ∈ text, c.val < 128 := by simpa using plain.1
                    have size := decodeQEncoding_length read
                    rw [length_encode_of_ascii ascii] at size
                    omega
                  · cases read
                have wide := decodeCharset_length documented data
                  (some (String.ofList (charset.takeWhile (· ≠ '*'))))
                rw [← String.length_toList] at wide
                constructor
                · omega
                · simp only [List.length_cons, List.length_append, List.length_nil]
                  omega
        · cases h
  · cases h

theorem decodeLoop_length (standard : codec.Standard) (documented : charsets.Documented)
    (skip : Nat)
    (last : Bool) (cs : List Char) :
    (decodeLoop codec charsets skip last cs).length ≤ cs.length - skip := by
  induction cs generalizing skip last with
  | nil =>
    rw [decodeLoop]
    exact Nat.zero_le _
  | cons c rest ih =>
    cases skip with
    | succ skip =>
      rw [decodeLoop, List.length_cons, Nat.add_sub_add_right]
      exact ih skip last
    | zero =>
      rw [decodeLoop, Nat.sub_zero]
      split
      next decoded consumed word =>
        obtain ⟨shorter, inside⟩ := parseEncodedWord_length standard documented word
        have later := ih (consumed - 1) true
        rw [List.length_cons] at inside
        rw [List.length_append, List.length_cons]
        omega
      next =>
        dsimp only
        split
        · exact (ih _ true).trans (by rw [List.length_cons]; omega)
        · rw [List.length_cons, List.length_cons]
          exact Nat.succ_le_succ (ih 0 false)

def HasWord (codec : Base64) (charsets : Charsets) (cs : List Char) : Prop :=
  ∃ before rest, cs = before ++ rest ∧ (parseEncodedWord codec charsets rest).isSome

/-- A text with a word becomes shorter. -/
theorem decodeLoop_shorter (standard : codec.Standard) (documented : charsets.Documented)
    (hasWord : HasWord codec charsets cs) :
    (decodeLoop codec charsets 0 false cs).length < cs.length := by
  induction cs with
  | nil =>
    obtain ⟨before, rest, eq, word⟩ := hasWord
    obtain ⟨rfl, rfl⟩ := List.append_eq_nil_iff.mp eq.symm
    cases word
  | cons c rest ih =>
    rw [decodeLoop]
    split
    next decoded consumed word =>
      obtain ⟨shorter, inside⟩ := parseEncodedWord_length standard documented word
      have later := decodeLoop_length standard documented (consumed - 1) true rest
      rw [List.length_cons] at inside
      rw [List.length_append, List.length_cons]
      omega
    next none_ =>
      obtain ⟨before, after, eq, word⟩ := hasWord
      cases before with
      | nil =>
        rw [List.nil_append] at eq
        rw [← eq, none_] at word
        cases word
      | cons d before =>
        rw [if_neg (by simp), List.length_cons, List.length_cons]
        exact Nat.succ_lt_succ (ih ⟨before, after, (List.cons.inj eq).2, word⟩)

theorem decodeLoop_plain (noWord : ¬HasWord codec charsets cs) {last : Bool} :
    decodeLoop codec charsets 0 last cs = cs := by
  induction cs generalizing last with
  | nil => rw [decodeLoop]
  | cons c rest ih =>
    have here : parseEncodedWord codec charsets (c :: rest) = none := by
      rw [← Option.not_isSome_iff_eq_none]
      exact fun word => noWord ⟨[], c :: rest, rfl, word⟩
    have later : ¬HasWord codec charsets rest := by
      rintro ⟨before, after, rfl, word⟩
      exact noWord ⟨c :: before, after, rfl, word⟩
    rw [decodeLoop, here]
    dsimp only
    rw [if_neg, ih later]
    rw [Bool.and_eq_true]
    exact fun skips => noWord ⟨_, _, (List.take_append_drop _ _).symm, skips.2⟩

theorem starts_of_word (word : (parseEncodedWord codec charsets cs).isSome) :
    ∃ more, cs = '=' :: '?' :: more := by
  unfold parseEncodedWord at word
  split at word
  next rest => exact ⟨rest, rfl⟩
  next => cases word

theorem toList_decodeRfc2047 (input : String) :
    (decodeRfc2047 codec charsets input).toList =
      decodeLoop codec charsets 0 false input.toList := by
  unfold decodeRfc2047
  split
  · exact String.toList_ofList
  next absent =>
    refine (decodeLoop_plain ?_).symm
    rintro ⟨before, rest, eq, word⟩
    obtain ⟨more, rfl⟩ := starts_of_word word
    refine absent (List.any_eq_true.mpr ⟨'=' :: '?' :: more, ?_, ?_⟩)
    · rw [List.mem_tails, eq]
      exact List.suffix_append _ _
    · exact List.isPrefixOf_iff_prefix.mpr ⟨more, rfl⟩

end MailStack.Webmail
