import MailStack.Lib.Der
import MailStack.Lib.Utf8Cut
import MailStack.Smtp.Client

/-! The public half of a DKIM key: how it is wrapped, written down and published in a TXT record. -/

namespace MailStack.Auth

open Lib

/-- The loop over three bytes at a time is that of the client's credentials. -/
def base64Encode (data : List UInt8) : String := String.ofList (Smtp.base64Chunks data)

def derLength (len : Nat) : List UInt8 :=
  if len < 0x80 then [UInt8.ofNat len]
  else
    let bytes := (Der.lowBytes len).reverse
    (0x80 ||| UInt8.ofNat bytes.length) :: bytes

def derWrap (tag : UInt8) (content : List UInt8) : List UInt8 :=
  tag :: derLength content.length ++ content

def rsaAlgorithmIdentifier : List UInt8 :=
  [0x30, 0x0d, 0x06, 0x09, 0x2a, 0x86, 0x48, 0x86, 0xf7, 0x0d, 0x01, 0x01, 0x01, 0x05, 0x00]

def spkiFromPkcs1 (pkcs1 : List UInt8) : List UInt8 :=
  derWrap 0x30 (rsaAlgorithmIdentifier ++ derWrap 0x03 (0x00 :: pkcs1))

def txtChunkLimit : Nat := 255

/-- Whether a character of the text begins at the byte, or the text ends there. -/
def isCharBoundary : List Char → Nat → Bool
  | [], index => index = 0
  | c :: rest, index => index = 0 || (c.utf8Size ≤ index && isCharBoundary rest (index - c.utf8Size))

/-- The loop that looks for the last boundary up to `take`. -/
def boundaryBefore (rest : List Char) : Nat → Nat
  | 0 => 0
  | take + 1 =>
    if take + 1 < (encode rest).length ∧ isCharBoundary rest (take + 1) = false then
      boundaryBefore rest take
    else take + 1

/-- The two parts of a text at a boundary. -/
@[grind =] def splitAtByte : List Char → Nat → List Char × List Char
  | [], _ => ([], [])
  | c :: rest, index =>
    if c.utf8Size ≤ index then
      let (head, tail) := splitAtByte rest (index - c.utf8Size)
      (c :: head, tail)
    else ([], c :: rest)

theorem splitAtByte_append (text : List Char) (index : Nat) :
    (splitAtByte text index).1 ++ (splitAtByte text index).2 = text := by
  induction text generalizing index with
  | nil => rfl
  | cons c rest ih =>
    rw [splitAtByte]
    split
    · exact congrArg (c :: ·) (ih _)
    · rfl

theorem length_splitAtByte (text : List Char) (index : Nat) :
    (encode (splitAtByte text index).1).length ≤ index := by
  induction text generalizing index with
  | nil => exact Nat.zero_le _
  | cons c rest ih =>
    rw [splitAtByte]
    split
    · next fits =>
      have := ih (index - c.utf8Size)
      show (encode (c :: (splitAtByte rest (index - c.utf8Size)).1)).length ≤ index
      rw [encode_cons, List.length_append, String.length_utf8EncodeChar]
      omega
    · exact Nat.zero_le _

theorem le_boundaryBefore {rest : List Char} {index take : Nat}
    (boundary : isCharBoundary rest index = true) (before : index ≤ take) :
    index ≤ boundaryBefore rest take := by
  induction take with
  | zero => exact before
  | succ take ih =>
    rw [boundaryBefore]
    split
    · next other =>
      have ne : index ≠ take + 1 := by
        rintro rfl
        rw [boundary] at other
        exact absurd other.2 (by decide)
      exact ih (by omega)
    · exact before

theorem boundaryBefore_le (rest : List Char) (take : Nat) : boundaryBefore rest take ≤ take := by
  induction take with
  | zero => exact Nat.le_refl _
  | succ take ih =>
    rw [boundaryBefore]
    split
    · omega
    · exact Nat.le_refl _

/-- The part of a text that is taken for the next chunk, and the rest. -/
def nextChunk (rest : List Char) : List Char × List Char :=
  splitAtByte rest (boundaryBefore rest (min (encode rest).length txtChunkLimit))

/-- A chunk has a character, as none has more than four bytes. -/
theorem length_nextChunk {rest : List Char} (some : rest ≠ []) :
    (nextChunk rest).2.length < rest.length := by
  obtain ⟨c, more, rfl⟩ := List.exists_cons_of_ne_nil some
  have small := c.utf8Size_le_four
  have whole : c.utf8Size ≤ (encode (c :: more)).length := by
    rw [encode_cons, List.length_append, String.length_utf8EncodeChar]
    omega
  have boundary : isCharBoundary (c :: more) c.utf8Size = true := by
    have start : isCharBoundary more 0 = true := by cases more <;> rfl
    rw [isCharBoundary, Nat.sub_self, start]
    simp
  have room : c.utf8Size ≤ min (encode (c :: more)).length txtChunkLimit :=
    Nat.le_min.mpr ⟨whole, Nat.le_trans small (by decide)⟩
  have taken := le_boundaryBefore boundary room
  have parts := splitAtByte_append more (boundaryBefore (c :: more)
    (min (encode (c :: more)).length txtChunkLimit) - c.utf8Size)
  have length := congrArg List.length parts
  rw [nextChunk, splitAtByte, if_pos taken]
  rw [List.length_append] at length
  simp only [List.length_cons]
  omega

/-- The loop over the value. -/
def zoneChunks (rest : List Char) : List (List Char) :=
  if rest = [] then []
  else (nextChunk rest).1 :: zoneChunks (nextChunk rest).2
termination_by rest.length
decreasing_by exact length_nextChunk (by assumption)

def quoted (chunk : List Char) : List Char := '"' :: chunk ++ ['"']

def zoneTxtFragment (owner value comment : String) : String :=
  let chunks := match zoneChunks value.toList with
    | [] => [[]]
    | chunks => chunks
  owner ++ "\tIN\tTXT\t( " ++ String.ofList ("\n\t".toList.intercalate (chunks.map quoted)) ++
    " )  ; " ++ comment

/-- The content of the identifier: `rsaEncryption`, without parameters. -/
def rsaEncryption : List UInt8 :=
  [0x06, 0x09, 0x2a, 0x86, 0x48, 0x86, 0xf7, 0x0d, 0x01, 0x01, 0x01, 0x05, 0x00]

/-- The key of a public key for RSA, where its bit string has no unused bits. -/
def readSpki (data : List UInt8) : Option (List UInt8) :=
  match Der.readElement 0x30 data with
  | some (content, []) =>
    match Der.readElement 0x30 content with
    | some (algorithm, bitString) =>
      match Der.readElement 0x03 bitString with
      | some (unused :: key, []) =>
        if algorithm = rsaEncryption ∧ unused = 0 then some key else none
      | _ => none
    | none => none
  | _ => none

/-- The bytes of a slice, of which there are never more than `isize::MAX`. -/
structure Slice where
  bytes : List UInt8
  length_le : bytes.length ≤ 2 ^ 63 - 1

theorem readLength_derLength {len : Nat} (fits : len < 256 ^ 126) (rest : List UInt8) :
    Der.readLength (derLength len ++ rest) = some (len, rest) := by
  rw [derLength]
  split
  · next small => exact Der.readLength_short small rest
  · next big =>
    simp only [List.length_reverse, List.cons_append]
    exact Der.readLength_long (Nat.le_of_not_lt big) fits rest

theorem length_derLength_le {len : Nat}
    (fits : len < 256 ^ 126) : (derLength len).length ≤ 127 := by
  rw [derLength]
  split
  · exact Nat.le_of_ble_eq_true rfl
  · have := Der.length_lowBytes_le fits
    simp only [List.length_cons, List.length_reverse]
    omega

theorem readElement_derWrap (tag : UInt8) {content : List UInt8} (fits : content.length < 256 ^ 126)
    (rest : List UInt8) :
      Der.readElement tag (derWrap tag content ++ rest) = some (content, rest) := by
  rw [derWrap, List.append_assoc, List.cons_append, Der.readElement,
    readLength_derLength fits]
  simp

theorem readSpki_spkiFromPkcs1 (k : Slice) : readSpki (spkiFromPkcs1 k.bytes) = some k.bytes := by
  have large : 2 ^ 63 + 200 ≤ 256 ^ 126 := by decide
  have length := k.length_le
  have inner : (0x00 :: k.bytes).length < 256 ^ 126 := by
    rw [List.length_cons]
    exact Nat.lt_of_lt_of_le (by omega) large
  have wrapped := length_derLength_le inner
  have outer : (rsaAlgorithmIdentifier ++ derWrap 0x03 (0x00 :: k.bytes)).length < 256 ^ 126 := by
    refine Nat.lt_of_lt_of_le ?_ large
    simp only [derWrap, List.length_append, List.length_cons, rsaAlgorithmIdentifier,
      List.length_nil] at wrapped ⊢
    omega
  have whole := readElement_derWrap 0x30 outer []
  have bits := readElement_derWrap 0x03 inner []
  rw [List.append_nil] at whole bits
  have identifier : Der.readElement 0x30
      (rsaAlgorithmIdentifier ++ derWrap 0x03 (0x00 :: k.bytes)) =
      some (rsaEncryption, derWrap 0x03 (0x00 :: k.bytes)) :=
    readElement_derWrap 0x30 (show rsaEncryption.length < 256 ^ 126 by decide) _
  simp only [readSpki, spkiFromPkcs1, whole, identifier, bits]
  rfl

/-- What stands between quotes up to the closing parenthesis. The text of an open quote is
gathered. -/
@[grind =] def quotedChunks : Option (List Char) → List Char → List (List Char)
  | _, [] => []
  | none, '"' :: rest => quotedChunks (some []) rest
  | none, ')' :: _ => []
  | none, _ :: rest => quotedChunks none rest
  | some chunk, '"' :: rest => chunk :: quotedChunks none rest
  | some chunk, c :: rest => quotedChunks (some (chunk ++ [c])) rest

theorem quotedChunks_open (before : List Char) {chunk : List Char} (plain : '"' ∉ chunk)
    (rest : List Char) :
    quotedChunks (some before) (chunk ++ '"' :: rest) =
      (before ++ chunk) :: quotedChunks none rest := by
  induction chunk generalizing before with
  | nil => rw [List.nil_append, quotedChunks, List.append_nil]
  | cons c chunk ih =>
    obtain ⟨other, later⟩ := not_or.mp (List.mem_cons.not.mp plain)
    rw [List.cons_append, quotedChunks, ih _ later, List.append_assoc]
    · rfl
    · exact fun eq => other eq.symm

theorem quotedChunks_quoted {chunk : List Char} (plain : '"' ∉ chunk) (rest : List Char) :
    quotedChunks none (quoted chunk ++ rest) = chunk :: quotedChunks none rest := by
  have opened := quotedChunks_open [] plain rest
  rw [List.nil_append] at opened
  rw [← opened]
  simp [quoted, quotedChunks]

theorem quotedChunks_intercalate {chunks : List (List Char)} (plain : ∀ chunk ∈ chunks, '"' ∉ chunk)
    (rest : List Char) :
    quotedChunks none ("\n\t".toList.intercalate (chunks.map quoted) ++ rest) =
      chunks ++ quotedChunks none rest := by
  induction chunks with
  | nil => rfl
  | cons chunk chunks ih =>
    obtain ⟨own, others⟩ := List.forall_mem_cons.mp plain
    cases chunks with
    | nil =>
      rw [List.map_singleton, List.intercalate_singleton]
      exact quotedChunks_quoted own rest
    | cons next chunks =>
      have between (text : List Char) : quotedChunks none ("\n\t".toList ++ text) =
          quotedChunks none text := rfl
      rw [List.map_cons, List.map_cons, List.intercalate_cons_cons, ← List.map_cons, List.append_assoc,
        List.append_assoc, quotedChunks_quoted own, between, ih others]
      rfl

theorem flatten_zoneChunks (rest : List Char) : (zoneChunks rest).flatten = rest := by
  fun_induction zoneChunks rest with
  | case1 => rfl
  | case2 rest some ih =>
    rw [List.flatten_cons, ih]
    exact splitAtByte_append _ _

theorem length_of_mem_zoneChunks {rest chunk : List Char} (mem : chunk ∈ zoneChunks rest) :
    (encode chunk).length ≤ txtChunkLimit := by
  fun_induction zoneChunks rest with
  | case1 => cases mem
  | case2 rest some ih =>
    rcases List.mem_cons.mp mem with rfl | later
    · calc (encode (nextChunk rest).1).length
        _ ≤ boundaryBefore rest (min (encode rest).length txtChunkLimit) := length_splitAtByte _ _
        _ ≤ min (encode rest).length txtChunkLimit := boundaryBefore_le _ _
        _ ≤ txtChunkLimit := Nat.min_le_right _ _
    · exact ih later

def zoneData (chunks : List (List Char)) (comment : String) : String :=
  "\tIN\tTXT\t( " ++ String.ofList ("\n\t".toList.intercalate (chunks.map quoted)) ++ " )  ; " ++ comment

theorem quotedChunks_zoneData {chunks : List (List Char)} (plain : ∀ chunk ∈ chunks, '"' ∉ chunk)
    (comment : String) : quotedChunks none (zoneData chunks comment).toList = chunks := by
  have shape : (zoneData chunks comment).toList = "\tIN\tTXT\t( ".toList ++
      ("\n\t".toList.intercalate (chunks.map quoted) ++ (' ' :: ')' :: ("  ; ".toList ++ comment.toList))) := by
    simp [zoneData]
  have start (text : List Char) : quotedChunks none ("\tIN\tTXT\t( ".toList ++ text) =
      quotedChunks none text := rfl
  have finish (text : List Char) : quotedChunks none (' ' :: ')' :: text) = [] := rfl
  rw [shape, start, quotedChunks_intercalate plain, finish, List.append_nil]

/-- The record of a text without quotes is read as its chunks, which make up the text. -/
theorem zoneTxtFragment_chunks (owner comment : String) {value : String}
    (plain : '"' ∉ value.toList) :
    ∃ data, zoneTxtFragment owner value comment = owner ++ data ∧
      (quotedChunks none data.toList).flatten = value.toList ∧
      ∀ chunk ∈ quotedChunks none data.toList, (encode chunk).length ≤ txtChunkLimit := by
  obtain ⟨chunks, shape, whole, short⟩ : ∃ chunks,
      zoneTxtFragment owner value comment = owner ++ zoneData chunks comment ∧
      chunks.flatten = value.toList ∧ ∀ chunk ∈ chunks, (encode chunk).length ≤ txtChunkLimit := by
    have parts : zoneTxtFragment owner value comment = owner ++ zoneData
        (match zoneChunks value.toList with | [] => [[]] | chunks => chunks) comment := by
      simp [zoneTxtFragment, zoneData, String.append_assoc]
    refine ⟨_, parts, ?_, ?_⟩
    · have whole := flatten_zoneChunks value.toList
      split
      · next none_ => rw [none_] at whole; exact whole
      · exact whole
    · intro chunk mem
      split at mem
      · rw [List.mem_singleton.mp mem]
        exact Nat.zero_le _
      · exact length_of_mem_zoneChunks mem
  have noQuotes : ∀ chunk ∈ chunks, '"' ∉ chunk := fun chunk mem inside =>
    plain (whole ▸ List.mem_flatten.mpr ⟨chunk, mem, inside⟩)
  refine ⟨_, shape, ?_, ?_⟩
  · rw [quotedChunks_zoneData noQuotes, whole]
  · rw [quotedChunks_zoneData noQuotes]
    exact short

theorem decode_base64Encode (data : List UInt8) :
    Base64.decode (base64Encode data).toList = some data := by
  rw [base64Encode, String.toList_ofList, Smtp.base64Chunks_eq, Base64.decode_encode]

/-- What is written as the public key is read as the key, and a text without quotes that is put into
a record is read from its chunks, none of which is too long. -/
theorem written_key_reads :
    (∀ k : Slice, (Base64.decode (base64Encode (spkiFromPkcs1 k.bytes)).toList).bind readSpki =
      some k.bytes) ∧
    ∀ owner value comment : String, '"' ∉ value.toList →
      ∃ data, zoneTxtFragment owner value comment = owner ++ data ∧
        (quotedChunks none data.toList).flatten = value.toList ∧
        ∀ chunk ∈ quotedChunks none data.toList, (encode chunk).length ≤ 255 :=
  ⟨fun k => by rw [decode_base64Encode, Option.bind_some, readSpki_spkiFromPkcs1],
    fun owner _ comment plain => zoneTxtFragment_chunks owner comment plain⟩

/-- A value of two chunks, with a character of two bytes where the first one ends. -/
theorem long_value_reads :
    ∃ data, zoneTxtFragment "mail._domainkey" (String.ofList (List.replicate 254 'a' ++
      ['é', 'b'])) "c" =
        "mail._domainkey" ++ data ∧
      (quotedChunks none data.toList).flatten =
        (String.ofList (List.replicate 254 'a' ++ ['é', 'b'])).toList ∧
      ∀ chunk ∈ quotedChunks none data.toList, (encode chunk).length ≤ 255 :=
  written_key_reads.2 _ _ _ (by
    rw [String.toList_ofList, List.mem_append, List.mem_replicate]
    decide)

end MailStack.Auth
