import MailStack.Mime.WrittenLines
import MailStack.Webmail.EncodedWords

/-! A text that is encoded in parts of some bytes, each of which is decoded for itself. -/

namespace MailStack.Webmail

open Lib

def bom : Char := '\uFEFF'

def readChunk (data : List UInt8) : List Char := lossyChars (withoutBom data)

/-- The bytes are those of some characters of which the first one is no mark. -/
def Whole (data : List UInt8) : Prop := ∃ cs, data = encode cs ∧ cs.head? ≠ some bom

variable {cs : List Char} {tail part data : List UInt8}

theorem flatten_chunksFor {α : Type} {size : Nat} (positive : 0 < size) {fuel : Nat} {xs : List α}
    (enough : xs.length ≤ fuel) : (chunksFor size fuel xs).flatten = xs := by
  induction fuel generalizing xs with
  | zero =>
    rw [List.length_eq_zero_iff.mp (Nat.le_zero.mp enough)]
    rfl
  | succ fuel ih =>
    cases xs with
    | nil => rfl
    | cons x xs =>
      have less : ((x :: xs).drop size).length ≤ fuel := by
        rw [List.length_drop]
        rw [List.length_cons] at *
        omega
      rw [chunksFor, List.flatten_cons, ih less, List.take_append_drop]
      exact List.cons_ne_nil _ _

theorem mem_chunksFor {α : Type} {size : Nat} (positive : 0 < size) {fuel : Nat} {xs chunk : List α}
    (mem : chunk ∈ chunksFor size fuel xs) : chunk ≠ [] ∧ chunk.length ≤ size := by
  induction fuel generalizing xs with
  | zero => cases mem
  | succ fuel ih =>
    cases xs with
    | nil => cases mem
    | cons x xs =>
      rw [chunksFor] at mem
      · rcases List.mem_cons.mp mem with rfl | later
        · refine ⟨fun eq => ?_, List.length_take_le _ _⟩
          rcases List.take_eq_nil_iff.mp eq with zero | nil
          · omega
          · cases nil
        · exact ih later
      · exact List.cons_ne_nil _ _

/-- The characters without a mark before them. -/
def dropBom (cs : List Char) : List Char := if cs.head? = some bom then cs.drop 1 else cs

/-- What stands for the part of a character that a chunk ends with. -/
def markOf (part : List UInt8) : List Char := if part = [] then [] else [replacement]

theorem lossyChars_bom (starts : [0xEF, 0xBB, 0xBF] <+: data) :
    lossyChars data = bom :: lossyChars (data.drop 3) := by
  obtain ⟨rest, rfl⟩ := starts
  have mark : encode [bom] = [0xEF, 0xBB, 0xBF] := by decide
  rw [← mark, lossyChars_encode_append]
  rfl

/-- What is read of a chunk: each byte that goes on with a character before it is replaced, and so
is a character that goes on after it. -/
theorem readChunk_eq (continue_ : ∀ a ∈ tail, isContinuation a = true)
    (cut : lossyChars part = markOf part) :
    readChunk (tail ++ encode cs ++ part) =
      dropBom (List.replicate tail.length replacement ++ cs ++ markOf part) := by
  have all : lossyChars (tail ++ encode cs ++ part) =
      List.replicate tail.length replacement ++ cs ++ markOf part := by
    rw [List.append_assoc, lossyChars_continuations continue_, lossyChars_encode_append, cut,
      List.append_assoc]
  rw [← all, readChunk, withoutBom]
  by_cases starts : [0xEF, 0xBB, 0xBF] <+: tail ++ encode cs ++ part
  · rw [if_pos (List.isPrefixOf_iff_prefix.mpr starts), lossyChars_bom starts]
    rfl
  · rw [if_neg fun h => starts (List.isPrefixOf_iff_prefix.mp h), dropBom, if_neg]
    intro first
    have other : replacement ≠ bom := by decide
    rw [all] at first
    cases tail with
    | cons a tail => exact absurd (Option.some.inj first) other
    | nil =>
      cases cs with
      | nil =>
        unfold markOf at first
        split at first
        · cases first
        · exact absurd (Option.some.inj first) other
      | cons c cs =>
        obtain rfl : c = bom := Option.some.inj first
        exact starts ⟨encode cs ++ part, rfl⟩

theorem dropBom_count (cs : List Char) :
    cs.length + 2 * (dropBom cs).count bom ≤ (dropBom cs).length + 2 * cs.count bom ∧
      ((dropBom cs).length + 2 * cs.count bom ≤ cs.length + 2 * (dropBom cs).count bom →
        cs.head? ≠ some bom) := by
  unfold dropBom
  split
  next first =>
    obtain ⟨rest, rfl⟩ := List.head?_eq_some_iff.mp first
    rw [List.drop_one, List.tail_cons, List.count_cons_self, List.length_cons]
    constructor
    · omega
    · intro
      omega
  next first => exact ⟨Nat.le_refl _, fun _ => first⟩

theorem count_replicate_append (n : Nat) (cs : List Char) :
    (List.replicate n replacement ++ cs).count bom = cs.count bom := by
  rw [List.count_append, List.count_eq_zero_of_not_mem, Nat.zero_add]
  intro mem
  exact absurd (List.eq_of_mem_replicate mem) (by decide)

/-- A text that is cut has more characters when it is read, or fewer marks. -/
theorem readChunks_count {fuel : Nat} (continue_ : ∀ a ∈ tail, isContinuation a = true)
    (short : tail.length ≤ 3) (enough : (tail ++ encode cs).length ≤ fuel) :
    cs.length + tail.length +
      2 * ((chunksFor 45 fuel (tail ++ encode cs)).flatMap readChunk).count bom ≤
        ((chunksFor 45 fuel (tail ++ encode cs)).flatMap readChunk).length + 2 * cs.count bom ∧
      (tail = [] →
        ((chunksFor 45 fuel (tail ++ encode cs)).flatMap readChunk).length + 2 * cs.count bom ≤
          cs.length + 2 * ((chunksFor 45 fuel (tail ++ encode cs)).flatMap readChunk).count bom →
        ∀ chunk ∈ chunksFor 45 fuel (tail ++ encode cs), Whole chunk) := by
  induction fuel generalizing cs tail with
  | zero =>
    have nothing := List.length_eq_zero_iff.mp (Nat.le_zero.mp enough)
    obtain ⟨rfl, none_⟩ := List.append_eq_nil_iff.mp nothing
    obtain rfl : cs = [] := encode_injective none_
    exact ⟨Nat.le_refl _, fun _ _ chunk mem => absurd mem List.not_mem_nil⟩
  | succ fuel ih =>
    by_cases nothing : tail ++ encode cs = []
    · obtain ⟨rfl, none_⟩ := List.append_eq_nil_iff.mp nothing
      obtain rfl : cs = [] := encode_injective none_
      exact ⟨Nat.le_refl _, fun _ _ chunk mem => absurd mem List.not_mem_nil⟩
    · have step : chunksFor 45 (fuel + 1) (tail ++ encode cs) =
          (tail ++ (encode cs).take (45 - tail.length)) ::
            chunksFor 45 fuel ((encode cs).drop (45 - tail.length)) := by
        rw [chunksFor, List.take_append, List.drop_append, List.take_of_length_le (by omega),
          List.drop_eq_nil_of_le (by omega), List.nil_append]
        exact nothing
      have less : ((encode cs).drop (45 - tail.length)).length ≤ fuel := by
        have some_ := List.length_pos_iff.mpr nothing
        rw [List.length_append] at some_ enough
        rw [List.length_drop]
        omega
      rw [step, List.flatMap_cons]
      cases cut cs (45 - tail.length) with
      | between front back eq before after =>
        rw [before, after]
        rw [after] at less
        obtain ⟨lower, upper⟩ := @ih back [] (List.forall_mem_nil _)
          (Nat.zero_le _) less
        rw [List.nil_append, List.length_nil] at lower
        rw [List.nil_append] at upper
        have read : readChunk (tail ++ encode front) =
            dropBom (List.replicate tail.length replacement ++ front) := by
          have all := @readChunk_eq front tail [] continue_ rfl
          rwa [List.append_nil, markOf, if_pos rfl, List.append_nil] at all
        obtain ⟨keeps, whole⟩ := dropBom_count (List.replicate tail.length replacement ++ front)
        rw [count_replicate_append, List.length_append, List.length_replicate] at keeps whole
        rw [read, eq, List.length_append, List.length_append, List.count_append, List.count_append]
        refine ⟨by omega, fun none_ bound chunk mem => ?_⟩
        subst none_
        have zero : ([] : List UInt8).length = 0 := rfl
        rcases List.mem_cons.mp mem with rfl | later
        · exact ⟨front, rfl, whole (by omega)⟩
        · exact upper rfl (by omega) chunk later
      | within front c back first second eq split some_ more before after =>
        obtain ⟨replaced, continues, few⟩ := utf8EncodeChar_cut split some_ more
        have positive := List.length_pos_iff.mpr more
        rw [before, after]
        rw [after] at less
        obtain ⟨lower, -⟩ := @ih back second continues few less
        have read : readChunk (tail ++ (encode front ++ first)) =
            dropBom (List.replicate tail.length replacement ++ front ++ [replacement]) := by
          have mark : markOf first = [replacement] := if_neg some_
          have all := @readChunk_eq front tail first continue_ (replaced.trans mark.symm)
          rwa [mark, List.append_assoc] at all
        obtain ⟨keeps, -⟩ := dropBom_count
          (List.replicate tail.length replacement ++ front ++ [replacement])
        have other : [replacement].count bom = 0 := by decide
        rw [List.count_append, count_replicate_append, other, List.length_append, List.length_append,
          List.length_replicate, List.length_singleton] at keeps
        have atMost : back.count bom ≤ (c :: back).count bom := List.count_le_count_cons
        rw [read, eq, List.length_append, List.length_append, List.count_append, List.count_append,
          List.length_cons]
        exact ⟨by omega, fun none_ bound => by omega⟩

theorem encode_readChunks {parts : List (List UInt8)} (whole : ∀ part ∈ parts, Whole part) :
    encode (parts.flatMap readChunk) = parts.flatten := by
  induction parts with
  | nil => rfl
  | cons part parts ih =>
    obtain ⟨cs, rfl, notMark⟩ := whole part List.mem_cons_self
    have read := @readChunk_eq cs [] [] (List.forall_mem_nil _) rfl
    rw [List.append_nil, markOf, if_pos rfl, List.append_nil] at read
    have same : readChunk (encode cs) = cs := read.trans (if_neg notMark)
    rw [List.flatMap_cons, List.flatten_cons, encode_append, same,
      ih fun part mem => whole part (List.mem_cons_of_mem _ mem)]

theorem readChunks_eq_iff (cs : List Char) :
    (chunks 45 (encode cs)).flatMap readChunk = cs ↔
      ∀ part ∈ chunks 45 (encode cs), Whole part := by
  unfold chunks
  constructor
  · intro same
    have counted := @readChunks_count cs [] _ (List.forall_mem_nil _)
      (Nat.zero_le _) (Nat.le_refl _)
    rw [List.nil_append] at counted
    exact counted.2 rfl (by rw [same])
  · intro whole
    refine encode_injective ?_
    rw [encode_readChunks whole, flatten_chunksFor (by omega) (Nat.le_refl _)]

end MailStack.Webmail

/-! Whether a header value is read back from the encoded words that it is written in. -/

namespace MailStack.Webmail

open Lib Mime

variable {codec : Base64} {charsets : Charsets} {chunk : List UInt8} {cs rest : List Char}
  {header : HeaderLine}

def wordOf (codec : Base64) (chunk : List UInt8) : String :=
  "=?UTF-8?B?" ++ codec.encode chunk ++ "?="

theorem toList_wordOf (codec : Base64) (chunk : List UInt8) :
    (wordOf codec chunk).toList =
      '=' :: '?' ::
        ("UTF-8".toList ++ '?' :: 'B' :: '?' :: ((codec.encode chunk).toList ++ ['?', '='])) := by
  have front : "=?UTF-8?B?".toList = '=' :: '?' :: ("UTF-8".toList ++ ['?', 'B', '?']) := by decide
  have back : "?=".toList = ['?', '='] := by decide
  rw [wordOf, String.toList_append, String.toList_append, front, back]
  simp

variable {c : Char}

theorem Base64.Standard.plain (standard : codec.Standard)
    (mem : c ∈ (codec.encode chunk).toList) : c ≠ '?' ∧ isWhitespace c = false ∧ c.val < 128 := by
  have written := standard.alphabet chunk c mem
  have range : 33 ≤ c.toNat ∧ c.toNat ≤ 126 := by
    rcases written with letter | rfl | rfl | rfl
    · have := isAlphanum_range letter
      omega
    · decide
    · decide
    · decide
  refine ⟨?_, isWhitespace_eq_false range, ?_⟩
  · rintro rfl
    revert written
    decide
  · rw [UInt32.lt_iff_toNat_lt]
    exact Nat.lt_of_le_of_lt range.2 (by decide)

theorem decodeBase64Relaxed_encode (standard : codec.Standard) (chunk : List UInt8) :
    decodeBase64Relaxed codec (codec.encode chunk).toList = some chunk := by
  have visible : (codec.encode chunk).toList.filter (fun c => !isWhitespace c) =
      (codec.encode chunk).toList := by
    refine List.filter_eq_self.mpr fun c mem => ?_
    rw [(standard.plain mem).2.1]
    rfl
  have size := standard.size chunk
  have full : (4 - (codec.encode chunk).toList.length % 4) % 4 = 0 := by
    rw [String.length_toList]
    omega
  rw [decodeBase64Relaxed, visible, full, List.replicate_zero, List.append_nil, String.ofList_toList,
    standard.inverts]

theorem not_utf16 {data : List UInt8} (plain : ∀ b ∈ data, b < 0xF8) :
    ¬[0xFF, 0xFE] <+: data ∧ ¬[0xFE, 0xFF] <+: data := by
  constructor
  · rintro ⟨rest, rfl⟩
    exact absurd (plain 0xFF (by simp)) (by decide)
  · rintro ⟨rest, rfl⟩
    exact absurd (plain 0xFE (by simp)) (by decide)

theorem decodeCharset_utf8 (documented : charsets.Documented) (some_ : chunk ≠ [])
    (plain : ∀ b ∈ chunk, b < 0xF8) :
    (decodeCharset charsets chunk (some "UTF-8")).toList = readChunk chunk := by
  obtain ⟨decode, found, reads⟩ := documented.utf8
  have filled : ¬chunk.isEmpty = true := fun none_ => some_ (List.isEmpty_iff.mp none_)
  have label : ((some "UTF-8").map trim).filter (fun label => !label.isEmpty) = some "UTF-8" := by
    decide
  have bare : trimMatches '"' "UTF-8" = "UTF-8" := by decide
  obtain ⟨big, little⟩ := not_utf16 plain
  rw [decodeCharset, if_neg filled]
  dsimp only
  rw [label, Option.bind_some, bare, found]
  dsimp only
  rw [reads chunk big little, fromUtf8Lossy, String.toList_ofList]
  rfl

theorem parseEncodedWord_word (standard : codec.Standard) (documented : charsets.Documented)
    (some_ : chunk ≠ []) (short : chunk.length ≤ 45) (plain : ∀ b ∈ chunk, b < 0xF8)
    (rest : List Char) :
    parseEncodedWord codec charsets ((wordOf codec chunk).toList ++ rest) =
      some (readChunk chunk, (wordOf codec chunk).toList.length) := by
  have charset : '?' ∉ "UTF-8".toList := by decide
  have noMark : '?' ∉ (codec.encode chunk).toList := fun mem => (standard.plain mem).1 rfl
  have ascii : (codec.encode chunk).toList.all (fun c => c.val < 128) = true :=
    List.all_eq_true.mpr fun c mem => decide_eq_true (standard.plain mem).2.2
  have size := standard.size chunk
  rw [← String.length_toList] at size
  have read := decodeCharset_utf8 documented some_ plain
  have named : String.ofList ("UTF-8".toList.takeWhile (· ≠ '*')) = "UTF-8" := by decide +kernel
  have few : ¬(!(codec.encode chunk).toList.all (fun c => c.val < 128) ||
      decide ((codec.encode chunk).toList.length > 4096)) = true := by
    rw [ascii, Bool.not_true, Bool.false_or, decide_eq_true_eq]
    omega
  have first : ¬("UTF-8".toList.isEmpty || decide ((encode "UTF-8".toList).length > 64)) =
      true := by
    decide
  have letter : ¬(decide ('B' = '?') || decide ('B'.val ≥ 128)) = true := by decide
  have shape : (wordOf codec chunk).toList ++ rest =
      '=' :: '?' :: ("UTF-8".toList ++ '?' :: 'B' :: '?' ::
        ((codec.encode chunk).toList ++ (['?', '='] ++ rest))) := by
    rw [toList_wordOf]
    simp
  rw [shape, parseEncodedWord, splitOnceChars_append charset]
  dsimp only
  rw [if_neg first]
  refine (if_neg letter).trans ?_
  have found : splitOnceAt ['?', '='] ((codec.encode chunk).toList ++ (['?', '='] ++ rest)) =
      some ((codec.encode chunk).toList, rest) := splitOnceAt_append noMark rest
  rw [found]
  dsimp only
  rw [if_neg few]
  show Option.map _ (decodeBase64Relaxed codec (codec.encode chunk).toList) = _
  rw [decodeBase64Relaxed_encode standard, Option.map_some, named, read, toList_wordOf]
  have label : "UTF-8".toList.length = 5 := by decide
  simp only [label, List.length_cons, List.length_append, List.length_nil]
  congr 2
  omega

theorem decodeLoop_skip (last : Bool) (cs rest : List Char) :
    decodeLoop codec charsets cs.length last (cs ++ rest) =
      decodeLoop codec charsets 0 last rest := by
  induction cs with
  | nil => rfl
  | cons c cs ih => rw [List.length_cons, List.cons_append, decodeLoop, ih]

structure IsChunk (chunk : List UInt8) : Prop where
  some : chunk ≠ []
  short : chunk.length ≤ 45
  plain : ∀ b ∈ chunk, b < 0xF8

section Loop

variable (standard : codec.Standard) (documented : charsets.Documented)

include standard documented

theorem decodeLoop_word (isChunk : IsChunk chunk) (last : Bool) (rest : List Char) :
    decodeLoop codec charsets 0 last ((wordOf codec chunk).toList ++ rest) =
      readChunk chunk ++ decodeLoop codec charsets 0 true rest := by
  have word := parseEncodedWord_word standard documented isChunk.some isChunk.short isChunk.plain
      rest
  have shape := toList_wordOf codec chunk
  generalize (wordOf codec chunk).toList = written at word shape ⊢
  subst shape
  rw [List.cons_append, decodeLoop, ← List.cons_append, word]
  exact congrArg (readChunk chunk ++ ·) (decodeLoop_skip true _ rest)

theorem decodeLoop_blank (isChunk : IsChunk chunk) (rest : List Char) :
    decodeLoop codec charsets 0 true (' ' :: ((wordOf codec chunk).toList ++ rest)) =
      readChunk chunk ++ decodeLoop codec charsets 0 true rest := by
  have word := parseEncodedWord_word standard documented isChunk.some isChunk.short isChunk.plain
      rest
  have blanks : (' ' :: ((wordOf codec chunk).toList ++ rest)).takeWhile isAsciiWhitespace =
      [' '] := by
    rw [toList_wordOf]
    rfl
  have noWord : parseEncodedWord codec charsets (' ' :: ((wordOf codec chunk).toList ++ rest)) =
      none :=
    rfl
  have skips : (true && isAsciiWhitespace ' ' &&
      (parseEncodedWord codec charsets ((' ' :: ((wordOf codec chunk).toList ++ rest)).drop
        [' '].length)).isSome) = true := by
    show (true && isAsciiWhitespace ' ' &&
      (parseEncodedWord codec charsets ((wordOf codec chunk).toList ++ rest)).isSome) = true
    rw [word]
    rfl
  rw [decodeLoop, noWord, blanks]
  dsimp only
  rw [if_pos skips]
  exact decodeLoop_word standard documented isChunk true rest

theorem decodeLoop_words {parts : List (List UInt8)} (isChunk : ∀ part ∈ parts, IsChunk part)
    (rest : List Char) :
    decodeLoop codec charsets 0 true
        ((parts.flatMap fun part => ' ' :: (wordOf codec part).toList) ++ rest) =
      parts.flatMap readChunk ++ decodeLoop codec charsets 0 true rest := by
  induction parts with
  | nil => rfl
  | cons part parts ih =>
    rw [List.flatMap_cons, List.flatMap_cons, List.append_assoc, List.cons_append, List.append_assoc,
      decodeLoop_blank standard documented (isChunk part List.mem_cons_self),
      ih fun other mem => isChunk other (List.mem_cons_of_mem _ mem)]

end Loop

theorem map_intercalate {α : Type} {f : String → List α}
    (map_append : ∀ s t, f (s ++ t) = f s ++ f t)
    (sep first : String) (more : List String) :
    f (sep.intercalate (first :: more)) = f first ++ more.flatMap fun s => f sep ++ f s := by
  induction more generalizing first with
  | nil => rw [String.intercalate_singleton, List.flatMap_nil, List.append_nil]
  | cons next more ih =>
    rw [String.intercalate_cons_cons, map_append, map_append, ih, List.flatMap_cons, List.append_assoc,
      List.append_assoc]

/-- What `parse_headers` reads of a field with the text. -/
def unfolded (text : String) : Option String :=
  (parseHeaders (bytes ("Subject: " ++ text ++ "\r\n\r\n"))).get "subject"

theorem parseHeader_subject (raw data : List UInt8) :
    parseHeader raw (bytes "Subject:" ++ data) =
      some { name := "subject", raw, value := trim (fromUtf8Lossy data) } := by
  have letters : bytes "Subject:" = [83, 117, 98, 106, 101, 99, 116, 58] := by decide
  have colon : (bytes "Subject:" ++ data).findIdx? (· = 58) = some 7 := by
    rw [letters]
    rfl
  have before : (bytes "Subject:" ++ data).take 7 = bytes "Subject" := by
    have tail : bytes "Subject" = [83, 117, 98, 106, 101, 99, 116] := by decide
    rw [letters, tail]
    rfl
  have after : (bytes "Subject:" ++ data).drop (7 + 1) = data := by
    rw [letters]
    rfl
  have name : toAsciiLowercase (trim (fromUtf8Lossy (bytes "Subject"))) = "subject" := by
    decide +kernel
  have graphic : ¬("subject".isEmpty ||
      !"subject".toList.all fun c => 0x21 ≤ c.val && c.val ≤ 0x7e) = true := by
    decide
  rw [parseHeader, colon]
  dsimp only
  rw [before, name, if_neg graphic, after]

theorem parseLines_subject {raw data : List UInt8} (text : content raw = bytes "Subject:" ++ data)
    (rest : List (List UInt8)) :
    parseLines [] (raw :: rest) =
      parseLines [{ name := "subject", raw, value := trim (fromUtf8Lossy data) }] rest := by
  have shape : bytes "Subject:" = 83 :: bytes "ubject:" := by decide
  have filled : content raw ≠ [] := by
    rw [text, shape]
    exact List.cons_ne_nil _ _
  have own : isFolded raw = false := by
    rw [Mime.isFolded, text, shape]
    rfl
  rw [parseLines_cons (by decide) filled, own, if_neg Bool.false_ne_true, text, parseHeader_subject]
  rfl

theorem bytes_subject
    (s : String) : bytes ("Subject: " ++ s) = bytes "Subject:" ++ bytes (" " ++ s) := by
  have front : bytes "Subject: " = bytes "Subject:" ++ bytes " " := by decide
  rw [bytes_append, front, bytes_append, List.append_assoc]

theorem byte_not_mem {b : UInt8} (low : b.toNat < 0x80) (code : c.val.toNat = b.toNat)
    {s : String} (plain : c ∉ s.toList) : b ∉ bytes s := by
  intro mem
  obtain ⟨other, inside, here⟩ := List.mem_flatMap.mp mem
  have same : other = c := by
    rw [Char.ext_iff, ← UInt32.toNat_inj, code]
    exact (ascii_mem_utf8EncodeChar here low).1
  exact plain (same ▸ inside)

theorem lf_not_mem {s : String} (plain : '\n' ∉ s.toList) : lf ∉ bytes s :=
  byte_not_mem (by decide) rfl plain

theorem splitInclusive_single {xs : List UInt8} (some_ : xs ≠ []) (noLf : lf ∉ xs.dropLast) :
    splitInclusive xs = [xs] := by
  induction xs with
  | nil => exact absurd rfl some_
  | cons x xs ih =>
    rw [splitInclusive]
    cases xs with
    | nil => exact ite_self _
    | cons y ys =>
      rw [List.dropLast_cons_cons, List.mem_cons, not_or] at noLf
      rw [if_neg (Ne.symm noLf.1), ih (List.cons_ne_nil _ _) noLf.2]

/-- The lines of a field with a fold before each text but the first. -/
def fieldLines (first : String) (more : List String) : List (List UInt8) :=
  bytes ("Subject: " ++ first) :: more.map fun s => bytes (" " ++ s)

theorem fieldLines_append (first : String) (kept more : List String) :
    fieldLines first (kept ++ more) =
      fieldLines first kept ++ more.map fun s => bytes (" " ++ s) := by
  rw [fieldLines, List.map_append]
  rfl

variable {first : String} {more : List String}

theorem fieldLines_plain (plain : '\n' ∉ first.toList)
    (later : ∀ s ∈ more, '\n' ∉ s.toList) :
      ∀ line ∈ fieldLines first more, line ≠ [] ∧ lf ∉ line := by
  have front {a s : String} (some_ : bytes a ≠ []) (free : lf ∉ bytes a) (plain : '\n' ∉ s.toList) :
      bytes (a ++ s) ≠ [] ∧ lf ∉ bytes (a ++ s) := by
    rw [bytes_append, List.mem_append, not_or]
    exact ⟨List.append_ne_nil_of_left_ne_nil some_ _, free, lf_not_mem plain⟩
  intro line mem
  rcases List.mem_cons.mp mem with rfl | mem
  · exact front (by decide) (by decide) plain
  · obtain ⟨s, inside, rfl⟩ := List.mem_map.mp mem
    exact front (by decide) (by decide) (later s inside)

/-- Only the first megabyte of the lines is read. -/
theorem unfolded_fieldLines {first : String} {more : List String} (plain : '\n' ∉ first.toList)
    (later : ∀ s ∈ more, '\n' ∉ s.toList) : unfolded ("\r\n ".intercalate (first :: more)) =
      ({ lines := parseLines [] (splitInclusive
        ((written (fieldLines first more)).take maxHeaderBytes)) } : Headers).get "subject" := by
  have crlf : bytes "\r\n\r\n" = [cr, lf] ++ [cr, lf] := by decide
  have fold : bytes "\r\n " = [cr, lf] ++ bytes " " := by decide
  have rest (xs : List UInt8) : xs ++ (more.flatMap fun s => bytes "\r\n " ++ bytes s) ++ [cr, lf] =
      xs ++ [cr, lf] ++ written (more.map fun s => bytes (" " ++ s)) := by
    clear later
    induction more generalizing xs with
    | nil => simp
    | cons s more ih =>
      rw [List.flatMap_cons, List.map_cons, written_cons, ← List.append_assoc, ih, fold, bytes_append]
      simp
  have message : bytes ("Subject: " ++ "\r\n ".intercalate (first :: more) ++ "\r\n\r\n") =
      written (fieldLines first more) ++ [cr, lf] ++ [] := by
    rw [bytes_append, bytes_append, map_intercalate bytes_append, crlf, ← List.append_assoc,
      ← List.append_assoc, rest, fieldLines, written_cons, bytes_append, List.append_nil]
  have split := splitHeadersBody_written (List.cons_ne_nil _ _) (fieldLines_plain plain later) []
  rw [unfolded, message, parseHeaders, fieldLines, split]

theorem parseLines_folds (some_ : header.value.isEmpty = false)
    {more : List String} (trimmed : ∀ s ∈ more, trim s = s ∧ s.isEmpty = false)
    {raws : List (List UInt8)} (contents : raws.map content = more.map fun s => bytes (" " ++ s)) :
    ∃ last, parseLines [header] raws = [last] ∧ last.name = header.name ∧
      last.value.toList = header.value.toList ++ more.flatMap fun s => ' ' :: s.toList := by
  induction more generalizing header raws with
  | nil =>
    obtain rfl := List.map_eq_nil_iff.mp contents
    exact ⟨header, by rw [parseLines], rfl, by simp⟩
  | cons s more ih =>
    obtain ⟨raw, raws, rfl, text, contents⟩ := List.map_eq_cons_iff.mp contents
    dsimp only at text
    obtain ⟨bare, filled⟩ := trimmed s List.mem_cons_self
    have blank : " ".toList = [' '] := by decide
    have one : [header].length < maxHeaderLines := by
      rw [List.length_singleton]
      decide
    have shape : bytes (" " ++ s) = 32 :: bytes s := by
      have one : bytes " " = [32] := by decide
      rw [bytes_append, one, List.singleton_append]
    have folded : isFolded raw = true := by
      rw [Mime.isFolded, text, shape]
      rfl
    have notNil : content raw ≠ [] := by
      rw [text, shape]
      exact List.cons_ne_nil _ _
    rw [parseLines_cons one notNil, if_pos folded]
    show ∃ last, parseLines [Mime.unfold raw (content raw) header] _ = [last] ∧ _
    have value : (Mime.unfold raw (content raw) header).value = header.value ++ " " ++ s := by
      rw [Mime.unfold, text]
      dsimp only
      rw [fromUtf8Lossy_bytes, trim_blank, bare, filled, some_, if_neg Bool.false_ne_true,
        if_neg Bool.false_ne_true]
    have nonempty : (Mime.unfold raw (content raw) header).value.isEmpty = false := by
      rw [value, ← Bool.not_eq_true, String.isEmpty_iff, ← String.toList_inj]
      simp
    obtain ⟨last, read, name, values⟩ := ih nonempty
      (fun t mem => trimmed t (List.mem_cons_of_mem _ mem)) contents
    refine ⟨last, read, name, ?_⟩
    rw [values, value, String.toList_append, String.toList_append, blank, List.flatMap_cons]
    simp

theorem get_first {headers : List HeaderLine} {more : List HeaderLine}
    (eq : headers = header :: more) (name : header.name = "subject") :
    ({ lines := headers } : Headers).get "subject" = some header.value := by
  have same : eqIgnoreAsciiCase "subject" "subject" = true := beq_self_eq_true _
  rw [Headers.get, eq, List.find?_cons_of_pos (by rw [name]; exact same)]
  rfl

/-- Lines with these texts are read as the texts with blanks between them. -/
theorem get_of_contents
    (trimmed : ∀ s ∈ first :: more, trim s = s ∧ s.isEmpty = false) {raws : List (List UInt8)}
    (contents : raws.map content = fieldLines first more) :
    ∃ read, ({ lines := parseLines [] raws } : Headers).get "subject" = some read ∧
      read.toList = first.toList ++ more.flatMap fun s => ' ' :: s.toList := by
  obtain ⟨raw, raws, rfl, text, contents⟩ := List.map_eq_cons_iff.mp contents
  have begun := parseLines_subject (text.trans (bytes_subject first)) raws
  obtain ⟨bare, filled⟩ := trimmed first List.mem_cons_self
  rw [fromUtf8Lossy_bytes, trim_blank, bare] at begun
  obtain ⟨last, read, name, value⟩ := @parseLines_folds
    { name := "subject", raw, value := first } filled more
    (fun s mem => trimmed s (List.mem_cons_of_mem _ mem)) raws contents
  exact ⟨last.value, get_first (begun.trans read) name, value⟩

/-- A word that is a line of a field. -/
structure IsText (s : String) : Prop where
  some : s ≠ ""
  plain : ∀ c ∈ s.toList, isWhitespace c = false ∧ c.val < 128

section IsText

variable {s : String} (text : IsText s)

include text

theorem IsText.not_mem (blank : isWhitespace c = true) : c ∉ s.toList := fun mem => by
  rw [(text.plain c mem).1] at blank
  cases blank

theorem IsText.trimmed : trim s = s ∧ s.isEmpty = false := by
  refine ⟨trim_visible fun c mem => (text.plain c mem).1, ?_⟩
  rw [← Bool.not_eq_true, String.isEmpty_iff]
  exact text.some

theorem IsText.length_bytes : (bytes s).length = s.toList.length :=
  length_encode_of_ascii fun c mem => (text.plain c mem).2

end IsText

theorem unfolded_whole (text : ∀ s ∈ first :: more, IsText s)
    (fits : (written (fieldLines first more)).length ≤ maxHeaderBytes) :
    ∃ read, unfolded ("\r\n ".intercalate (first :: more)) = some read ∧
      read.toList = first.toList ++ more.flatMap fun s => ' ' :: s.toList := by
  have plain := (text first List.mem_cons_self).not_mem (c := '\n') rfl
  have later := fun s mem => (text s (List.mem_cons_of_mem _ mem)).not_mem (c := '\n') rfl
  rw [unfolded_fieldLines plain later, List.take_of_length_le fits]
  exact get_of_contents (fun s mem => (text s mem).trimmed)
    (map_content_written fun line mem => (fieldLines_plain plain later line mem).2)

/-- Where the first megabyte ends within a text, what is left of it is read. -/
theorem unfolded_cut {first s cut : String} {kept more : List String} {back : List UInt8}
    (text : ∀ t ∈ first :: (kept ++ s :: more), IsText t) (left : IsText cut)
    (start : bytes s = bytes cut ++ back)
    (size : maxHeaderBytes =
      (written (fieldLines first kept)).length + (bytes (" " ++ cut)).length) :
    ∃ read, unfolded ("\r\n ".intercalate (first :: (kept ++ s :: more))) = some read ∧
      read.toList = first.toList ++ (kept ++ [cut]).flatMap fun s => ' ' :: s.toList := by
  have plain := (text first List.mem_cons_self).not_mem (c := '\n') rfl
  have later := fun t mem => (text t (List.mem_cons_of_mem _ mem)).not_mem (c := '\n') rfl
  have front := fun line mem => (fieldLines_plain plain
    (fun t mem => later t (List.mem_append_left _ mem)) line mem).2
  have noLf := lf_not_mem (left.not_mem rfl)
  have noCr : cr ∉ bytes cut := byte_not_mem (c := '\r') (by decide) rfl (left.not_mem rfl)
  have free (b : UInt8) (blank : b ∉ bytes " ") (absent : b ∉ bytes cut) :
      stripSuffix b (bytes (" " ++ cut)) = bytes (" " ++ cut) := by
    refine if_neg fun last => ?_
    rw [bytes_append] at last
    exact (List.mem_append.mp (List.mem_of_getLast? last)).elim blank absent
  have own : content (bytes (" " ++ cut)) = bytes (" " ++ cut) := by
    rw [content, free lf (by decide) noLf, free cr (by decide) noCr]
  have taken : (written (fieldLines first (kept ++ s :: more))).take maxHeaderBytes =
      written (fieldLines first kept) ++ bytes (" " ++ cut) := by
    have whole : written (fieldLines first (kept ++ s :: more)) =
        (written (fieldLines first kept) ++ bytes (" " ++ cut)) ++
          (back ++ [cr, lf] ++ written (more.map fun s => bytes (" " ++ s))) := by
      rw [fieldLines_append, written_append, List.map_cons, written_cons, bytes_append, start,
        bytes_append]
      simp
    rw [whole, size, ← List.length_append, List.take_left]
  have last : splitInclusive (bytes (" " ++ cut)) = [bytes (" " ++ cut)] := by
    rw [bytes_append]
    refine splitInclusive_single (List.append_ne_nil_of_left_ne_nil (by decide) _) fun mem => ?_
    exact (List.mem_append.mp (List.dropLast_subset _ mem)).elim (by decide) noLf
  rw [unfolded_fieldLines plain later, taken, splitInclusive_written_append front, last]
  refine get_of_contents (fun t mem => ?_) ?_
  · rw [← List.cons_append, List.mem_append, List.mem_singleton] at mem
    rcases mem with mem | rfl
    · exact (text t (by
        rw [← List.cons_append]
        exact List.mem_append_left _ mem)).trimmed
    · exact left.trimmed
  · have same : content ∘ (· ++ [cr, lf]) = id := funext content_crlf
    rw [List.map_append, List.map_map, same, List.map_id, fieldLines_append, List.map_singleton, own,
      List.map_singleton]

end MailStack.Webmail
