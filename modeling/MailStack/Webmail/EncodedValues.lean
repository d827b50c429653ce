import MailStack.Lib.Base64
import MailStack.Webmail.EncodedRoundTrip

/-! The header values that are read back as they were. -/

namespace MailStack.Webmail

open Lib Mime

variable {codec : Base64} {charsets : Charsets} {fuel q : Nat}

/-- The value is what the reader decodes of the field that it is written in. -/
def RoundTrips (codec : Base64) (charsets : Charsets) (value : String) : Prop :=
  (unfolded (encodeHeaderValue codec value)).map (decodeRfc2047 codec charsets) = some value

/-- How many encoded words of 45 bytes are in the first megabyte of a field. -/
def wholeWords : Nat := 13980

/-- How many characters of the word after them are. -/
def cutWord : Nat := 67

/-- What is read of a value that does not fit. -/
def shortened (codec : Base64) (value : String) : List Char :=
  let parts := chunks 45 (bytes value)
  (parts.take wholeWords).flatMap readChunk ++
    ' ' :: (wordOf codec (parts[wholeWords]?.getD [])).toList.take cutWord

/-- An ASCII value is a line within the first megabyte, without white space at its ends and without
an encoded word. Each 45 bytes of another one are some characters, of which the first is no mark;
one that does not fit is what the first megabyte of its field says. -/
def Readable (codec : Base64) (charsets : Charsets) (value : String) : Prop :=
  if isAscii value then
    9 + value.length ≤ maxHeaderBytes ∧ '\n' ∉ value.toList ∧ trim value = value ∧
      ¬HasWord codec charsets value.toList
  else if (bytes value).length ≤ 45 * wholeWords + 39 then ∀ part ∈ chunks 45 (bytes value), Whole part
  else value.toList = shortened codec value

theorem trim_sublist (s : String) : (trim s).toList.Sublist s.toList := by
  rw [toList_trim]
  have inner := List.dropWhile_sublist isWhitespace (l := s.toList)
  have outer :=
    (List.dropWhile_sublist isWhitespace (l := (s.toList.dropWhile isWhitespace).reverse)).reverse
  rw [List.reverse_reverse] at outer
  exact outer.trans inner

variable {front : List UInt8}

theorem stripSuffix_append {line : List UInt8} (some_ : line ≠ []) {byte : UInt8}
    : stripSuffix byte (front ++ line) = front ++ stripSuffix byte line := by
  unfold stripSuffix
  rw [List.getLast?_append_of_ne_nil _ some_, List.dropLast_append_of_ne_nil some_]
  split <;> rfl

theorem length_stripSuffix_le (byte : UInt8) (line : List UInt8) :
    (stripSuffix byte line).length ≤ line.length := by
  unfold stripSuffix
  split
  · rw [List.length_dropLast]
    exact Nat.sub_le _ _
  · exact Nat.le_refl _

theorem length_content_le (raw : List UInt8) : (content raw).length ≤ raw.length :=
  (length_stripSuffix_le cr _).trans (length_stripSuffix_le lf raw)

theorem length_content_cons (b : UInt8) (line : List UInt8) :
    (content (b :: line)).length ≤ (content line).length + 1 := by
  by_cases some_ : line = []
  · subst some_
    exact (length_content_le [b]).trans (Nat.le_add_left _ _)
  · rw [content, ← List.singleton_append, stripSuffix_append some_]
    by_cases more : stripSuffix lf line = []
    · rw [more]
      exact (length_stripSuffix_le cr [b]).trans (Nat.le_add_left _ _)
    · rw [stripSuffix_append more, List.length_append, Nat.add_comm]
      exact Nat.le_refl _

/-- The texts of the first lines have no more bytes than the text, without its line feeds. -/
theorem length_contents {text start : List UInt8} (within : start <+: text ++ [cr, lf, cr, lf]) :
    ((splitInclusive start).map fun raw => (content raw).length).sum + text.count lf ≤
      text.length := by
  induction text generalizing start with
  | nil =>
    have ends : ∀ start ∈ [cr, lf, cr, lf].inits,
        ((splitInclusive start).map fun raw => (content raw).length).sum = 0 := by decide
    rw [ends start ((List.mem_inits _ _).mpr within)]
    rfl
  | cons b text ih =>
    have counted := @List.count_le_length _ _ lf (b :: text)
    cases start with
    | nil => rwa [splitInclusive, List.map_nil, List.sum_nil, Nat.zero_add]
    | cons c start =>
      obtain ⟨rfl, later⟩ := List.cons_prefix_cons.mp within
      have rest := ih later
      rw [splitInclusive, List.length_cons]
      split
      next isLf =>
        have nothing : (content [c]).length = 0 := by
          rw [isLf]
          rfl
        rw [List.map_cons, List.sum_cons, nothing, isLf, List.count_cons_self]
        omega
      next other =>
        rw [List.count_cons_of_ne other] at counted ⊢
        cases eq : splitInclusive start with
        | nil =>
          have one : (content [c]).length ≤ 1 := length_content_le [c]
          rw [List.length_cons] at counted
          have := @List.count_le_length _ _ lf text
          rw [List.map_singleton, List.sum_singleton]
          omega
        | cons line lines =>
          rw [eq, List.map_cons, List.sum_cons] at rest
          have longer := length_content_cons c line
          rw [List.map_cons, List.sum_cons]
          omega

theorem trim_cons {c : Char} (blank : isWhitespace c = true) (cs : List Char) :
    trim (String.ofList (c :: cs)) = trim (String.ofList cs) := by
  rw [← String.toList_inj, toList_trim, toList_trim, String.toList_ofList, String.toList_ofList,
    List.dropWhile_cons_of_pos blank]

theorem length_trim_blank {b : UInt8} (blank : b = 32 ∨ b = 9) (data : List UInt8) :
    (trim (fromUtf8Lossy (b :: data))).length ≤ data.length := by
  have first : ∃ c, isWhitespace c = true ∧ lossyChars (b :: data) = c :: lossyChars data := by
    rcases blank with rfl | rfl
    · exact ⟨' ', by decide, by rw [lossyChars.eq_def]; rfl⟩
    · exact ⟨'\t', by decide, by rw [lossyChars.eq_def]; rfl⟩
  obtain ⟨c, space, eq⟩ := first
  rw [fromUtf8Lossy, eq, trim_cons space, ← String.length_toList]
  have short := (trim_sublist (String.ofList (lossyChars data))).length_le
  rw [String.toList_ofList] at short
  exact short.trans (lossyChars_length data)

/-- A folded line adds no more characters than it has bytes. -/
theorem length_unfold {raw : List UInt8} (folded : isFolded raw = true) (header : HeaderLine) :
    (Mime.unfold raw (content raw) header).value.length ≤ header.value.length +
      (content raw).length := by
  have short : (trim (fromUtf8Lossy (content raw))).length + 1 ≤ (content raw).length := by
    rw [Mime.isFolded, Bool.or_eq_true, decide_eq_true_eq, decide_eq_true_eq] at folded
    cases eq : content raw with
    | nil =>
      rw [eq] at folded
      rcases folded with none_ | none_
      · cases none_
      · cases none_
    | cons b data =>
      rw [eq] at folded
      rw [List.length_cons]
      exact Nat.succ_le_succ (length_trim_blank (folded.imp Option.some.inj Option.some.inj) data)
  rw [Mime.unfold]
  generalize trim (fromUtf8Lossy (content raw)) = value at short
  dsimp only
  split
  · exact Nat.le_add_right _ _
  · split
    · omega
    · have blank : " ".length = 1 := by decide
      rw [String.length_append, String.length_append, blank]
      omega

theorem parseLines_first (header : HeaderLine) (done : List HeaderLine)
    (lines : List (List UInt8)) :
    ∃ last more, parseLines (header :: done) lines = last :: more ∧ last.name = header.name ∧
      last.value.length ≤ header.value.length +
        (lines.map fun raw => (content raw).length).sum := by
  induction lines generalizing header done with
  | nil => exact ⟨header, done, by rw [parseLines], rfl, Nat.le_add_right _ _⟩
  | cons raw rest ih =>
    rw [List.map_cons, List.sum_cons]
    by_cases room : (header :: done).length < maxHeaderLines
    · by_cases filled : content raw = []
      · exact ⟨header, done, parseLines_blank filled, rfl, Nat.le_add_right _ _⟩
      · -- the first header is the one that is folded only if it is the last
        have next (header' : HeaderLine) (done' : List HeaderLine)
            (name : header'.name = header.name)
            (short : header'.value.length ≤ header.value.length + (content raw).length) :
            ∃ last more, parseLines (header' :: done') rest = last :: more ∧
              last.name = header.name ∧
              last.value.length ≤ header.value.length +
                ((content raw).length + (rest.map fun raw => (content raw).length).sum) := by
          obtain ⟨last, more, eq, same, bound⟩ := ih header' done'
          exact ⟨last, more, eq, same.trans name, by omega⟩
        rw [parseLines_cons room filled]
        cases folded : isFolded raw with
        | true =>
          rw [if_pos rfl]
          rcases List.eq_nil_or_concat done with rfl | ⟨init, final, rfl⟩
          · exact next _ [] rfl (length_unfold folded header)
          · rw [List.concat_eq_append, ← List.cons_append, List.modifyLast_concat]
            exact next header _ rfl (Nat.le_add_right _ _)
        | false =>
          rw [if_neg Bool.false_ne_true]
          cases parseHeader raw (content raw) with
          | none => exact next header done rfl (Nat.le_add_right _ _)
          | some other => exact next header (done ++ [other]) rfl (Nat.le_add_right _ _)
    · exact ⟨header, done, parseLines_full (Nat.not_lt.mp room), rfl, Nat.le_add_right _ _⟩

theorem content_append (noCr : cr ∉ front) (noLf : lf ∉ front)
    (line : List UInt8) : content (front ++ line) = front ++ content line := by
  have strip {b : UInt8} (absent : b ∉ front) (line : List UInt8) :
      stripSuffix b (front ++ line) = front ++ stripSuffix b line := by
    by_cases some_ : line = []
    · rw [some_, List.append_nil]
      exact (if_neg fun last => absent (List.mem_of_getLast? last)).trans (List.append_nil _).symm
    · exact stripSuffix_append some_
  rw [content, strip noLf, strip noCr]
  rfl

theorem splitInclusive_front (some_ : front ≠ []) (noLf : lf ∉ front)
    (text : List UInt8) : splitInclusive (front ++ text) =
      (front ++ (splitInclusive text).headD []) :: (splitInclusive text).tail := by
  induction front with
  | nil => exact absurd rfl some_
  | cons c front ih =>
    rw [List.mem_cons, not_or] at noLf
    rw [List.cons_append, splitInclusive, if_neg (Ne.symm noLf.1)]
    by_cases last : front = []
    · rw [last, List.nil_append]
      cases splitInclusive text <;> rfl
    · rw [ih last noLf.2]
      rfl

theorem find_front {b : UInt8} (absent : b ∉ front) (needle text : List UInt8) :
    find (b :: needle) (front ++ text) = (find (b :: needle) text).map (· + front.length) := by
  induction front with
  | nil => simp
  | cons c front ih =>
    rw [List.mem_cons, not_or] at absent
    rw [List.cons_append, find, if_neg, ih absent.2, Option.map_map]
    · rfl
    · rw [List.isPrefixOf_iff_prefix, List.cons_prefix_cons]
      exact fun same => absent.1 same.1

theorem splitHeadersBody_front (noCr : cr ∉ front) (noLf : lf ∉ front) (text : List UInt8) :
    (splitHeadersBody (front ++ text)).1 = front ++ (splitHeadersBody text).1 := by
  have taken (n k : Nat) : (front ++ text).take (n + front.length + k) =
      front ++ text.take (n + k) := by
    rw [Nat.add_right_comm, Nat.add_comm, List.take_length_add_append]
  rw [splitHeadersBody, splitHeadersBody, find_front noCr, find_front noLf]
  cases find [cr, lf, cr, lf] text with
  | some position => exact taken position 2
  | none =>
    cases find [lf, lf] text with
    | some position => exact taken position 1
    | none => rfl

/-- What is read has no more characters than the value has bytes, without its line feeds, and than
the first megabyte has after the name. -/
theorem unfolded_length (value : String) : ∃ read, unfolded value = some read ∧
    read.length + (bytes value).count lf ≤ (bytes value).length ∧
    9 + read.length ≤ maxHeaderBytes := by
  have crlf : bytes "\r\n\r\n" = [cr, lf, cr, lf] := by decide
  have name : (bytes "Subject: ").length = 9 := by decide
  have message : bytes ("Subject: " ++ value ++ "\r\n\r\n") =
      bytes "Subject: " ++ (bytes value ++ [cr, lf, cr, lf]) := by
    rw [bytes_append, bytes_append, crlf, List.append_assoc]
  let head := (splitHeadersBody (bytes value ++ [cr, lf, cr, lf])).1
  have isPrefix : head <+: bytes value ++ [cr, lf, cr, lf] := by
    unfold head splitHeadersBody
    split
    · exact List.take_prefix _ _
    · split
      · exact List.take_prefix _ _
      · exact List.prefix_refl _
  have taken : (splitHeadersBody (bytes ("Subject: " ++ value ++ "\r\n\r\n"))).1.take
      maxHeaderBytes =
      bytes "Subject: " ++ head.take (maxHeaderBytes - 9) := by
    rw [message, splitHeadersBody_front (by decide) (by decide), List.take_append, name,
      List.take_of_length_le (by rw [name]; decide)]
  generalize start_ : head.take (maxHeaderBytes - 9) = start at taken
  have within : start <+: bytes value ++ [cr, lf, cr, lf] :=
    start_ ▸ (List.take_prefix _ _).trans isPrefix
  have short : start.length ≤ maxHeaderBytes - 9 := by
    rw [← start_]
    exact List.length_take_le _ _
  have lines := splitInclusive_front (by decide) (by decide : lf ∉ bytes "Subject: ") start
  have text : content (bytes "Subject: " ++ (splitInclusive start).headD []) =
      bytes "Subject:" ++ (32 :: content ((splitInclusive start).headD [])) := by
    have front : bytes "Subject: " = bytes "Subject:" ++ [32] := by decide
    rw [content_append (by decide) (by decide), front, List.append_assoc]
    rfl
  have read := parseLines_subject text (splitInclusive start).tail
  obtain ⟨last, more, eq, same, bound⟩ := parseLines_first _ [] _
  refine ⟨last.value, ?_, ?_⟩
  · rw [unfolded, parseHeaders, taken, lines, get_first (read.trans eq) same]
  · have first := @length_trim_blank 32 (.inl rfl) (content ((splitInclusive start).headD []))
    have free := length_contents within
    have all := length_contents (List.prefix_append start [cr, lf, cr, lf])
    have sum : (content ((splitInclusive start).headD [])).length +
        ((splitInclusive start).tail.map fun raw => (content raw).length).sum =
          ((splitInclusive start).map fun raw => (content raw).length).sum := by
      cases splitInclusive start with
      | nil => rfl
      | cons line lines => rw [List.map_cons, List.sum_cons]; rfl
    have room : 9 ≤ maxHeaderBytes := by decide
    dsimp only at bound
    constructor
    · omega
    · omega

variable {value : String}

/-- Nothing of a value without white space at its end is stripped, even if its line end is cut. -/
theorem content_take (plain : '\n' ∉ value.toList) (trimmed : trim value = value)
    {n : Nat} (fits : 1 + (bytes value).length ≤ n) :
    content ((bytes (" " ++ value) ++ [cr, lf]).take n) = bytes (" " ++ value) := by
  have size : (bytes (" " ++ value)).length = 1 + (bytes value).length := by
    have one : (bytes " ").length = 1 := by decide
    rw [bytes_append, List.length_append, one]
  have noLf : lf ∉ bytes (" " ++ value) := by
    rw [bytes_append, List.mem_append, not_or]
    exact ⟨by decide, lf_not_mem plain⟩
  have noCr : (bytes (" " ++ value)).getLast? ≠ some cr := by
    intro last
    have blank : " ".toList = [' '] := by decide
    rcases List.eq_nil_or_concat value.toList with none_ | ⟨front, c, shape⟩
    · rw [String.toList_eq_nil_iff.mp none_] at last
      exact absurd last (by decide)
    · have own : bytes (" " ++ value) = encode (' ' :: front) ++ String.utf8EncodeChar c := by
        rw [bytes, String.toList_append, blank, shape]
        simp [encode]
      rw [own, List.getLast?_append_of_ne_nil _ String.utf8EncodeChar_ne_nil] at last
      have code := (ascii_mem_utf8EncodeChar (List.mem_of_getLast? last) (by decide)).1
      have same : c = '\r' := by
        rw [Char.ext_iff, ← UInt32.toNat_inj]
        exact code
      have ends : (trim value).toList.getLast? = some c := by
        rw [trimmed, shape, List.concat_eq_append, List.getLast?_concat]
      exact absurd (isWhitespace_of_getLast?_trim ends) (by rw [same]; decide)
  have keepsLf : stripSuffix lf (bytes (" " ++ value)) = bytes (" " ++ value) :=
    if_neg fun last => noLf (List.mem_of_getLast? last)
  rw [List.take_append, List.take_of_length_le (by omega)]
  rcases n - (bytes (" " ++ value)).length with _ | _ | more
  · rw [List.take_zero, List.append_nil, content, keepsLf]
    exact if_neg noCr
  · have keeps : stripSuffix lf (bytes (" " ++ value) ++ [cr]) = bytes (" " ++ value) ++ [cr] := by
      refine if_neg ?_
      rw [List.getLast?_concat]
      decide
    exact (congrArg (stripSuffix cr) keeps).trans (stripSuffix_concat cr _)
  · rw [List.take_of_length_le (Nat.le_add_left 2 more)]
    exact content_crlf _

theorem get_of_line (plain : '\n' ∉ value.toList) {limit : Nat} (room : 8 ≤ limit) :
    ({ lines := parseLines [] (splitInclusive
        ((written (fieldLines value [])).take limit)) } : Headers).get "subject" =
      some (trim (fromUtf8Lossy (content ((bytes (" " ++ value) ++
        [cr, lf]).take (limit - 8))))) := by
  have name : (bytes "Subject:").length = 8 := by decide
  have shape : written (fieldLines value []) = (bytes ("Subject: " ++ value) ++ [cr]) ++ [lf] := by
    rw [fieldLines, List.map_nil, written_cons, written_nil]
    simp
  have taken : (written (fieldLines value [])).take limit =
      bytes "Subject:" ++ (bytes (" " ++ value) ++ [cr, lf]).take (limit - 8) := by
    rw [fieldLines, List.map_nil, written_cons, written_nil, List.append_nil, bytes_subject,
      List.append_assoc, List.take_append, name, List.take_of_length_le (by omega)]
  have noLf : lf ∉ ((written (fieldLines value [])).take limit).dropLast := by
    have free : lf ∉ bytes ("Subject: " ++ value) ++ [cr] := by
      rw [List.mem_append, not_or, bytes_append, List.mem_append, not_or]
      exact ⟨⟨by decide, lf_not_mem plain⟩, by decide⟩
    rw [shape, List.take_append]
    rcases limit - (bytes ("Subject: " ++ value) ++ [cr]).length with _ | more
    · rw [List.take_zero, List.append_nil]
      exact fun mem => free (List.mem_of_mem_take (List.dropLast_subset _ mem))
    · rw [List.take_succ_cons, List.take_nil, List.dropLast_concat]
      exact fun mem => free (List.mem_of_mem_take mem)
  rw [taken] at noLf ⊢
  rw [splitInclusive_single (List.append_ne_nil_of_left_ne_nil (by decide) _) noLf]
  have read := parseLines_subject (content_append (by decide) (by decide)
    ((bytes (" " ++ value) ++ [cr, lf]).take (limit - 8))) []
  rw [parseLines] at read
  have value := get_first read rfl
  exact value

/-- A value that is one line is read without the white space around it. -/
theorem unfolded_line (plain : '\n' ∉ value.toList) :
    unfolded value = some (trim (fromUtf8Lossy (content
      ((bytes (" " ++ value) ++ [cr, lf]).take (maxHeaderBytes - 8))))) := by
  have field := @unfolded_fieldLines value [] plain (List.forall_mem_nil _)
  rw [String.intercalate_singleton] at field
  exact field.trans (get_of_line plain (by decide))

theorem roundTrips_ascii (standard : codec.Standard) (documented : charsets.Documented)
    (ascii : isAscii value = true) :
    RoundTrips codec charsets value ↔ 9 + value.length ≤ maxHeaderBytes ∧
      '\n' ∉ value.toList ∧ trim value = value ∧ ¬HasWord codec charsets value.toList := by
  have written : encodeHeaderValue codec value = value := if_pos ascii
  have size : (bytes value).length = value.length := by
    rw [← String.length_toList]
    exact length_encode_of_ascii (by simpa [isAscii] using ascii)
  rw [RoundTrips, written]
  constructor
  · intro same
    obtain ⟨read, eq, free, short⟩ := unfolded_length value
    rw [eq, Option.map_some, Option.some_inj] at same
    have decoded := congrArg (fun s => s.toList.length) same
    rw [toList_decodeRfc2047, String.length_toList] at decoded
    have long := @decodeLoop_length codec charsets standard documented 0 false read.toList
    rw [String.length_toList] at long
    -- what is read is as long as the value, so it has no word
    have noWord : ¬HasWord codec charsets read.toList := fun hasWord => by
      have shorter := decodeLoop_shorter standard documented hasWord
      rw [String.length_toList] at shorter
      omega
    have own : read = value := by
      rw [← String.toList_inj, ← same, toList_decodeRfc2047, decodeLoop_plain noWord]
    have plain : '\n' ∉ value.toList := by
      intro mem
      have line : String.utf8EncodeChar '\n' = [lf] := by decide
      have inside : lf ∈ bytes value :=
        List.mem_flatMap.mpr ⟨'\n', mem, by rw [line]; exact List.mem_singleton_self _⟩
      have some_ := List.count_pos_iff.mpr inside
      omega
    rw [unfolded_line plain, own, Option.some_inj] at eq
    exact ⟨own ▸ short, plain, by rw [← eq, trim_trim], own ▸ noWord⟩
  · rintro ⟨fits, plain, trimmed, noWord⟩
    have read : unfolded value = some value := by
      rw [unfolded_line plain, content_take plain trimmed (by omega), fromUtf8Lossy_bytes, trim_blank,
        trimmed]
    rw [read, Option.map_some, Option.some_inj, ← String.toList_inj, toList_decodeRfc2047,
      decodeLoop_plain noWord]

variable {part : List UInt8}

theorem isChunk_of_mem (mem : part ∈ chunks 45 (bytes value)) :
    IsChunk part := by
  obtain ⟨some_, short⟩ := mem_chunksFor (by omega) mem
  refine ⟨some_, short, fun b inside => ?_⟩
  have here : b ∈ bytes value := by
    rw [← @flatten_chunksFor _ 45 (by omega) _ _ (Nat.le_refl (bytes value).length)]
    exact List.mem_flatten.mpr ⟨part, mem, inside⟩
  obtain ⟨c, -, written⟩ := List.mem_flatMap.mp here
  rw [UInt8.lt_iff_toNat_lt]
  exact lt_of_mem_utf8EncodeChar written

theorem plain_wordOf (standard : codec.Standard) {c : Char}
    (mem : c ∈ (wordOf codec part).toList) : isWhitespace c = false ∧ c.val < 128 := by
  rw [toList_wordOf] at mem
  simp only [List.mem_cons, List.mem_append] at mem
  rcases mem with rfl | rfl | mem | rfl | rfl | rfl | mem | rfl | rfl | mem
  · decide
  · decide
  · revert c
    decide
  · decide
  · decide
  · decide
  · exact (standard.plain mem).2
  · decide
  · decide
  · cases mem

theorem isText_wordOf (standard : codec.Standard) (part : List UInt8) :
    IsText (wordOf codec part) := by
  refine ⟨fun none_ => ?_, fun c mem => plain_wordOf standard mem⟩
  have shape := toList_wordOf codec part
  rw [none_] at shape
  cases shape

/-- How many bytes the line of a word has, with what ends it. -/
def room (part : List UInt8) : Nat := 15 + 4 * ((part.length + 2) / 3)

theorem length_wordOf (standard : codec.Standard) (part : List UInt8) :
    (wordOf codec part).toList.length = 12 + 4 * ((part.length + 2) / 3) := by
  have size := standard.size part
  have label : "UTF-8".toList.length = 5 := by decide
  rw [← String.length_toList] at size
  rw [toList_wordOf]
  simp only [List.length_cons, List.length_append, List.length_nil, label]
  omega

theorem length_fieldLines (standard : codec.Standard) (part : List UInt8)
    (parts : List (List UInt8)) :
    (written (fieldLines (wordOf codec part) (parts.map (wordOf codec)))).length =
      8 + ((part :: parts).map room).sum := by
  have line (part : List UInt8) : (bytes (" " ++ wordOf codec part)).length + 2 = room part := by
    have one : (bytes " ").length = 1 := by decide
    rw [bytes_append, List.length_append, one, (isText_wordOf standard part).length_bytes,
      length_wordOf standard, room]
    omega
  have name : (bytes "Subject:").length = 8 := by decide
  have rest : (written ((parts.map (wordOf codec)).map fun s => bytes (" " ++ s))).length =
      (parts.map room).sum := by
    induction parts with
    | nil => rfl
    | cons part parts ih =>
      rw [List.map_cons, List.map_cons, written_cons, List.length_append, List.length_append, ih,
        List.map_cons, List.sum_cons, ← line part]
      rfl
  have first := line part
  rw [fieldLines, written_cons, List.length_append, List.length_append, rest, bytes_subject,
    List.length_append, name, List.map_cons, List.sum_cons]
  simp only [List.length_cons, List.length_nil]
  omega

theorem sum_room_le {xs : List UInt8} (short : xs.length ≤ 45 * q + 39) :
    ((chunksFor 45 fuel xs).map room).sum ≤ 75 * q + 67 := by
  induction fuel generalizing q xs with
  | zero => exact Nat.zero_le _
  | succ fuel ih =>
    cases xs with
    | nil => exact Nat.zero_le _
    | cons x xs =>
      have step : chunksFor 45 (fuel + 1) (x :: xs) =
          (x :: xs).take 45 :: chunksFor 45 fuel ((x :: xs).drop 45) := by
        rw [chunksFor]
        exact List.cons_ne_nil _ _
      have size := @List.length_take _ 45 (x :: xs)
      rw [step, List.map_cons, List.sum_cons, room]
      cases q with
      | zero =>
        have nothing : (x :: xs).drop 45 = [] := List.drop_eq_nil_of_le (by omega)
        have none_ : chunksFor 45 fuel ([] : List UInt8) = [] := by
          cases fuel <;> rfl
        rw [nothing, none_, List.map_nil, List.sum_nil]
        omega
      | succ q =>
        have rest := @ih q ((x :: xs).drop 45) (by rw [List.length_drop]; omega)
        omega

/-- The parts of a text that is too long. -/
theorem chunksFor_long {xs : List UInt8} (enough : xs.length ≤ fuel)
    (long : 45 * q + 39 < xs.length) : ∃ full part rest,
      chunksFor 45 fuel xs = full ++ part :: rest ∧ full.length = q ∧
        (full.map room).sum = 75 * q ∧ 40 ≤ part.length := by
  induction q generalizing fuel xs with
  | zero =>
    cases fuel with
    | zero => omega
    | succ fuel =>
      have some_ : xs ≠ [] := List.ne_nil_of_length_pos (by omega)
      refine ⟨[], xs.take 45, chunksFor 45 fuel (xs.drop 45), ?_, rfl, rfl, ?_⟩
      · rw [chunksFor, List.nil_append]
        exact some_
      · rw [List.length_take]
        omega
  | succ q ih =>
    cases fuel with
    | zero => omega
    | succ fuel =>
      have some_ : xs ≠ [] := List.ne_nil_of_length_pos (by omega)
      obtain ⟨full, part, rest, split, length, sum, size⟩ := @ih fuel (xs.drop 45)
        (by rw [List.length_drop]; omega) (by rw [List.length_drop]; omega)
      refine ⟨xs.take 45 :: full, part, rest, ?_, by rw [List.length_cons, length], ?_, size⟩
      · rw [chunksFor, split, List.cons_append]
        exact some_
      · rw [List.map_cons, List.sum_cons, sum, room, List.length_take, min_eq_left (by omega)]
        omega

/-- A word has four question marks, of which none is at its end. -/
theorem count_of_word {cs : List Char} (word : (parseEncodedWord codec charsets cs).isSome) :
    4 ≤ cs.dropLast.count '?' := by
  obtain ⟨_, isWord⟩ := Option.isSome_iff_exists.mp word
  unfold parseEncodedWord at isWord
  split at isWord
  next rest =>
    split at isWord
    · cases isWord
    next charset afterCharset split =>
      obtain ⟨rfl, -⟩ := splitOnceChars_eq_some split
      split at isWord
      · cases isWord
      · split at isWord
        next encoding textRest =>
          split at isWord
          · cases isWord
          · split at isWord
            · cases isWord
            next text after found =>
              obtain rfl := splitOnceAt_eq_some found
              have shape : '=' :: '?' :: (charset ++ '?' :: encoding :: '?' ::
                  (text ++ ['?', '='] ++ after)) =
                  (['=', '?'] ++ charset ++ ['?', encoding, '?'] ++ text ++ ['?']) ++
                    '=' :: after := by simp
              rw [shape, List.dropLast_append_of_ne_nil (List.cons_ne_nil _ _)]
              have first : ['=', '?'].count '?' = 1 := by decide
              have middle : 2 ≤ ['?', encoding, '?'].count '?' := by
                simp [List.count_cons]
              have last : ['?'].count '?' = 1 := by decide
              simp only [List.count_append]
              omega
        next => cases isWord
  next => cases isWord

theorem noWord_cut (standard : codec.Standard) {n : Nat}
    (short : n ≤ 11 + (codec.encode part).toList.length) :
    ¬HasWord codec charsets (' ' :: (wordOf codec part).toList.take n) := by
  have front : (' ' :: "=?UTF-8?B?".toList).count '?' = 3 := by decide
  have length : (' ' :: "=?UTF-8?B?".toList).length = 11 := by decide
  have none_ : (codec.encode part).toList.count '?' = 0 :=
    List.count_eq_zero_of_not_mem fun mem => (standard.plain mem).1 rfl
  have taken : ' ' :: (wordOf codec part).toList.take n <+:
      (' ' :: "=?UTF-8?B?".toList) ++ (codec.encode part).toList ++ ['?'] := by
    have back : "?=".toList = ['?'] ++ ['='] := by decide
    have whole : ' ' :: (wordOf codec part).toList =
        (' ' :: "=?UTF-8?B?".toList ++ (codec.encode part).toList ++ ['?']) ++ ['='] := by
      rw [wordOf, String.toList_append, String.toList_append, back]
      simp only [List.cons_append, List.append_assoc]
    rw [← List.take_succ_cons, whole, List.take_append_of_le_length]
    · exact List.take_prefix _ _
    · simp only [List.length_append, length, List.length_singleton]
      omega
  rintro ⟨before, rest, eq, word⟩
  have four := count_of_word word
  rcases List.eq_nil_or_concat rest with rfl | ⟨start, last, rfl⟩
  · cases word
  · rw [List.concat_eq_append] at eq four
    rw [List.dropLast_concat] at four
    rw [eq, ← List.append_assoc] at taken
    -- what is before the last character has only the question marks before the data
    have inside : start <:+: (' ' :: "=?UTF-8?B?".toList) ++ (codec.encode part).toList := by
      refine List.IsInfix.trans (List.suffix_append before start).isInfix (List.IsPrefix.isInfix ?_)
      have short := taken.length_le
      rw [List.length_append, @List.length_append _ _ ['?'], List.length_singleton,
        List.length_singleton] at short
      refine List.prefix_of_prefix_length_le ((List.prefix_append _ [last]).trans taken)
        (List.prefix_append _ _) (Nat.le_of_succ_le_succ short)
    have few := inside.sublist.count_le '?'
    rw [List.count_append, front, none_] at few
    omega

theorem chunks_ne_nil (other : isAscii value = false) : chunks 45 (bytes value) ≠ [] := by
  intro none_
  have flat := @flatten_chunksFor _ 45 (by omega) _ _ (Nat.le_refl (bytes value).length)
  rw [← chunks, none_] at flat
  have nothing : value.toList = [] := encode_injective flat.symm
  rw [isAscii, nothing] at other
  cases other

theorem encodeHeaderValue_other (other : isAscii value = false) :
    encodeHeaderValue codec value =
      "\r\n ".intercalate ((chunks 45 (bytes value)).map (wordOf codec)) :=
  if_neg (by rw [other]; exact Bool.false_ne_true)

theorem roundTrips_fitting (standard : codec.Standard) (documented : charsets.Documented)
    (other : isAscii value = false) (fits : (bytes value).length ≤ 45 * wholeWords + 39) :
    RoundTrips codec charsets value ↔ ∀ part ∈ chunks 45 (bytes value), Whole part := by
  have isChunk : ∀ part ∈ chunks 45 (bytes value), IsChunk part :=
    fun part mem => isChunk_of_mem mem
  have whole : (chunks 45 (bytes value)).flatMap readChunk = value.toList ↔
      ∀ part ∈ chunks 45 (bytes value), Whole part := readChunks_eq_iff value.toList
  have sum : ((chunks 45 (bytes value)).map room).sum ≤ 75 * wholeWords + 67 := sum_room_le fits
  rw [RoundTrips, encodeHeaderValue_other other, ← whole]
  obtain ⟨part, parts, eq⟩ := List.exists_cons_of_ne_nil (chunks_ne_nil other)
  rw [eq] at isChunk sum ⊢
  have size : (written (fieldLines (wordOf codec part) (parts.map (wordOf codec)))).length ≤
      maxHeaderBytes := by
    rw [length_fieldLines standard]
    unfold wholeWords at sum
    unfold maxHeaderBytes
    omega
  obtain ⟨read, unfolds, texts⟩ := unfolded_whole (fun s mem => by
    rw [← List.map_cons] at mem
    obtain ⟨other, -, rfl⟩ := List.mem_map.mp mem
    exact isText_wordOf standard other) size
  have decoded : (decodeRfc2047 codec charsets read).toList =
      (part :: parts).flatMap readChunk := by
    have later := decodeLoop_words standard documented
      (fun other mem => isChunk other (List.mem_cons_of_mem _ mem)) []
    rw [List.append_nil, decodeLoop, List.append_nil] at later
    rw [toList_decodeRfc2047, texts, List.flatMap_map,
      decodeLoop_word standard documented (isChunk part List.mem_cons_self), later]
    rfl
  rw [List.map_cons, unfolds, Option.map_some, Option.some_inj, ← String.toList_inj, decoded]

theorem roundTrips_long (standard : codec.Standard) (documented : charsets.Documented)
    (other : isAscii value = false) (long : ¬(bytes value).length ≤ 45 * wholeWords + 39) :
    RoundTrips codec charsets value ↔ value.toList = shortened codec value := by
  have isChunk : ∀ part ∈ chunks 45 (bytes value), IsChunk part :=
    fun part mem => isChunk_of_mem mem
  obtain ⟨full, part, rest, split, length, sum, size⟩ :=
    chunksFor_long (Nat.le_refl _) (Nat.lt_of_not_le long)
  have split : chunks 45 (bytes value) = full ++ part :: rest := split
  have reads : shortened codec value =
      full.flatMap readChunk ++ ' ' :: (wordOf codec part).toList.take cutWord := by
    have next : (full ++ part :: rest)[full.length]? = some part := by simp
    dsimp only [shortened]
    rw [split, ← length, List.take_left, next]
    rfl
  rw [RoundTrips, encodeHeaderValue_other other, reads]
  obtain ⟨first, kept, rfl⟩ := List.exists_cons_of_length_pos (l := full) (by
    rw [length]
    exact Nat.succ_pos _)
  have chars := length_wordOf standard part
  have wide : ((wordOf codec part).toList.take cutWord).length = cutWord := by
    rw [List.length_take, chars]
    unfold cutWord
    omega
  obtain ⟨cut, cutList⟩ : ∃ cut : String, cut.toList = (wordOf codec part).toList.take cutWord :=
    ⟨String.ofList _, String.toList_ofList⟩
  have left : IsText cut := by
    refine ⟨fun none_ => ?_,
      fun c mem => plain_wordOf standard (List.mem_of_mem_take (cutList ▸ mem))⟩
    rw [← cutList, none_] at wide
    cases wide
  have start : bytes (wordOf codec part) =
      bytes cut ++ encode ((wordOf codec part).toList.drop cutWord) := by
    show encode _ = encode cut.toList ++ _
    rw [cutList, ← encode_append, List.take_append_drop]
  have ends : maxHeaderBytes =
      (written (fieldLines (wordOf codec first) (kept.map (wordOf codec)))).length +
        (bytes (" " ++ cut)).length := by
    have one : (bytes " ").length = 1 := by decide
    rw [length_fieldLines standard, sum, bytes_append, List.length_append, one, left.length_bytes,
      cutList, wide]
    rfl
  obtain ⟨read, unfolds, texts⟩ :=
    @unfolded_cut _ _ cut _ (rest.map (wordOf codec)) _ (fun s mem => by
    rw [← List.map_cons, ← List.map_append, ← List.map_cons] at mem
    obtain ⟨other, -, rfl⟩ := List.mem_map.mp mem
    exact isText_wordOf standard other) left start ends
  have noWord : ¬HasWord codec charsets (' ' :: cut.toList) := by
    have data := standard.size part
    rw [cutList]
    refine noWord_cut standard ?_
    rw [String.length_toList, data]
    unfold cutWord
    omega
  rw [split] at isChunk
  have decoded : (decodeRfc2047 codec charsets read).toList =
      (first :: kept).flatMap readChunk ++ ' ' :: cut.toList := by
    rw [toList_decodeRfc2047, texts, List.flatMap_append, List.flatMap_map, List.flatMap_singleton,
      decodeLoop_word standard documented (isChunk first List.mem_cons_self),
      decodeLoop_words standard documented fun other mem =>
        isChunk other (List.mem_cons_of_mem _ (List.mem_append_left _ mem)),
      decodeLoop_plain noWord, List.flatMap_cons, List.append_assoc]
  rw [split, List.cons_append, List.map_cons, List.map_append, List.map_cons, unfolds,
    Option.map_some, Option.some_inj, ← String.toList_inj, decoded, cutList]
  exact eq_comm

/-- A value is read back exactly where it is readable. -/
theorem roundTrips_iff (standard : codec.Standard) (documented : charsets.Documented)
    (value : String) :
    RoundTrips codec charsets value ↔ Readable codec charsets value := by
  unfold Readable
  cases ascii : isAscii value with
  | true => exact roundTrips_ascii standard documented ascii
  | false =>
    rw [if_neg Bool.false_ne_true]
    split
    next fits => exact roundTrips_fitting standard documented ascii fits
    next long => exact roundTrips_long standard documented ascii long

def standardBase64 : Base64 :=
  { encode := fun data => String.ofList (Lib.Base64.encode data)
    decode := fun text => Lib.Base64.decode text.toList }

theorem standardBase64_standard : standardBase64.Standard :=
  { alphabet := fun data c mem => by
      rw [standardBase64, String.toList_ofList] at mem
      exact Lib.Base64.mem_encode mem
    size := fun data => by
      rw [standardBase64, String.length_ofList, Lib.Base64.length_encode]
    inverts := fun data => by
      show Lib.Base64.decode (String.ofList (Lib.Base64.encode data)).toList = some data
      rw [String.toList_ofList, Lib.Base64.decode_encode]
    shortens := fun text data h => by
      rw [← String.length_toList]
      exact Lib.Base64.length_decode h }

/-- UTF-8 is the only encoding with a label, and each other byte is a character. -/
def utf8Charsets : Charsets :=
  { forLabel := fun label => if label = "UTF-8" then some fun data => fromUtf8Lossy (withoutBom data) else none
    windows1252 := fun data => String.ofList (data.map fun byte => Char.ofNat byte.toNat) }

theorem utf8Charsets_documented : utf8Charsets.Documented :=
  { utf8 := ⟨fun data => fromUtf8Lossy (withoutBom data), rfl, fun _ _ _ => rfl⟩
    labelled := fun label decode found data => by
      rw [utf8Charsets, ite_eq_iff] at found
      rcases found with ⟨-, found⟩ | ⟨-, none_⟩
      · obtain rfl := Option.some.inj found
        have fewer : (withoutBom data).length ≤ data.length := by
          unfold withoutBom
          split
          · exact (List.drop_sublist 3 data).length_le
          · exact Nat.le_refl _
        dsimp only
        rw [fromUtf8Lossy, String.length_ofList]
        exact ((lossyChars_length _).trans fewer).trans (Nat.le_succ _)
      · cases none_
    windows1252 := fun data => by
      rw [utf8Charsets, String.length_ofList, List.length_map]
      exact Nat.le_succ _ }

/-- The 60 bytes of these characters are cut after 45, between two of them. -/
theorem roundTrips_iff_euros :
    standardBase64.Standard ∧ utf8Charsets.Documented ∧
      RoundTrips standardBase64 utf8Charsets "€€€€€€€€€€€€€€€€€€€€" := by
  refine ⟨standardBase64_standard, utf8Charsets_documented,
    (roundTrips_iff standardBase64_standard utf8Charsets_documented _).mpr ?_⟩
  have parts : chunks 45 (bytes "€€€€€€€€€€€€€€€€€€€€") =
      [encode (List.replicate 15 '€'), encode (List.replicate 5 '€')] := by
    decide +kernel
  have other : isAscii "€€€€€€€€€€€€€€€€€€€€" = false := by decide
  rw [Readable, other, if_neg Bool.false_ne_true, parts]
  simp only [List.forall_mem_cons]
  exact ⟨⟨_, rfl, by decide⟩, ⟨_, rfl, by decide⟩, List.forall_mem_nil _⟩

/-- The 46 bytes of the first value are cut inside a character, and the second one is a word
already. -/
theorem values_not_read_back :
    standardBase64.Standard ∧ utf8Charsets.Documented ∧
      ¬RoundTrips standardBase64 utf8Charsets "ééééééééééééééééééééééé" ∧
      ¬RoundTrips standardBase64 utf8Charsets "=?UTF-8?Q?a?=" := by
  refine ⟨standardBase64_standard, utf8Charsets_documented, ?_, ?_⟩
  · intro roundTrips
    have whole := (roundTrips_fitting standardBase64_standard utf8Charsets_documented (by decide)
      (by decide)).mp roundTrips
    have same := (readChunks_eq_iff "ééééééééééééééééééééééé".toList).mpr whole
    revert same
    decide +kernel
  · rw [RoundTrips]
    decide +kernel

end MailStack.Webmail
