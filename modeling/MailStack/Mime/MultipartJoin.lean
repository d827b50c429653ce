import MailStack.Mime.Body
import MailStack.Mime.Lines

/-! Parts that are joined by the delimiter of a multipart are the parts that the body is split
into. -/

namespace MailStack.Mime

open Lib

def crlf : List UInt8 := [cr, lf]

def marker (boundary : String) : List UInt8 := bytes ("--" ++ boundary)

def closing (boundary : String) : List UInt8 := bytes ("--" ++ boundary ++ "--")

/-- The lines are none of the two delimiters, but for white space after them. -/
def NoDelimiter (boundary : String) (text : List UInt8) : Prop :=
  ∀ line ∈ splitInclusive text, trimAscii line ≠ marker boundary ∧ trimAscii line ≠ closing boundary

/-- Each part between two delimiters, with a preamble and an epilogue. -/
def joined (boundary : String) (preamble epilogue : List UInt8) (parts : List (List UInt8)) :
    List UInt8 :=
  preamble ++ parts.flatMap (fun part => marker boundary ++ crlf ++ part ++ crlf) ++
    closing boundary ++ crlf ++ epilogue

variable {boundary : String} {preamble epilogue text part line word : List UInt8}
  {parts lines rest done : List (List UInt8)}

def isTrimmed (byte : UInt8) : Bool := byte = cr || byte = lf || byte = 32 || byte = 9

theorem trimAscii_append (all : ∀ byte ∈ word, isTrimmed byte = true) :
    trimAscii (line ++ word) = trimAscii line := by
  unfold trimAscii
  rw [List.reverse_append]
  congr 1
  exact List.dropWhile_append_of_pos fun byte mem => all byte (List.mem_reverse.mp mem)

theorem isTrimmed_crlf : ∀ byte ∈ crlf, isTrimmed byte = true := by decide

theorem splitInclusive_unended (some_ : word ≠ []) (noLf : lf ∉ word) :
    splitInclusive word = [word] := by
  induction word with
  | nil => exact absurd rfl some_
  | cons byte word ih =>
    rw [List.mem_cons, not_or] at noLf
    rw [splitInclusive, if_neg (Ne.symm noLf.1)]
    by_cases last : word = []
    · rw [last, splitInclusive]
    · rw [ih last noLf.2]

theorem exists_last_line (text : List UInt8) :
    ∃ front last, text = front ++ last ∧ lf ∉ last ∧
      (front = [] ∨ ∃ init, front = init ++ [lf]) := by
  induction text using List.reverseRecOn with
  | nil => exact ⟨[], [], rfl, List.not_mem_nil, .inl rfl⟩
  | append_singleton text byte ih =>
    by_cases isLf : byte = lf
    · exact ⟨text ++ [byte], [], by simp, List.not_mem_nil, .inr ⟨text, by rw [isLf]⟩⟩
    · obtain ⟨front, last, rfl, noLf, ended⟩ := ih
      refine ⟨front, last ++ [byte], List.append_assoc _ _ _, ?_, ended⟩
      rw [List.mem_append, List.mem_singleton, not_or]
      exact ⟨noLf, Ne.symm isLf⟩

theorem splitInclusive_front {front : List UInt8}
    (ended : front = [] ∨ ∃ init, front = init ++ [lf])
    (text : List UInt8) :
      splitInclusive (front ++ text) = splitInclusive front ++ splitInclusive text := by
  rcases ended with rfl | ⟨init, rfl⟩
  · rfl
  · exact splitInclusive_append init text

theorem trimAscii_of_mem_append (mem : line ∈ splitInclusive (text ++ crlf)) :
    trimAscii line = [] ∨ ∃ own ∈ splitInclusive text, trimAscii line = trimAscii own := by
  obtain ⟨front, last, rfl, noLf, ended⟩ := exists_last_line text
  have lastLine : splitInclusive (last ++ crlf) = [last ++ crlf] := by
    have noLf' : lf ∉ last ++ [cr] := by
      rw [List.mem_append, not_or]
      exact ⟨noLf, by decide⟩
    have line := splitInclusive_line noLf'
    rwa [List.append_assoc] at line
  rw [List.append_assoc, splitInclusive_front ended, lastLine] at mem
  rw [splitInclusive_front ended]
  rcases List.mem_append.mp mem with mem | mem
  · exact .inr ⟨line, List.mem_append_left _ mem, rfl⟩
  · rw [List.mem_singleton.mp mem, trimAscii_append isTrimmed_crlf]
    by_cases none : last = []
    · rw [none]
      exact .inl rfl
    · rw [splitInclusive_unended none noLf]
      exact .inr ⟨last, List.mem_append_right _ (List.mem_singleton.mpr rfl), rfl⟩

section Loop

variable {delimiter ending : List UInt8}

theorem partsLoop_lines {open_ : Option (List UInt8)}
    (plain : ∀ line ∈ lines, trimAscii line ≠ delimiter ∧ trimAscii line ≠ ending) :
    partsLoop delimiter ending done open_ (lines ++ rest) =
      partsLoop delimiter ending done (open_.map (· ++ lines.flatten)) rest := by
  induction lines generalizing open_ with
  | nil => cases open_ <;> simp
  | cons line lines ih =>
    obtain ⟨notMarker, notClosing⟩ := plain line List.mem_cons_self
    rw [List.cons_append, partsLoop, if_neg notMarker, if_neg notClosing,
      ih fun line mem => plain line (List.mem_cons_of_mem _ mem)]
    cases open_ <;> simp

end Loop

theorem trimOneCrlf_append (text : List UInt8) : trimOneCrlf (text ++ crlf) = text := by
  have ends : [cr, lf] <:+ text ++ crlf := List.suffix_append _ _
  rw [trimOneCrlf, if_pos ends]
  show ((text ++ ([cr] ++ [lf])).dropLast).dropLast = text
  rw [← List.append_assoc, List.dropLast_concat, List.dropLast_concat]

theorem marker_eq (boundary : String) : marker boundary = [45, 45] ++ bytes boundary := by
  rw [marker, bytes_append]
  rfl

theorem closing_eq (boundary : String) : closing boundary = marker boundary ++ [45, 45] := by
  rw [closing, bytes_append]
  rfl

theorem marker_ne_closing (boundary : String) : marker boundary ≠ closing boundary := by
  rw [closing_eq]
  intro same
  have size := congrArg List.length same
  rw [List.length_append] at size
  simp at size

theorem trimAscii_closing
    (boundary : String) : trimAscii (closing boundary) = closing boundary := by
  rw [closing_eq, trimAscii, List.reverse_append]
  show (([45, 45] ++ (marker boundary).reverse).dropWhile _).reverse = _
  rw [List.cons_append, List.dropWhile_cons_of_neg (by decide), List.reverse_cons]
  simp

theorem marker_ne_nil (boundary : String) : marker boundary ≠ [] ∧ closing boundary ≠ [] := by
  rw [closing_eq, marker_eq]
  simp

/-- What the parts, the preamble and the delimiter of a body have to be like, so that each line is
what it was meant for. -/
structure Joinable (boundary : String) (preamble : List UInt8)
    (parts : List (List UInt8)) : Prop where
  trailing : ∀ c ∈ boundary.toList.getLast?, isWhitespace c = false
  few : parts.length < maxParts
  plain : ∀ part ∈ parts, NoDelimiter boundary part
  before : NoDelimiter boundary preamble
  ended : preamble = [] ∨ ∃ front, preamble = front ++ crlf

theorem trimAscii_eq_self (last : ∀ byte ∈ text.getLast?, isTrimmed byte = false) :
    trimAscii text = text := by
  rcases List.eq_nil_or_concat text with rfl | ⟨front, byte, rfl⟩
  · rfl
  · rw [List.concat_eq_append] at last ⊢
    have kept : isTrimmed byte = false := last byte (by rw [List.getLast?_concat]; rfl)
    rw [trimAscii, List.reverse_append]
    show (([byte] ++ front.reverse).dropWhile _).reverse = _
    rw [List.singleton_append, List.dropWhile_cons_of_neg]
    · rw [List.reverse_cons, List.reverse_reverse]
    · show ¬isTrimmed byte = true
      rw [kept]
      decide

theorem eq_of_isTrimmed {c : Char} {byte : UInt8} (mem : byte ∈ String.utf8EncodeChar c)
    (trimmed : isTrimmed byte = true) : isWhitespace c = true := by
  have cases_ : byte = cr ∨ byte = lf ∨ byte = 32 ∨ byte = 9 := by
    simpa [isTrimmed, or_assoc] using trimmed
  have ascii : byte.toNat < 0x80 := by
    rcases cases_ with rfl | rfl | rfl | rfl <;> decide
  have number := (ascii_mem_utf8EncodeChar mem ascii).1
  have same : c = Char.ofNat byte.toNat := by
    rw [← number]
    exact (Char.ofNat_toNat c).symm
  rw [same]
  rcases cases_ with rfl | rfl | rfl | rfl <;> decide

theorem trimAscii_marker (trailing : ∀ c ∈ boundary.toList.getLast?, isWhitespace c = false) :
    trimAscii (marker boundary) = marker boundary := by
  refine trimAscii_eq_self fun byte last => ?_
  rw [marker_eq] at last
  rcases List.eq_nil_or_concat boundary.toList with none | ⟨front, c, eq⟩
  · rw [bytes, none] at last
    obtain rfl := Option.some.inj last
    decide
  · rw [List.concat_eq_append] at eq
    have visible := trailing c (by rw [eq, List.getLast?_concat]; rfl)
    rw [bytes, eq, List.flatMap_append, List.flatMap_singleton, ← List.append_assoc,
      List.getLast?_append_of_ne_nil _ String.utf8EncodeChar_ne_nil] at last
    cases trimmed : isTrimmed byte with
    | false => rfl
    | true =>
      rw [eq_of_isTrimmed (List.mem_of_getLast? last) trimmed] at visible
      cases visible

theorem splitInclusive_delimiter {delimiter : List UInt8} (noLf : lf ∉ delimiter)
    (rest : List UInt8) :
    splitInclusive (delimiter ++ crlf ++ rest) = (delimiter ++ crlf) :: splitInclusive rest := by
  have noLf' : lf ∉ delimiter ++ [cr] := by
    rw [List.mem_append, not_or]
    exact ⟨noLf, by decide⟩
  have whole : delimiter ++ crlf ++ rest = (delimiter ++ [cr]) ++ [lf] ++ rest := by simp [crlf]
  rw [whole, splitInclusive_append, splitInclusive_line noLf', List.singleton_append]
  simp [crlf]

theorem NoDelimiter.append_crlf (plain : NoDelimiter boundary part) :
    NoDelimiter boundary (part ++ crlf) := by
  intro line mem
  rcases trimAscii_of_mem_append mem with none | ⟨own, inside, same⟩
  · rw [none]
    exact ⟨Ne.symm (marker_ne_nil boundary).1, Ne.symm (marker_ne_nil boundary).2⟩
  · rw [same]
    exact plain own inside

/-- From the delimiter of a part on, with the part before it still open. -/
theorem partsLoop_joined {open_ : Option (List UInt8)}
    (clean : trimAscii (marker boundary) = marker boundary)
    (noLf : lf ∉ marker boundary) (plain : ∀ part ∈ parts, NoDelimiter boundary part)
    (few : (done ++ (open_.map trimOneCrlf).toList).length + parts.length < maxParts) :
    partsLoop (marker boundary) (closing boundary) done open_
        (splitInclusive (parts.flatMap (fun part => marker boundary ++ crlf ++ part ++ crlf) ++
          closing boundary ++ crlf ++ epilogue)) =
      done ++ (open_.map trimOneCrlf).toList ++ parts := by
  induction parts generalizing done open_ with
  | nil =>
    have noLf' : lf ∉ closing boundary := by
      rw [closing_eq, List.mem_append, not_or]
      exact ⟨noLf, by decide⟩
    rw [List.flatMap_nil, List.nil_append, splitInclusive_delimiter noLf', partsLoop,
      trimAscii_append isTrimmed_crlf, trimAscii_closing, if_neg (marker_ne_closing boundary).symm,
      if_pos rfl, List.append_nil]
  | cons part parts ih =>
    have shape : (part :: parts).flatMap (fun part => marker boundary ++ crlf ++ part ++ crlf) ++
        closing boundary ++ crlf ++ epilogue =
        marker boundary ++ crlf ++ ((part ++ crlf) ++
          (parts.flatMap (fun part => marker boundary ++ crlf ++ part ++ crlf) ++
            closing boundary ++ crlf ++ epilogue)) := by
      simp [List.append_assoc]
    have room : ¬(done ++ (open_.map trimOneCrlf).toList).length ≥ maxParts := by omega
    have ended : part ++ crlf = [] ∨ ∃ init, part ++ crlf = init ++ [lf] :=
      .inr ⟨part ++ [cr], by simp [crlf]⟩
    have lines := splitInclusive_front ended
      (parts.flatMap (fun part => marker boundary ++ crlf ++ part ++ crlf) ++
        closing boundary ++ crlf ++ epilogue)
    rw [shape, splitInclusive_delimiter noLf, partsLoop, trimAscii_append isTrimmed_crlf, clean,
      if_pos rfl, if_neg room, lines,
      partsLoop_lines (plain part List.mem_cons_self).append_crlf, Option.map_some,
      List.nil_append, flatten_splitInclusive,
        ih fun part mem => plain part (List.mem_cons_of_mem _ mem)]
    · rw [Option.map_some, trimOneCrlf_append, Option.toList_some, List.append_assoc _ [part],
        List.singleton_append]
    · rw [Option.map_some, trimOneCrlf_append, Option.toList_some, List.length_append,
        List.length_singleton]
      rw [List.length_cons] at few
      omega

theorem multipartParts_of_lf
    (withLf : lf ∈ marker boundary) : multipartParts text boundary = [] := by
  have plain : ∀ line ∈ splitInclusive text,
      trimAscii line ≠ marker boundary ∧ trimAscii line ≠ closing boundary := by
    intro line mem
    have noLf : lf ∉ trimAscii line := by
      have sub (content : List UInt8) (noLf : lf ∉ content) : lf ∉ trimAscii content := by
        intro inside
        rw [trimAscii, List.mem_reverse] at inside
        exact noLf (List.mem_reverse.mp ((List.dropWhile_suffix _).subset inside))
      cases isLine_of_mem mem with
      | ended noLf =>
        rw [trimAscii_append (by decide)]
        exact sub _ noLf
      | last noLf => exact sub _ noLf
    constructor
    · intro same
      exact noLf (same ▸ withLf)
    · intro same
      rw [same, closing_eq] at noLf
      exact noLf (List.mem_append_left _ withLf)
  have loop := @partsLoop_lines (splitInclusive text) [] [] (marker boundary) (closing boundary)
      none
    plain
  rw [List.append_nil] at loop
  exact loop

theorem mem_marker : lf ∈ marker boundary ↔ '\n' ∈ boundary.toList := by
  rw [marker_eq, List.mem_append, bytes, List.mem_flatMap]
  constructor
  · rintro (mem | ⟨c, inside, mem⟩)
    · exact absurd mem (by decide)
    · have number := (ascii_mem_utf8EncodeChar mem (by decide)).1
      have same : c = '\n' := Char.ext (UInt32.toNat_inj.mp number)
      exact same ▸ inside
  · exact fun inside => .inr ⟨'\n', inside, by decide⟩

/-- The parts that were joined are those that are found, unless an LF is in the delimiter. -/
theorem multipartParts_joined_iff (joinable : Joinable boundary preamble parts) :
    multipartParts (joined boundary preamble epilogue parts) boundary = parts ↔
      parts = [] ∨ '\n' ∉ boundary.toList := by
  by_cases withLf : '\n' ∈ boundary.toList
  · rw [multipartParts_of_lf (mem_marker.mpr withLf)]
    exact ⟨fun same => .inl same.symm,
      fun either => (either.resolve_right (not_not.mpr withLf)).symm⟩
  · refine iff_of_true ?_ (.inr withLf)
    have noLf : lf ∉ marker boundary := fun mem => withLf (mem_marker.mp mem)
    have ended : preamble = [] ∨ ∃ init, preamble = init ++ [lf] := by
      refine joinable.ended.imp id ?_
      rintro ⟨front, rfl⟩
      exact ⟨front ++ [cr], by simp [crlf]⟩
    have shape : joined boundary preamble epilogue parts = preamble ++
        (parts.flatMap (fun part => marker boundary ++ crlf ++ part ++ crlf) ++
          closing boundary ++ crlf ++ epilogue) := by
      simp [joined, List.append_assoc]
    have loop := @partsLoop_joined boundary epilogue parts [] none
      (trimAscii_marker joinable.trailing) noLf joinable.plain (by simpa using joinable.few)
    rw [shape, multipartParts, splitInclusive_front ended]
    show partsLoop (marker boundary) (closing boundary) [] none _ = _
    rw [partsLoop_lines joinable.before]
    exact loop

end MailStack.Mime
