import MailStack.Maildir.Store
import MailStack.Mime.Lines

/-! What POP3 sends of a message: all of it, or its headers and the first lines of its body. -/

namespace MailStack.Pop3

open Lib Mime Maildir

def dot : UInt8 := 46

def stripEol (line : List UInt8) : List UInt8 :=
  if [cr, lf] <:+ line then line.take (line.length - 2)
  else if [lf] <:+ line then line.take (line.length - 1)
  else line

def writeWireLine (line : List UInt8) : List UInt8 :=
  (if line.head? = some dot then [dot] else []) ++ line ++ [cr, lf]

def writeTransfer (message : List UInt8) : Option Nat → List UInt8
  | some limit =>
    let (headers, body) := splitHeadersBody message
    (splitInclusive headers).flatMap (fun line => writeWireLine (stripEol line)) ++
      writeWireLine [] ++
      ((splitInclusive body).take limit).flatMap fun line => writeWireLine (stripEol line)
  | none => (splitInclusive message).flatMap fun line => writeWireLine (stripEol line)

def terminator : List UInt8 := [dot, cr, lf]

/-- The lines of a text, without what ends them. -/
def linesOf (text : List UInt8) : List (List UInt8) := (splitInclusive text).map stripEol

def unstuff (line : List UInt8) : List UInt8 := if line.head? = some dot then line.tail else line

/-- The payload of RETR is the lines of the message, dot-stuffed, and a line with a dot. -/
def RetrCarries (message : List UInt8) : Prop :=
  ∃ lines, writeTransfer message none ++ terminator =
      (lines ++ [[dot]]).flatMap (fun line => line ++ [cr, lf]) ∧
    linesOf (writeTransfer message none ++ terminator) = lines ++ [[dot]] ∧ [dot] ∉ lines ∧
    lines.map unstuff = linesOf message

/-- How many lines the header section has: those before the first empty one. -/
def headerLength (message : List UInt8) : Nat := (linesOf message).findIdx List.isEmpty

/-- TOP begins like RETR, and it has the header section, the line that ends it and the first
`limit` lines after that, as far as the message has them. -/
def TopFits (message : List UInt8) (limit : Nat) : Prop :=
  writeTransfer message (some limit) <+: writeTransfer message none ∧
    (linesOf message).take (headerLength message + 1 + limit) <+:
      (linesOf (writeTransfer message (some limit))).map unstuff

/-- One of the two spellings that end the headers for `split_headers_body` stands somewhere. -/
def HasBlank (message : List UInt8) : Prop :=
  [cr, lf, cr, lf] <:+: message ∨ [lf, lf] <:+: message

end MailStack.Pop3

/-! RETR carries the lines of every message. TOP begins like RETR if, and only if, the message has
a blank line that `split_headers_body` finds: without one, TOP sends a line that RETR does not. -/

namespace MailStack.Pop3

open Lib Mime

variable {line content message headers body : List UInt8} {lines : List (List UInt8)} {limit : Nat}

/-- A line as it is sent, without the CRLF. -/
def stuff (line : List UInt8) : List UInt8 := (if line.head? = some dot then [dot] else []) ++ line

theorem unstuff_stuff (line : List UInt8) : unstuff (stuff line) = line := by
  unfold stuff
  split
  · rfl
  next notDot =>
    rw [List.nil_append, unstuff, if_neg notDot]

theorem stuff_ne_dot (line : List UInt8) : stuff line ≠ [dot] := by
  unfold stuff
  split
  next isDot =>
    intro eq
    have empty : line = [] := by simpa using eq
    rw [empty] at isDot
    cases isDot
  next notDot =>
    intro eq
    rw [List.nil_append] at eq
    rw [eq] at notDot
    exact notDot rfl

theorem lf_notMem_stuff (noLf : lf ∉ line) : lf ∉ stuff line := by
  have notDot : lf ≠ dot := by decide
  unfold stuff
  split
  · simp [noLf, notDot]
  · simpa using noLf

theorem stripEol_crlf (line : List UInt8) : stripEol (line ++ [cr, lf]) = line := by
  rw [stripEol, if_pos (List.suffix_append _ _)]
  simp

theorem not_suffix_of_lf_notMem (noLf : lf ∉ content) (before : List UInt8) :
    ¬before ++ [lf] <:+ content := fun suffix => noLf (suffix.mem (by simp))

theorem lf_notMem_stripEol (isLine : IsLine line) : lf ∉ stripEol line := by
  cases isLine with
  | @ended content noLf =>
    unfold stripEol
    split
    · intro mem
      rw [List.length_append, List.length_singleton,
        List.take_append_of_le_length (by omega)] at mem
      exact noLf (List.mem_of_mem_take mem)
    · simpa using noLf
  | last noLf =>
    have noCrlf : ¬[cr, lf] <:+ line := not_suffix_of_lf_notMem noLf [cr]
    have noEnd : ¬[lf] <:+ line := not_suffix_of_lf_notMem noLf []
    rwa [stripEol, if_neg noCrlf, if_neg noEnd]

theorem lf_notMem_linesOf : ∀ line ∈ linesOf message, lf ∉ line := by
  intro line mem
  obtain ⟨raw, rawMem, rfl⟩ := List.mem_map.mp mem
  exact lf_notMem_stripEol (isLine_of_mem rawMem)

/-- The bytes that `write_wire_line` writes for each of the lines. -/
def wireText (lines : List (List UInt8)) : List UInt8 := lines.flatMap writeWireLine

@[simp] theorem wireText_append (lines more : List (List UInt8)) :
    wireText (lines ++ more) = wireText lines ++ wireText more := List.flatMap_append

theorem wireText_eq (lines : List (List UInt8)) :
    wireText lines = (lines.map stuff).flatMap (fun line => line ++ [cr, lf]) := by
  rw [wireText, List.flatMap_map]
  rfl

theorem linesOf_crlf (noLf : ∀ line ∈ lines, lf ∉ line) :
    linesOf (lines.flatMap fun line => line ++ [cr, lf]) = lines := by
  induction lines with
  | nil => rfl
  | cons line rest ih =>
    have noLf_crlf : lf ∉ line ++ [cr] := by
      have := noLf line List.mem_cons_self
      simpa using ⟨this, by decide⟩
    have ended : line ++ [cr, lf] = line ++ [cr] ++ [lf] := by simp
    have rest_eq := ih fun line mem => noLf line (List.mem_cons_of_mem _ mem)
    rw [linesOf] at rest_eq
    rw [List.flatMap_cons, linesOf, ended, splitInclusive_append, splitInclusive_line noLf_crlf,
      List.map_append, rest_eq, ← ended, List.map_singleton, stripEol_crlf]
    rfl

theorem lf_notMem_stuffed (noLf : ∀ line ∈ lines, lf ∉ line) :
    ∀ line ∈ lines.map stuff, lf ∉ line := by
  intro stuffed mem
  obtain ⟨line, lineMem, rfl⟩ := List.mem_map.mp mem
  exact lf_notMem_stuff (noLf line lineMem)

theorem map_unstuff_stuff (lines : List (List UInt8)) : (lines.map stuff).map unstuff = lines := by
  rw [List.map_map]
  calc
    lines.map (unstuff ∘ stuff) = lines.map id :=
      List.map_congr_left fun line _ => unstuff_stuff line
    _ = lines := List.map_id lines

theorem linesOf_wireText (noLf : ∀ line ∈ lines, lf ∉ line) :
    (linesOf (wireText lines)).map unstuff = lines := by
  rw [wireText_eq, linesOf_crlf (lf_notMem_stuffed noLf), map_unstuff_stuff]

theorem writeTransfer_none (message : List UInt8) :
    writeTransfer message none = wireText (linesOf message) := by
  rw [wireText, linesOf, List.flatMap_map]
  rfl

theorem retrCarries (message : List UInt8) : RetrCarries message := by
  have payload : writeTransfer message none ++ terminator =
      ((linesOf message).map stuff ++ [[dot]]).flatMap (fun line => line ++ [cr, lf]) := by
    rw [writeTransfer_none, wireText_eq, List.flatMap_append]
    rfl
  refine ⟨(linesOf message).map stuff, payload, ?_, ?_, map_unstuff_stuff _⟩
  · rw [payload, linesOf_crlf]
    intro line mem
    rcases List.mem_append.mp mem with mem | mem
    · exact lf_notMem_stuffed lf_notMem_linesOf line mem
    · rw [List.mem_singleton.mp mem]
      decide
  · intro mem
    obtain ⟨line, _, eq⟩ := List.mem_map.mp mem
    exact stuff_ne_dot line eq

def topLines (message : List UInt8) (limit : Nat) : List (List UInt8) :=
  linesOf (splitHeadersBody message).1 ++ [[]] ++ (linesOf (splitHeadersBody message).2).take limit

theorem writeTransfer_some (message : List UInt8) (limit : Nat) :
    writeTransfer message (some limit) = wireText (topLines message limit) := by
  simp only [topLines, wireText, linesOf, ← List.map_take, List.flatMap_append, List.flatMap_map]
  rfl

theorem lf_notMem_topLines : ∀ line ∈ topLines message limit, lf ∉ line := by
  intro line mem
  rcases List.mem_append.mp mem with mem | mem
  · rcases List.mem_append.mp mem with mem | mem
    · exact lf_notMem_linesOf line mem
    · rw [List.mem_singleton.mp mem]
      exact List.not_mem_nil
  · exact lf_notMem_linesOf line (List.mem_of_mem_take mem)

theorem linesOf_append (xs ys : List UInt8) :
    linesOf (xs ++ [lf] ++ ys) = linesOf (xs ++ [lf]) ++ linesOf ys := by
  rw [linesOf, splitInclusive_append, List.map_append]
  rfl

/-- A message with a blank line falls into headers that an LF ends, that line, and a body. -/
theorem exists_blank (blank : HasBlank message) :
    ∃ before, (splitHeadersBody message).1 = before ++ [lf] ∧
      (message = before ++ [lf] ++ [cr, lf] ++ (splitHeadersBody message).2 ∨
        message = before ++ [lf] ++ [lf] ++ (splitHeadersBody message).2) := by
  cases twice : find [cr, lf, cr, lf] message with
  | some position =>
    obtain ⟨before, rest, parts, rfl⟩ := append_of_find twice
    refine ⟨before ++ [cr], ?_, .inl ?_⟩
    · rw [splitHeadersBody, twice, parts]
      simp [List.take_append]
    · rw [splitHeadersBody, twice, parts]
      simp [List.drop_append]
  | none =>
    have infix_ := blank.resolve_left ((find_eq_none_iff (List.cons_ne_nil _ _)).mp twice)
    obtain ⟨position, found⟩ := find_of_infix (List.cons_ne_nil _ _) infix_
    obtain ⟨before, rest, parts, rfl⟩ := append_of_find found
    refine ⟨before, ?_, .inr ?_⟩
    · rw [splitHeadersBody, twice, found, parts]
      simp [List.take_append]
    · rw [splitHeadersBody, twice, found, parts]
      simp [List.drop_append]

theorem linesOf_eq (blank : HasBlank message) :
    linesOf message =
      linesOf (splitHeadersBody message).1 ++ [[]] ++ linesOf (splitHeadersBody message).2 := by
  obtain ⟨before, headers, whole⟩ := exists_blank blank
  obtain ⟨ending, endingLines, parts⟩ : ∃ ending, linesOf (ending ++ [lf]) = [[]] ∧
      message = before ++ [lf] ++ (ending ++ [lf] ++ (splitHeadersBody message).2) := by
    rcases whole with whole | whole
    · exact ⟨[cr], rfl, by simpa using whole⟩
    · exact ⟨[], rfl, by simpa using whole⟩
  calc
    linesOf message
      = linesOf (before ++ [lf] ++ (ending ++ [lf] ++ (splitHeadersBody message).2)) := by
      rw [← parts]
    _ = linesOf (before ++ [lf]) ++
          (linesOf (ending ++ [lf]) ++ linesOf (splitHeadersBody message).2) := by
      rw [linesOf_append, linesOf_append]
    _ = _ := by rw [headers, endingLines, List.append_assoc]

theorem splitHeadersBody_of_not_hasBlank (noBlank : ¬HasBlank message) :
    splitHeadersBody message = (message, []) := by
  rw [HasBlank, not_or] at noBlank
  rw [splitHeadersBody, (find_eq_none_iff (List.cons_ne_nil _ _)).mpr noBlank.1,
    (find_eq_none_iff (List.cons_ne_nil _ _)).mpr noBlank.2]

theorem headerLength_le (blank : HasBlank message) :
    headerLength message ≤ (linesOf (splitHeadersBody message).1).length := by
  by_contra more
  have atBlank : (linesOf message)[(linesOf (splitHeadersBody message).1).length]? = some [] := by
    rw [linesOf_eq blank]
    simp
  obtain ⟨bound, eq⟩ := List.getElem?_eq_some_iff.mp atBlank
  have notEmpty := List.not_of_lt_findIdx (Nat.lt_of_not_le more)
  rw [eq] at notEmpty
  cases notEmpty

theorem topLines_eq (blank : HasBlank message) (limit : Nat) :
    topLines message limit =
      (linesOf message).take ((linesOf (splitHeadersBody message).1).length + 1 + limit) := by
  rw [linesOf_eq blank, topLines, Nat.add_assoc, List.append_assoc, List.append_assoc,
    List.take_length_add_append, Nat.add_comm 1 limit, List.singleton_append, List.singleton_append,
    List.take_succ_cons]

theorem topFits_of_hasBlank (blank : HasBlank message) (limit : Nat) : TopFits message limit := by
  constructor
  · rw [writeTransfer_some, writeTransfer_none, topLines_eq blank]
    obtain ⟨rest, eq⟩ := List.take_prefix
      ((linesOf (splitHeadersBody message).1).length + 1 + limit) (linesOf message)
    refine ⟨wireText rest, ?_⟩
    rw [← wireText_append, eq]
  · rw [writeTransfer_some, linesOf_wireText lf_notMem_topLines, topLines_eq blank]
    have := headerLength_le blank
    exact List.take_prefix_take_left (by omega)

theorem not_topFits (noBlank : ¬HasBlank message) (limit : Nat) : ¬TopFits message limit := by
  intro fits
  have more : topLines message limit = linesOf message ++ [[]] := by
    rw [topLines, splitHeadersBody_of_not_hasBlank noBlank]
    simp [linesOf, splitInclusive]
  have length_le := fits.1.length_le
  rw [writeTransfer_some, writeTransfer_none, more, wireText_append,
    List.length_append] at length_le
  have blankLine : (wireText [[]]).length = 2 := rfl
  omega

/-- RETR carries the lines of every message, and the blank line is all that decides about TOP. -/
theorem transfer_iff (message : List UInt8) :
    RetrCarries message ∧ ∀ limit, TopFits message limit ↔ HasBlank message := by
  refine ⟨retrCarries message, fun limit => ⟨fun fits => ?_, fun blank => ?_⟩⟩
  · by_contra noBlank
    exact not_topFits noBlank limit fits
  · exact topFits_of_hasBlank blank limit

/-- A message that consists of a header line gets a line that it does not have. -/
theorem top_of_headers_only :
    ¬∀ message : List UInt8, RetrCarries message ∧ ∀ limit, TopFits message limit := by
  intro holds
  have noBlank : ¬HasBlank (bytes "Subject: a\r\n") := by
    unfold HasBlank
    decide +kernel
  exact not_topFits noBlank 0 ((holds (bytes "Subject: a\r\n")).2 0)

end MailStack.Pop3
