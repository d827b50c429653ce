import MailStack.Smtp.DotStuffing
import MailStack.Smtpd.Data
import Mathlib.Data.List.Infix

/-! What the reader of message data makes of a stream of bytes: the stream may come in any chunks,
the data ends at the first terminator, and what is collected is the text before it without the
dots that were added. -/

namespace MailStack.Smtpd

open Lib

namespace DataSink

/-! ### Chunks -/

/-- A chunk is fed to its end: once the data is too large, which is said only once, the rest of the
chunk is fed on. -/
def feedOn (sink : DataSink) (chunk : List UInt8) : DataSink × DataEvent × Nat :=
  match sink.feed chunk with
  | (next, .tooLarge, taken) =>
    let (last, event, more) := next.feed (chunk.drop taken)
    (last, event, taken + more)
  | result => result

/-- Chunks are fed one after another, up to the one in which the data ends or is refused. The number
is how many bytes were taken of all chunks together. -/
def feedChunks : DataSink → List (List UInt8) → DataSink × DataEvent × Nat
  | sink, [] => (sink, .needMore, 0)
  | sink, chunk :: rest =>
    match sink.feedOn chunk with
    | (next, .needMore, taken) =>
      let (last, event, more) := next.feedChunks rest
      (last, event, taken + more)
    | result => result

/-- The event of a byte, where to be too large is none. -/
def readByte (sink : DataSink) (byte : UInt8) : DataSink × DataEvent :=
  match sink.feedByte byte with
  | (next, .tooLarge) => (next, .needMore)
  | result => result

/-- The stream byte by byte. -/
def read : DataSink → List UInt8 → DataSink × DataEvent × Nat
  | sink, [] => (sink, .needMore, 0)
  | sink, byte :: rest =>
    match sink.readByte byte with
    | (next, .needMore) =>
      let (last, event, taken) := next.read rest
      (last, event, taken + 1)
    | (next, event) => (next, event, 1)

theorem push_overflowed {sink : DataSink} (h : sink.overflowed = true) (byte : UInt8) :
    (sink.push byte).1.overflowed = true ∧ (sink.push byte).2 = .needMore := by
  simp [push, checkSize, h]

theorem completeLine_overflowed {sink : DataSink} (h : sink.overflowed = true)
    (terminator : Terminator) :
    (sink.completeLine terminator).1.overflowed = true ∧
      (sink.completeLine terminator).2 ≠ .tooLarge := by
  simp only [completeLine, h, if_true]
  split
  · exact ⟨rfl, nofun⟩
  split
  · split <;> exact ⟨rfl, nofun⟩
  · exact ⟨rfl, nofun⟩

theorem feedByte_overflowed {sink : DataSink} (h : sink.overflowed = true) (byte : UInt8) :
    (sink.feedByte byte).1.overflowed = true ∧ (sink.feedByte byte).2 ≠ .tooLarge := by
  unfold feedByte
  split
  · split
    · exact ⟨h, nofun⟩
    split
    · exact completeLine_overflowed h _
    · have pushed := push_overflowed h byte
      exact ⟨pushed.1, by simp [pushed.2]⟩
  · have inLine : ({ sink with state := .inLine } : DataSink).overflowed = true := h
    generalize ({ sink with state := .inLine } : DataSink) = open' at inLine
    simp only
    split
    · exact completeLine_overflowed inLine _
    have first := push_overflowed inLine cr
    split
    · exact ⟨first.1, by simp [first.2]⟩
    · have second := push_overflowed first.1 byte
      exact ⟨second.1, by simp [first.2, second.2]⟩

theorem read_overflowed {sink : DataSink} (h : sink.overflowed = true) (stream : List UInt8) :
    sink.read stream = sink.feed stream := by
  induction stream generalizing sink with
  | nil => rfl
  | cons byte rest ih =>
    obtain ⟨still, notAgain⟩ := feedByte_overflowed h byte
    rcases step : sink.feedByte byte with ⟨next, event⟩
    rw [step] at still notAgain
    cases event with
    | needMore => simp only [read, readByte, feed, step, ih still]
    | tooLarge => exact absurd rfl notAgain
    | complete data => simp only [read, readByte, feed, step]
    | bareLineFeed => simp only [read, readByte, feed, step]

/-- When it is said that the data is too large, this is kept. -/
def Warned (result : DataSink × DataEvent) : Prop :=
  result.2 = .tooLarge → result.1.overflowed = true

theorem checkSize_warned (sink : DataSink) : Warned sink.checkSize := by
  unfold checkSize
  split
  · exact nofun
  split
  · exact fun _ => rfl
  · exact nofun

theorem completeLine_warned (sink : DataSink) (terminator : Terminator) :
    Warned (sink.completeLine terminator) := by
  unfold completeLine
  simp only
  split
  · exact nofun
  split
  · split
    · exact nofun
    split <;> exact nofun
  split
  · exact nofun
  · exact checkSize_warned _

theorem feedByte_warned (sink : DataSink) (byte : UInt8) : Warned (sink.feedByte byte) := by
  unfold feedByte
  split
  · split
    · exact nofun
    split
    · exact completeLine_warned _ _
    · exact checkSize_warned _
  · simp only
    split
    · exact completeLine_warned _ _
    split
    · exact checkSize_warned _
    · intro said
      simp only [ite_eq_left_iff, reduceCtorEq, imp_false, not_not] at said
      rcases said with said | said
      · exact (push_overflowed (checkSize_warned _ said) byte).1
      · exact checkSize_warned _ said

theorem feedOn_eq_read (sink : DataSink) (chunk : List UInt8) :
    sink.feedOn chunk = sink.read chunk := by
  induction chunk generalizing sink with
  | nil => rfl
  | cons byte rest ih =>
    rcases step : sink.feedByte byte with ⟨next, event⟩
    cases event with
    | needMore =>
      have rest' := ih next
      simp only [feedOn, feed, read, readByte, step] at rest' ⊢
      rw [← rest']
      rcases next.feed rest with ⟨last, event, taken⟩
      cases event with
      | tooLarge =>
        simp only [List.drop_succ_cons]
        rcases last.feed (rest.drop taken) with ⟨last', event', more⟩
        simp only [Prod.mk.injEq, true_and]
        omega
      | needMore => rfl
      | complete data => rfl
      | bareLineFeed => rfl
    | tooLarge =>
      simp only [feedOn, feed, read, readByte, step, List.drop_succ_cons, List.drop_zero]
      have exceeds : next.overflowed = true := by
        have warned := feedByte_warned sink byte
        rw [step] at warned
        exact warned rfl
      rw [read_overflowed exceeds]
      rcases next.feed rest with ⟨last, event, taken⟩
      simp only [Prod.mk.injEq, true_and]
      omega
    | complete data => simp only [feedOn, feed, read, readByte, step]
    | bareLineFeed => simp only [feedOn, feed, read, readByte, step]

/-- The rest of the stream is read if nothing has ended the data before. -/
theorem read_append (sink : DataSink) (a b : List UInt8) :
    sink.read (a ++ b) =
      match sink.read a with
      | (next, .needMore, taken) =>
        let (last, event, more) := next.read b
        (last, event, taken + more)
      | result => result := by
  induction a generalizing sink with
  | nil =>
    simp only [List.nil_append, read]
    rcases sink.read b with ⟨last, event, more⟩
    simp
  | cons byte rest ih =>
    rcases step : sink.readByte byte with ⟨next, event⟩
    cases event with
    | needMore =>
      simp only [List.cons_append, read, step, ih]
      rcases next.read rest with ⟨mid, event, taken⟩
      cases event with
      | needMore =>
        simp only
        rcases mid.read b with ⟨last, event, more⟩
        simp only [Prod.mk.injEq, true_and]
        omega
      | tooLarge => rfl
      | complete data => rfl
      | bareLineFeed => rfl
    | tooLarge => simp only [List.cons_append, read, step]
    | complete data => simp only [List.cons_append, read, step]
    | bareLineFeed => simp only [List.cons_append, read, step]

/-- However a stream is cut into chunks, it is read as a whole. -/
theorem feedChunks_eq_read (sink : DataSink) (chunks : List (List UInt8)) :
    sink.feedChunks chunks = sink.read chunks.flatten := by
  induction chunks generalizing sink with
  | nil => rfl
  | cons chunk rest ih =>
    simp only [feedChunks, List.flatten_cons, read_append, feedOn_eq_read]
    rcases sink.read chunk with ⟨next, event, taken⟩
    cases event <;> simp only [ih]

/-! ### Lines -/

/-- A line without the CR that belongs to its ending. -/
def stripCr (line : List UInt8) : List UInt8 :=
  if line.getLast? = some cr then line.dropLast else line

@[simp] theorem stripCr_snoc_cr (line : List UInt8) : stripCr (line ++ [cr]) = line := by
  simp [stripCr]

variable {byte : UInt8}

theorem stripCr_snoc (line : List UInt8) (h : byte ≠ cr) :
    stripCr (line ++ [byte]) = line ++ [byte] := by
  simp [stripCr, h]

theorem stripCr_cases (line : List UInt8) :
    line = stripCr line ++ [cr] ∨ line.getLast? ≠ some cr ∧ stripCr line = line := by
  unfold stripCr
  split
  · rename_i last
    exact .inl (List.dropLast_append_getLast? cr last).symm
  · rename_i other
    exact .inr ⟨other, rfl⟩

/-- `Decoded policy head out`: the lines of `head`, each with an ending that is allowed and none of
them a dot alone, have the data `out`. -/
inductive Decoded (policy : BareNewlinePolicy) : List UInt8 → List UInt8 → Prop
  | nil : Decoded policy [] []
  | line {head out tail : List UInt8} (before : Decoded policy head out) (inLine : lf ∉ tail)
      (notDot : stripCr tail ≠ [dot]) (ending : tail.getLast? = some cr ∨ policy = .normalize) :
      Decoded policy (head ++ tail ++ [lf]) (out ++ unstuff (stripCr tail) ++ [cr, lf])

/-! ### The sink after a part of the stream -/

def lineClass : List UInt8 → Nat
  | [] => 0
  | [byte] => if byte = dot then 1 else 2
  | _ => 2

theorem lineClass_eq_one {line : List UInt8} : lineClass line = 1 ↔ line = [dot] := by
  match line with
  | [] => simp [lineClass]
  | [byte] => simp [lineClass]
  | _ :: _ :: _ => simp [lineClass]

/-- The sink has the data `out` and the line `cur`, as far as it keeps them. -/
structure Holds (sink : DataSink) (out cur : List UInt8) : Prop where
  lineLen : sink.lineLen = lineClass cur
  overflowed : sink.overflowed = decide (sink.maxSize < out.length + cur.length)
  kept : sink.overflowed = false → sink.line = cur ∧ sink.out = out

theorem checkSize_holds {sink : DataSink} {out cur : List UInt8}
    (lineLen : sink.lineLen = lineClass cur)
    (kept : sink.overflowed = false → sink.line = cur ∧ sink.out = out)
    (exceeds : sink.overflowed = true → sink.maxSize < out.length + cur.length) :
    Holds sink.checkSize.1 out cur := by
  unfold checkSize
  split
  · rename_i already
    exact ⟨lineLen, by simp [already, exceeds already], kept⟩
  · rename_i notYet
    obtain ⟨line, data⟩ := kept (by simpa using notYet)
    split
    · rename_i large
      rw [line, data] at large
      exact ⟨lineLen, by simpa using large, nofun⟩
    · rename_i small
      rw [line, data] at small
      exact ⟨lineLen, by simp only [Bool.not_eq_true] at notYet; simp [notYet, Nat.not_lt.mp small],
        kept⟩

@[simp] theorem checkSize_maxSize (sink : DataSink) : sink.checkSize.1.maxSize = sink.maxSize := by
  unfold checkSize
  split
  · rfl
  split <;> rfl

@[simp] theorem checkSize_policy (sink : DataSink) : sink.checkSize.1.policy = sink.policy := by
  unfold checkSize
  split
  · rfl
  split <;> rfl

@[simp] theorem checkSize_state (sink : DataSink) : sink.checkSize.1.state = sink.state := by
  unfold checkSize
  split
  · rfl
  split <;> rfl

@[simp] theorem push_maxSize (sink : DataSink) (byte : UInt8) :
    (sink.push byte).1.maxSize = sink.maxSize := checkSize_maxSize _

@[simp] theorem push_policy (sink : DataSink) (byte : UInt8) :
    (sink.push byte).1.policy = sink.policy := checkSize_policy _

@[simp] theorem push_state (sink : DataSink) (byte : UInt8) :
    (sink.push byte).1.state = sink.state := checkSize_state _

theorem push_holds {sink : DataSink} {out cur : List UInt8} (h : Holds sink out cur)
    (byte : UInt8) : Holds (sink.push byte).1 out (cur ++ [byte]) := by
  refine checkSize_holds ?_ ?_ ?_
  · have empty : sink.lineLen = 0 ↔ cur = [] := by
      rw [h.lineLen]
      match cur with
      | [] => simp [lineClass]
      | [b] => by_cases same : b = dot <;> simp [lineClass, same]
      | _ :: _ :: _ => simp [lineClass]
    match cur with
    | [] => by_cases same : byte = dot <;> simp [empty.mpr rfl, lineClass, same]
    | [b] => simp [empty, lineClass]
    | _ :: _ :: _ => simp [empty, lineClass]
  · intro fits
    obtain ⟨line, data⟩ := h.kept fits
    have fits' : sink.overflowed = false := fits
    simp [fits', line, data]
  · intro exceeds
    have past : sink.overflowed = true := exceeds
    rw [h.overflowed] at past
    have := of_decide_eq_true past
    simp only [List.length_append, List.length_singleton]
    omega

/-- The sink after the complete lines `head` and the beginning `tail` of a line. -/
structure Reads (maxSize : Nat) (policy : BareNewlinePolicy) (sink : DataSink)
    (head out tail : List UInt8) : Prop where
  limit : sink.maxSize = maxSize
  rule : sink.policy = policy
  decoded : Decoded policy head out
  inLine : lf ∉ tail
  state : sink.state = if tail.getLast? = some cr then .sawCr else .inLine
  holds : Holds sink out (stripCr tail)

theorem new_reads (maxSize : Nat) (policy : BareNewlinePolicy) :
    Reads maxSize policy (new maxSize policy) [] [] [] :=
  ⟨rfl, rfl, .nil, by simp, rfl, rfl, by simp [new, stripCr], fun _ => ⟨rfl, rfl⟩⟩

theorem checkSize_event (sink : DataSink) :
    sink.checkSize.2 = .needMore ∨ sink.checkSize.2 = .tooLarge := by
  unfold checkSize
  split
  · exact .inl rfl
  split
  · exact .inr rfl
  · exact .inl rfl

theorem readByte_of_event {sink next : DataSink} {event : DataEvent}
    (h : sink.feedByte byte = (next, event)) (quiet : event = .needMore ∨ event = .tooLarge) :
    sink.readByte byte = (next, .needMore) := by
  unfold readByte
  rcases quiet with rfl | rfl <;> rw [h]

theorem feedByte_sawCr_cr {sink : DataSink} (state : sink.state = .sawCr) :
    sink.feedByte cr =
      ({ (push { sink with state := .inLine } cr).1 with state := .sawCr },
        (push { sink with state := .inLine } cr).2) := by
  simp [feedByte, state, cr, lf]

theorem feedByte_sawCr_other {sink : DataSink} (state : sink.state = .sawCr)
    (notLf : byte ≠ lf) (notCr : byte ≠ cr) :
    ∃ event, sink.feedByte byte =
      (((push { sink with state := .inLine } cr).1.push byte).1, event) ∧
        (event = .needMore ∨ event = .tooLarge) := by
  simp only [feedByte, state, notLf, notCr, if_false]
  refine ⟨_, rfl, ?_⟩
  split
  · exact .inr rfl
  · exact .inl rfl

theorem feedByte_inLine_other {sink : DataSink} (state : sink.state = .inLine)
    (notLf : byte ≠ lf) (notCr : byte ≠ cr) :
    sink.feedByte byte = ((sink.push byte).1, (sink.push byte).2) := by
  simp [feedByte, state, notLf, notCr]

section Bytes

variable {maxSize : Nat} {policy : BareNewlinePolicy} {sink : DataSink}
  {head out tail : List UInt8}

theorem Reads.other (h : Reads maxSize policy sink head out tail) (ne : byte ≠ lf) :
    ∃ next, sink.readByte byte = (next, .needMore) ∧
      Reads maxSize policy next head out (tail ++ [byte]) := by
  have inLine : lf ∉ tail ++ [byte] := by simp [h.inLine, Ne.symm ne]
  have last : (tail ++ [byte]).getLast? = some byte := by simp
  rcases stripCr_cases tail with pending | ⟨open', whole⟩
  · -- a CR is pending, and goes to the line first
    have state : sink.state = .sawCr := by
      rw [h.state, if_pos]
      rw [pending]
      simp
    have held : Holds { sink with state := .inLine } out (stripCr tail) :=
      ⟨h.holds.lineLen, h.holds.overflowed, h.holds.kept⟩
    have first := push_holds held cr
    rw [← pending] at first
    by_cases again : byte = cr
    · subst again
      refine ⟨_, readByte_of_event (feedByte_sawCr_cr state) (checkSize_event _), ?_⟩
      refine ⟨by simpa using h.limit, by simpa using h.rule, h.decoded, inLine,
        by simp, ?_⟩
      rw [stripCr_snoc_cr]
      exact ⟨first.lineLen, first.overflowed, first.kept⟩
    · have second := push_holds first byte
      obtain ⟨event, fed, quiet⟩ := feedByte_sawCr_other state ne again
      refine ⟨_, readByte_of_event fed quiet, ?_⟩
      refine ⟨by simpa using h.limit, by simpa using h.rule, h.decoded, inLine,
        by simp [again], ?_⟩
      rwa [stripCr_snoc _ again]
  · have state : sink.state = .inLine := by rw [h.state, if_neg open']
    have held : Holds sink out tail := whole ▸ h.holds
    by_cases isCr : byte = cr
    · subst isCr
      have fed : sink.feedByte cr = ({ sink with state := .sawCr }, .needMore) := by
        simp [feedByte, state]
      refine ⟨_, readByte_of_event fed (.inl rfl), ?_⟩
      refine ⟨h.limit, h.rule, h.decoded, inLine, by simp, ?_⟩
      rw [stripCr_snoc_cr]
      exact ⟨held.lineLen, held.overflowed, held.kept⟩
    · have pushed := push_holds held byte
      refine ⟨_, readByte_of_event (feedByte_inLine_other state ne isCr) (checkSize_event _), ?_⟩
      refine ⟨by simpa using h.limit, by simpa using h.rule, h.decoded, inLine,
        by simp [isCr, state], ?_⟩
      rwa [stripCr_snoc _ isCr]

/-- The data of a sink whose data has ended, if it was not too large. -/
def collected (maxSize : Nat) (out : List UInt8) : Option (List UInt8) :=
  if out.length < maxSize then some out else none

def endingOf (tail : List UInt8) : Terminator :=
  if tail.getLast? = some cr then .crLf else .bareLineFeed

theorem Reads.completes (h : Reads maxSize policy sink head out tail) :
    sink.feedByte lf = completeLine { sink with state := .inLine } (endingOf tail) := by
  unfold endingOf
  split
  · rename_i pending
    have state : sink.state = .sawCr := by rw [h.state, if_pos pending]
    simp [feedByte, state]
  · rename_i open'
    have state : sink.state = .inLine := by rw [h.state, if_neg open']
    have same : ({ sink with state := .inLine } : DataSink) = sink := by rw [← state]
    rw [same]
    simp [feedByte, state, lf, cr]

theorem completeLine_refuses (h : sink.policy = .reject ∨ sink.lineLen = 1) :
    ∃ next, sink.completeLine .bareLineFeed = (next, .bareLineFeed) := by
  unfold completeLine
  by_cases strict : sink.policy = .reject
  · simp only [strict, and_self, if_true]
    exact ⟨_, rfl⟩
  · simp only [strict, h.resolve_left strict, and_false, if_true, if_false]
    exact ⟨_, rfl⟩

theorem completeLine_ends (h : sink.lineLen = 1) :
    ∃ next, sink.completeLine .crLf =
      (next, .complete (if sink.overflowed then none else some sink.out)) := by
  unfold completeLine
  simp only [h, reduceCtorEq, false_and, if_false, if_true]
  split
  · exact ⟨_, rfl⟩
  · exact ⟨_, rfl⟩

theorem completeLine_continues {cur : List UInt8} {terminator : Terminator}
    (h : Holds sink out cur) (allowed : terminator = .bareLineFeed → sink.policy ≠ .reject)
    (notDot : sink.lineLen ≠ 1) :
    ∃ next event, sink.completeLine terminator = (next, event) ∧
      (event = .needMore ∨ event = .tooLarge) ∧
      next.maxSize = sink.maxSize ∧ next.policy = sink.policy ∧ next.state = .inLine ∧
      Holds next (out ++ unstuff cur ++ [cr, lf]) [] := by
  have longer : cur.length ≤ (unstuff cur).length + 1 := by
    unfold unstuff
    split
    · split <;> simp
    · simp
  unfold completeLine
  simp only [notDot, if_false]
  rw [if_neg fun refused => allowed refused.1 refused.2]
  split
  · rename_i exceeds
    refine ⟨_, _, rfl, .inl rfl, rfl, rfl, rfl, rfl, ?_, fun fits => ?_⟩
    · have past := h.overflowed
      rw [exceeds] at past
      have := of_decide_eq_true past.symm
      simp only [exceeds, List.length_append, List.length_cons, List.length_nil, true_eq_decide_iff]
      omega
    · simp [exceeds] at fits
  · rename_i notYet
    have fits : sink.overflowed = false := by simpa using notYet
    obtain ⟨line, data⟩ := h.kept fits
    refine ⟨_, _, rfl, checkSize_event _, checkSize_maxSize _, checkSize_policy _,
      checkSize_state _, checkSize_holds rfl (fun _ => ?_) fun exceeds => ?_⟩
    · exact ⟨rfl, by simp [line, data]⟩
    · rw [fits] at exceeds
      cases exceeds

/-- An LF refuses the data, ends it or ends a line. -/
theorem Reads.lineFeed (h : Reads maxSize policy sink head out tail) :
    (tail.getLast? ≠ some cr ∧ (policy = .reject ∨ tail = [dot]) ∧
      ∃ next, sink.readByte lf = (next, .bareLineFeed)) ∨
    (tail = [dot, cr] ∧ ∃ next, sink.readByte lf = (next, .complete (collected maxSize out))) ∨
    (stripCr tail ≠ [dot] ∧ (tail.getLast? = some cr ∨ policy = .normalize) ∧
      ∃ next, sink.readByte lf = (next, .needMore) ∧
        Reads maxSize policy next (head ++ tail ++ [lf]) (out ++ unstuff (stripCr tail) ++ [cr, lf])
          []) := by
  have rule : ({ sink with state := .inLine } : DataSink).policy = policy := h.rule
  have held : Holds { sink with state := .inLine } out (stripCr tail) :=
    ⟨h.holds.lineLen, h.holds.overflowed, h.holds.kept⟩
  have limit : ({ sink with state := .inLine } : DataSink).maxSize = maxSize := h.limit
  have fed := h.completes
  generalize ({ sink with state := .inLine } : DataSink) = open' at rule held limit fed
  have single : open'.lineLen = 1 ↔ stripCr tail = [dot] := by
    rw [held.lineLen, lineClass_eq_one]
  rcases stripCr_cases tail with pending | ⟨bare, whole⟩
  · have ends : tail.getLast? = some cr := by
      rw [pending]
      simp
    rw [endingOf, if_pos ends] at fed
    by_cases isDot : stripCr tail = [dot]
    · refine .inr (.inl ⟨by rw [pending, isDot]; rfl, ?_⟩)
      obtain ⟨next, ended⟩ := completeLine_ends (single.mpr isDot)
      have data : (if open'.overflowed then none else some open'.out) = collected maxSize out := by
        have exceeds := held.overflowed
        rw [isDot, limit] at exceeds
        unfold collected
        by_cases fits : out.length < maxSize
        · have kept : open'.overflowed = false := by
            rw [exceeds]
            exact decide_eq_false (Nat.not_lt.mpr fits)
          simp [kept, (held.kept kept).2, fits]
        · have lost : open'.overflowed = true := by
            rw [exceeds]
            exact decide_eq_true (Nat.lt_succ_of_le (Nat.not_lt.mp fits))
          simp [lost, fits]
      rw [data] at ended
      exact ⟨next, by rw [readByte, fed, ended]⟩
    · refine .inr (.inr ⟨isDot, .inl ends, ?_⟩)
      have allowed : Terminator.crLf = .bareLineFeed → open'.policy ≠ .reject := nofun
      obtain ⟨next, event, ended, quiet, reads⟩ := completeLine_continues held allowed
        (fun is => isDot (single.mp is))
      refine ⟨next, readByte_of_event (fed.trans ended) quiet, ?_⟩
      exact ⟨reads.1.trans limit, reads.2.1.trans rule, .line h.decoded h.inLine isDot (.inl ends),
        by simp, reads.2.2.1, reads.2.2.2⟩
  · rw [endingOf, if_neg bare] at fed
    by_cases refused : policy = .reject ∨ tail = [dot]
    · refine .inl ⟨bare, refused, ?_⟩
      obtain ⟨next, ended⟩ := @completeLine_refuses open'
        (refused.imp rule.trans fun is => single.mpr (whole.trans is))
      exact ⟨next, by rw [readByte, fed, ended]⟩
    · obtain ⟨lenient, notDot⟩ := not_or.mp refused
      have normalize : policy = .normalize := by
        cases policy with
        | reject => exact absurd rfl lenient
        | normalize => rfl
      refine .inr (.inr ⟨whole.symm ▸ notDot, .inr normalize, ?_⟩)
      obtain ⟨next, event, ended, quiet, reads⟩ := completeLine_continues held
        (fun _ strict => lenient (rule.symm.trans strict))
        (fun is => notDot (whole.symm.trans (single.mp is)))
      refine ⟨next, readByte_of_event (fed.trans ended) quiet, ?_⟩
      exact ⟨reads.1.trans limit, reads.2.1.trans rule,
        .line h.decoded h.inLine (whole.symm ▸ notDot) (.inr normalize), by simp, reads.2.2.1,
        reads.2.2.2⟩

end Bytes

/-! ### The whole stream -/

section Streams

variable {maxSize : Nat} {policy : BareNewlinePolicy} {sink : DataSink}
  {head out tail : List UInt8}

theorem read_cons_needMore {next : DataSink} (rest : List UInt8)
    (h : sink.readByte byte = (next, .needMore)) :
    sink.read (byte :: rest) =
      ((next.read rest).1, (next.read rest).2.1, (next.read rest).2.2 + 1) := by
  simp only [read, h]

theorem Reads.inTail (h : Reads maxSize policy sink head out tail) {rest : List UInt8}
    (noLf : lf ∉ rest) :
    ∃ next, sink.read rest = (next, .needMore, rest.length) ∧
      Reads maxSize policy next head out (tail ++ rest) := by
  induction rest generalizing sink tail with
  | nil => exact ⟨sink, rfl, by simpa using h⟩
  | cons byte rest ih =>
    obtain ⟨ne, later⟩ := not_or.mp (List.mem_cons.not.mp noLf)
    obtain ⟨mid, step, reads⟩ := h.other (Ne.symm ne)
    obtain ⟨next, run, reads'⟩ := ih reads later
    refine ⟨next, ?_, by simpa using reads'⟩
    rw [read_cons_needMore rest step, run]
    rfl

theorem Decoded.read (h : Decoded policy head out) (maxSize : Nat) :
    ∃ next, (new maxSize policy).read head = (next, .needMore, head.length) ∧
      Reads maxSize policy next head out [] := by
  induction h with
  | nil => exact ⟨_, rfl, new_reads maxSize policy⟩
  | @line head out tail before inLine notDot ending ih =>
    obtain ⟨first, run, reads⟩ := ih
    obtain ⟨second, run', reads'⟩ := reads.inTail inLine
    rw [List.nil_append] at reads'
    rcases reads'.lineFeed with ⟨bare, refused, -⟩ | ⟨isDot, -⟩ | ⟨-, -, next, step, done⟩
    · rcases refused with strict | isDot
      · rcases ending with ended | lenient
        · exact absurd ended bare
        · rw [strict] at lenient
          cases lenient
      · subst isDot
        exact absurd rfl notDot
    · subst isDot
      exact absurd rfl notDot
    · refine ⟨next, ?_, done⟩
      have last : second.read [lf] = (next, .needMore, 1) := by
        rw [read_cons_needMore [] step]
        rfl
      simp only [read_append, run, run', last, List.length_append, List.length_singleton]

/-- What the reading of `rest`, after `before`, comes to. -/
inductive Finds (maxSize : Nat) (policy : BareNewlinePolicy) (before rest : List UInt8) :
    DataSink × DataEvent × Nat → Prop
  | more {next : DataSink} {head out tail : List UInt8}
      (reads : Reads maxSize policy next head out tail) (text : before ++ rest = head ++ tail) :
      Finds maxSize policy before rest (next, .needMore, rest.length)
  | complete {next : DataSink} {head out : List UInt8} {n : Nat} (short : n ≤ rest.length)
      (decoded : Decoded policy head out) (text : before ++ rest.take n = head ++ [dot, cr, lf]) :
      Finds maxSize policy before rest (next, .complete (collected maxSize out), n)
  | refused {next : DataSink} {head out tail : List UInt8} {n : Nat} (short : n ≤ rest.length)
      (decoded : Decoded policy head out) (inLine : lf ∉ tail) (bare : tail.getLast? ≠ some cr)
      (why : policy = .reject ∨ tail = [dot])
        (text : before ++ rest.take n = head ++ tail ++ [lf]) :
      Finds maxSize policy before rest (next, .bareLineFeed, n)

theorem Finds.later {before rest : List UInt8} {byte : UInt8} {result : DataSink × DataEvent × Nat}
    (h : Finds maxSize policy (before ++ [byte]) rest result) :
    Finds maxSize policy before (byte :: rest) (result.1, result.2.1, result.2.2 + 1) := by
  cases h with
  | more reads text => exact .more reads (by simpa using text)
  | complete short decoded text =>
    exact .complete (Nat.succ_le_succ short) decoded (by simpa using text)
  | refused short decoded inLine bare why text =>
    exact .refused (Nat.succ_le_succ short) decoded inLine bare why (by simpa using text)

theorem Reads.finds (h : Reads maxSize policy sink head out tail) (rest : List UInt8) :
    Finds maxSize policy (head ++ tail) rest (sink.read rest) := by
  induction rest generalizing sink head out tail with
  | nil => exact .more h (by simp)
  | cons byte rest ih =>
    by_cases isLf : byte = lf
    · subst isLf
      rcases h.lineFeed with ⟨bare, why, next, step⟩ | ⟨isDot, next, step⟩ | ⟨-, -, next, step, done⟩
      · simp only [DataSink.read, step]
        exact .refused (by simp) h.decoded h.inLine bare why (by simp)
      · simp only [DataSink.read, step]
        exact .complete (by simp) h.decoded (by simp [isDot])
      · rw [read_cons_needMore rest step]
        exact Finds.later (by simpa using ih done)
    · obtain ⟨next, step, reads⟩ := h.other isLf
      rw [read_cons_needMore rest step]
      exact Finds.later (by simpa using ih reads)

theorem take_before_end {stream head : List UInt8} {n : Nat} (short : n ≤ stream.length)
    (text : stream.take n = head ++ [dot, cr, lf]) :
    n = head.length + 3 ∧ stream.take (n - 3) = head := by
  have count : n = head.length + 3 := by
    have := congrArg List.length text
    simp only [List.length_take, Nat.min_eq_left short, List.length_append, List.length_cons,
      List.length_nil] at this
    omega
  have before := congrArg (List.take (n - 3)) text
  rw [List.take_take, Nat.min_eq_left (Nat.sub_le n 3), List.take_left' (by omega)] at before
  exact ⟨count, before⟩

/-- The data is complete where lines of it are followed by a dot alone. -/
theorem read_complete_iff {stream : List UInt8} {data : Option (List UInt8)} {n : Nat} :
    ((new maxSize policy).read stream).2 = (.complete data, n) ↔
      ∃ head out, Decoded policy head out ∧ n ≤ stream.length ∧
        stream.take n = head ++ [dot, cr, lf] ∧ data = collected maxSize out := by
  constructor
  · intro run
    have finds := (new_reads maxSize policy).finds stream
    generalize (new maxSize policy).read stream = result at run finds
    cases finds with
    | more => cases run
    | @complete _ head out _ short decoded text =>
      cases run
      exact ⟨head, out, decoded, short, by simpa using text, rfl⟩
    | refused => cases run
  · rintro ⟨head, out, dec, short, text, rfl⟩
    obtain ⟨first, run, reads⟩ := dec.read maxSize
    obtain ⟨second, run', reads'⟩ := reads.inTail (by decide : lf ∉ [dot, cr])
    have ends : ∃ next, second.readByte lf = (next, .complete (collected maxSize out)) := by
      rcases reads'.lineFeed with ⟨bare, -⟩ | ⟨-, found⟩ | ⟨notDot, -⟩
      · exact absurd rfl bare
      · exact found
      · exact absurd rfl notDot
    obtain ⟨next, step⟩ := ends
    have last : second.read (lf :: stream.drop n) =
        (next, .complete (collected maxSize out), 1) := by
      simp only [read, step]
    have whole : stream = head ++ ([dot, cr] ++ lf :: stream.drop n) := by
      conv_lhs => rw [← List.take_append_drop n stream, text]
      simp
    have count := (take_before_end short text).1
    rw [whole, read_append, run]
    simp only [read_append, run', last, List.length_cons, List.length_nil, Prod.mk.injEq, true_and]
    omega

end Streams

end DataSink

end MailStack.Smtpd

/-! The data that the client writes is read back by the server: its lines come out with CR and LF
after each, without the dots that were put before them. -/

namespace MailStack.Smtpd

open Lib Smtp DataSink

def encoded (line : List Char) : List UInt8 := line.flatMap String.utf8EncodeChar

theorem mem_of_mem_encoded {line : List Char} {c : Char}
    (ascii : byte.toNat < 0x80) (char : c.val.toNat = byte.toNat) (h : byte ∈ encoded line) :
    c ∈ line := by
  obtain ⟨found, mem, inChar⟩ := List.mem_flatMap.mp h
  have same : found = c := Char.ext (UInt32.toNat_inj.mp
    ((ascii_mem_utf8EncodeChar inChar ascii).1.trans char.symm))
  exact same ▸ mem

theorem head?_of_head?_encoded {line : List Char} (h : (encoded line).head? = some dot) :
    line.head? = some '.' := by
  cases line with
  | nil => simp [encoded] at h
  | cons first rest =>
    have inFirst : dot ∈ String.utf8EncodeChar first := by
      rw [encoded, List.flatMap_cons,
        List.head?_append_of_ne_nil _ String.utf8EncodeChar_ne_nil] at h
      exact List.mem_of_head? h
    have isDot : first = '.' := Char.ext (UInt32.toNat_inj.mp
      (ascii_mem_utf8EncodeChar inFirst (by decide)).1)
    simp [isDot]

theorem unstuff_encoded (line : List Char) :
    unstuff (encoded (stuffLine line)) = encoded line := by
  by_cases begins : line.head? = some '.'
  · have stuffed : encoded (stuffLine line) = dot :: encoded line := by
      rw [stuffLine, if_pos begins]
      rfl
    simp [stuffed, unstuff]
  · rw [stuffLine, if_neg begins]
    cases eq : encoded line with
    | nil => rfl
    | cons byte rest =>
      have notDot : byte ≠ dot := by
        rintro rfl
        exact begins (head?_of_head?_encoded (by rw [eq]; rfl))
      simp [unstuff, notDot]

theorem encoded_ne_dot (line : List Char) : encoded (stuffLine line) ≠ [dot] := by
  intro eq
  by_cases begins : line.head? = some '.'
  · have stuffed : encoded (stuffLine line) = dot :: encoded line := by
      rw [stuffLine, if_pos begins]
      rfl
    obtain ⟨rest, rfl⟩ : ∃ rest, line = '.' :: rest := List.head?_eq_some_iff.mp begins
    have short : encoded ('.' :: rest) = [] := by simpa [stuffed] using eq
    simp [encoded, String.utf8EncodeChar_ne_nil] at short
  · rw [stuffLine, if_neg begins] at eq
    exact begins (head?_of_head?_encoded (by rw [eq]; rfl))

@[simp] theorem encoded_crlf : encoded crlf = [cr, lf] := by decide

theorem encoded_append (a b : List Char) : encoded (a ++ b) = encoded a ++ encoded b := by
  simp [encoded]

/-- Written lines are read as the lines, whatever the policy on bare line feeds. -/
theorem decoded_lines (policy : BareNewlinePolicy) {lines : List (List Char)}
    (h : ∀ line ∈ lines, '\n' ∉ line) :
    Decoded policy (encoded (lines.flatMap fun line => stuffLine line ++ crlf))
      (encoded (lines.flatMap (· ++ crlf))) := by
  induction lines using List.reverseRecOn with
  | nil => exact .nil
  | append_singleton before line ih =>
    have inLine : lf ∉ encoded (stuffLine line) ++ [cr] := by
      rw [List.mem_append, List.mem_singleton, not_or]
      refine ⟨fun mem => ?_, by decide⟩
      exact not_mem_stuffLine (h line (by simp)) (mem_of_mem_encoded (by decide) (by decide) mem)
    have decoded := Decoded.line (ih fun l mem => h l (by simp [mem])) inLine
      (by simpa using encoded_ne_dot line) (.inl (by simp))
    simpa [encoded_append, unstuff_encoded] using decoded

/-- Data that the client writes, cut anywhere, is complete at its last byte, and is the text with
each of its lines ended by CR and LF. -/
theorem data_round_trip (policy : BareNewlinePolicy) (maxSize : Nat) (text : String)
    (chunks : List (List UInt8)) (cut : chunks.flatten = bytes (terminateData text))
    (fits : (bytes (crlfCanonical text)).length < maxSize) :
    ((new maxSize policy).feedChunks chunks).2 =
      (.complete (some (bytes (crlfCanonical text))), (bytes (terminateData text)).length) := by
  have written : bytes (terminateData text) =
      encoded ((canonicalLines text).flatMap fun line => stuffLine line ++ crlf) ++
        [dot, cr, lf] := by
    rw [bytes, toList_terminateData, ← encoded, encoded_append]
    rfl
  have canonical : bytes (crlfCanonical text) =
      encoded ((canonicalLines text).flatMap (· ++ crlf)) := by
    rw [crlfCanonical, bytes_ofList, encoded]
  have decoded := decoded_lines policy fun line mem =>
    not_mem_textLines (canonicalLines_subset text mem)
  rw [feedChunks_eq_read, cut, read_complete_iff]
  refine ⟨_, _, decoded, le_refl _, by rw [List.take_length, written], ?_⟩
  rw [← canonical, collected, if_pos fits]

theorem data_round_trip_dots :
    ((new 100 .reject).feedChunks
        [bytes "...", bytes ".a\r", bytes "\nb\r\n", bytes ".", bytes "\r", bytes "\n"]).2 =
      (.complete (some (bytes (crlfCanonical "...a\nb\r"))),
        (bytes (terminateData "...a\nb\r")).length) :=
  data_round_trip .reject 100 "...a\nb\r" _ (by decide) (by decide)

end MailStack.Smtpd
