import MailStack.Net.LineIo
import Mathlib.Data.List.TakeWhile

/-! What the reader of lines and literals makes of a stream, whatever reads its bytes come in. All
it can depend on is a line that is just as long as a line may be: the carriage return at its end
counts as long as the line feed has not come in. -/

namespace MailStack.Net

open Lib Maildir LineIo

/-- The bytes of the first line, without its line feed. -/
def rawLine (bytes : List UInt8) : List UInt8 := bytes.takeWhile (· ≠ lf)

def afterLine (bytes : List UInt8) : Option (List UInt8) := (bytes.dropWhile (· ≠ lf)).tail?

/-- A stream that is at hand as a whole, with what was met in it: a line of just the most bytes
before a carriage return and a line feed, and a line that is longer than a line may be. -/
structure Whole where
  left : List UInt8
  onEdge : Bool
  overLong : Bool

namespace Whole

def start (bytes : List UInt8) : Whole := { left := bytes, onEdge := false, overLong := false }

def readLine (s : Whole) (max : Nat) : Except MailError (Option (List UInt8)) × Whole :=
  match afterLine s.left with
  | some rest =>
    if (dropCr (rawLine s.left)).length > max then
      (.error (tooLong max), { s with left := rest, overLong := true })
    else
      (.ok (some (dropCr (rawLine s.left))),
        { s with left := rest, onEdge := s.onEdge || (rawLine s.left).length > max })
  | none =>
    if s.left.length > max then (.error (tooLong max), { s with left := [], overLong := true })
    else (.ok (if s.left.isEmpty then none else some (dropCr s.left)), { s with left := [] })

def readExact (s : Whole) (count max : Nat) : Except MailError (List UInt8) × Whole :=
  if count > max then
    (.error (.protocol ("literal of " ++ toString count ++ " bytes exceeds limit " ++ toString max)),
      s)
  else if count ≤ s.left.length then (.ok (s.left.take count), { s with left := s.left.drop count })
  else
    (.error (.protocol "connection closed in the middle of a literal"), { s with left := [] })

end Whole

variable {raw more buffer bytes : List UInt8} {reads : List Chunk} {max : Nat} {count : Nat}

theorem rawLine_append (noLf : lf ∉ raw) : rawLine (raw ++ lf :: more) = raw := by
  rw [rawLine, List.takeWhile_append_of_pos fun b mem => ?_]
  · simp
  · exact decide_eq_true fun same => noLf (same ▸ mem)

theorem afterLine_append (noLf : lf ∉ raw) : afterLine (raw ++ lf :: more) = some more := by
  rw [afterLine, List.dropWhile_append_of_pos fun b mem => ?_]
  · simp
  · exact decide_eq_true fun same => noLf (same ▸ mem)

theorem afterLine_eq_none (noLf : lf ∉ bytes) : afterLine bytes = none := by
  have gone : bytes.dropWhile (· ≠ lf) = [] :=
    List.dropWhile_eq_nil_iff.mpr fun b mem => decide_eq_true fun same => noLf (same ▸ mem)
  rw [afterLine, gone]
  rfl

theorem dropCr_length (raw : List UInt8) :
    (dropCr raw).length + (if raw.getLast? = some cr then 1 else 0) = raw.length := by
  unfold LineIo.dropCr
  split_ifs with last
  · have some : raw ≠ [] := fun empty => by simp [empty] at last
    have := List.length_pos_of_ne_nil some
    rw [List.length_dropLast]
    omega
  · rfl

/-- No read begins with a line feed when the byte before it is a carriage return. -/
def Joined : List UInt8 → List Chunk → Prop
  | _, [] => True
  | before, chunk :: rest =>
    ¬(before.getLast? = some cr ∧ chunk.1.head? = some lf) ∧ Joined chunk.1 rest

theorem Joined.of_last {before after : List UInt8} (joined : Joined before reads)
    (last : ∀ b, after.getLast? = some b → before.getLast? = some b) : Joined after reads := by
  cases reads with
  | nil => trivial
  | cons chunk rest => exact ⟨fun both => joined.1 ⟨last _ both.1, both.2⟩, joined.2⟩

theorem Joined.drop (joined : Joined buffer reads) (n : Nat) : Joined (buffer.drop n) reads := by
  refine joined.of_last fun b last => ?_
  rw [← List.take_append_drop n buffer, List.getLast?_append, last]
  rfl

theorem Joined.append {chunk : Chunk} (joined : Joined buffer (chunk :: reads)) :
    Joined (buffer ++ chunk.1) reads := by
  refine joined.2.of_last fun b last => ?_
  rw [List.getLast?_append, List.getLast?_eq_some_getLast chunk.2.1] at last
  rw [List.getLast?_eq_some_getLast chunk.2.1]
  exact last

theorem one_isChunk (b : UInt8) : [b] ≠ [] ∧ [b].length ≤ readChunk := by simp [readChunk]

theorem two_isChunk (b c : UInt8) : [b, c] ≠ [] ∧ [b, c].length ≤ readChunk := by simp [readChunk]

/-- A carriage return and the line feed after it in one read, every other byte in its own. -/
@[grind =] def joinedReads : List UInt8 → List Chunk
  | [] => []
  | [b] => [⟨[b], one_isChunk b⟩]
  | b :: c :: rest =>
    if b = cr ∧ c = lf then ⟨[b, c], two_isChunk b c⟩ :: joinedReads rest
    else ⟨[b], one_isChunk b⟩ :: joinedReads (c :: rest)

theorem joinedReads_flatten (bytes : List UInt8) :
    ((joinedReads bytes).map (·.1)).flatten = bytes := by
  fun_induction joinedReads bytes with
  | case1 => rfl
  | case2 => rfl
  | case3 b c rest both ih =>
    rw [List.map_cons, List.flatten_cons, ih]
    rfl
  | case4 b c rest apart ih =>
    rw [List.map_cons, List.flatten_cons, ih]
    rfl

theorem joinedReads_head {b : UInt8} {bytes : List UInt8} {chunk : Chunk}
    (head : (joinedReads (b :: bytes)).head? = some chunk) : chunk.1.head? = some b := by
  cases bytes with
  | nil =>
    cases head
    rfl
  | cons c rest =>
    unfold joinedReads at head
    split_ifs at head with both <;> cases head <;> rfl

theorem joined_joinedReads (bytes : List UInt8) : Joined [] (joinedReads bytes) := by
  fun_induction joinedReads bytes with
  | case1 => trivial
  | case2 => exact ⟨(fun last => by cases last.1), trivial⟩
  | case3 b c rest both ih =>
    refine ⟨(fun last => by cases last.1), ?_⟩
    cases reads : joinedReads rest with
    | nil => trivial
    | cons chunk more =>
      rw [reads] at ih
      refine ⟨fun last => ?_, ih.2⟩
      rw [both.2] at last
      exact absurd (Option.some.inj (show some lf = some cr from last.1)) (by decide)
  | case4 b c rest apart ih =>
    refine ⟨(fun last => by cases last.1), ?_⟩
    cases reads : joinedReads (c :: rest) with
    | nil => trivial
    | cons chunk more =>
      rw [reads] at ih
      refine ⟨fun last => apart ?_, ih.2⟩
      have head := @joinedReads_head c rest chunk (by rw [reads]; rfl)
      rw [head] at last
      exact ⟨Option.some.inj last.1, Option.some.inj last.2⟩

/-- How a buffer that bytes come into one by one looks. -/
structure Fresh (max : Nat) (buffer : List UInt8) : Prop where
  noLf : lf ∉ buffer.dropLast
  length : buffer.length ≤ max + 1

theorem findIdx_of_lf (noLf : lf ∉ raw) (more : List UInt8) :
    (raw ++ lf :: more).findIdx? (· == lf) = some raw.length := by
  rw [List.findIdx?_append, not_mem_findIdx noLf, List.findIdx?_cons]
  simp

theorem readLineFrom_lf (noLf : lf ∉ raw) (more : List UInt8) :
    readLineFrom max (raw ++ lf :: more) reads =
      if (dropCr raw).length > max then (.error (tooLong max), { buffer := [], reads })
      else (.ok (some (dropCr raw)), { buffer := more, reads }) := by
  have content : raw.length - (if (decide (0 < raw.length) &&
      (raw ++ lf :: more)[raw.length - 1]? == some cr) = true then 1 else 0) =
        (dropCr raw).length := by
    have length := dropCr_length raw
    cases raw with
    | nil => rfl
    | cons b rest =>
      have last : (b :: rest ++ lf :: more)[(b :: rest).length - 1]? = (b :: rest).getLast? := by
        rw [List.getElem?_append_left (by simp), List.getLast?_eq_getElem?]
      rw [last]
      simp only [List.length_cons, Nat.zero_lt_succ, decide_true, Bool.true_and, beq_iff_eq]
      simp only [List.length_cons] at length
      omega
  unfold readLineFrom
  simp only [findIdx_of_lf noLf more, content, List.take_left, List.drop_length_add_append]
  rfl

theorem part_of_raw {later : List UInt8} (mem : lf ∉ buffer)
    (eq : buffer ++ later = raw ++ lf :: more) :
    ∃ a, raw = buffer ++ a ∧ later = a ++ lf :: more := by
  rcases List.append_eq_append_iff.mp eq with ⟨a, rest, after⟩ | ⟨a, before, after⟩
  · exact ⟨a, rest, after⟩
  · cases a with
    | nil => exact ⟨[], by rw [before, List.append_nil, List.append_nil], after.symm⟩
    | cons b a =>
      obtain ⟨same, -⟩ := List.cons.inj after
      refine absurd ?_ mem
      rw [before, same]
      simp

/-- A line that a line feed ends. Either it is taken whole, or it is refused. -/
theorem readLineFrom_line (noLf : lf ∉ raw)
    (eq : buffer ++ (reads.map (·.1)).flatten = raw ++ lf :: more) :
    ((dropCr raw).length ≤ max ∧
      ∃ io, readLineFrom max buffer reads = (.ok (some (dropCr raw)), io) ∧
        io.pending = more ∧ (Joined buffer reads → Joined io.buffer io.reads) ∧
        (Singles reads → Fresh max buffer → io.Bytewise ∧ raw.length ≤ max)) ∨
      max < raw.length ∧ (Joined buffer reads → max < (dropCr raw).length) ∧
        ∃ io, readLineFrom max buffer reads = (.error (tooLong max), io) := by
  have found : ∀ (buffer : List UInt8) (reads : List Chunk) (b : List UInt8),
      buffer = raw ++ lf :: b → more = b ++ (reads.map (·.1)).flatten →
      ((dropCr raw).length ≤ max ∧
        ∃ io, readLineFrom max buffer reads = (.ok (some (dropCr raw)), io) ∧
          io.pending = more ∧ (Joined buffer reads → Joined io.buffer io.reads) ∧
          (Singles reads → Fresh max buffer → io.Bytewise ∧ raw.length ≤ max)) ∨
        max < raw.length ∧ (Joined buffer reads → max < (dropCr raw).length) ∧
          ∃ io, readLineFrom max buffer reads = (.error (tooLong max), io) := by
    rintro _ reads b rfl rfl
    rw [readLineFrom_lf noLf]
    by_cases long : (dropCr raw).length > max
    · rw [if_pos long]
      have := dropCr_length raw
      exact .inr ⟨by omega, fun _ => long, _, rfl⟩
    · rw [if_neg long]
      refine .inl ⟨by omega, _, rfl, rfl, fun joined => ?_, fun singles fresh => ?_⟩
      · have kept := joined.drop (raw.length + 1)
        rwa [List.drop_length_add_append] at kept
      · have last : b = [] := by
          by_contra some
          refine fresh.noLf ?_
          rw [List.dropLast_append_of_ne_nil (by simp), List.dropLast_cons_of_ne_nil some]
          simp
        have length := fresh.length
        simp only [last, List.length_append, List.length_cons, List.length_nil] at length
        exact ⟨⟨last, singles⟩, by omega⟩
  induction reads generalizing buffer with
  | nil =>
    rw [List.map_nil, List.flatten_nil, List.append_nil] at eq
    exact found buffer [] more eq (by simp)
  | cons chunk reads ih =>
    by_cases mem : lf ∈ buffer
    · obtain ⟨front, b, whole, front_noLf⟩ := List.eq_append_cons_of_mem mem
      have parts : front ++ lf :: (b ++ ((chunk :: reads).map (·.1)).flatten) =
          raw ++ lf :: more := by
        rw [← eq, whole, List.append_assoc]
        rfl
      have same : front = raw := by rw [← rawLine_append front_noLf, parts, rawLine_append noLf]
      rw [same] at whole parts
      exact found buffer _ b whole (List.cons.inj (List.append_cancel_left parts)).2.symm
    · by_cases full : buffer.length > max
      · -- without its line feed, the carriage return is counted with the line
        have refused : readLineFrom max buffer (chunk :: reads) =
            (.error (tooLong max), { buffer := [], reads := chunk :: reads }) := by
          rw [readLineFrom.eq_def]
          simp only [not_mem_findIdx mem, if_pos full]
        obtain ⟨a, rest, after⟩ := part_of_raw mem eq
        have length := dropCr_length raw
        have long : buffer.length + a.length = raw.length := by rw [rest, List.length_append]
        refine .inr ⟨by omega, fun joined => ?_, _, refused⟩
        cases a with
        | nil =>
          rw [List.append_nil] at rest
          have notCr : raw.getLast? ≠ some cr := by
            intro last
            refine joined.1 ⟨rest ▸ last, ?_⟩
            have head := congrArg List.head? after
            rwa [List.nil_append, List.map_cons, List.flatten_cons,
              List.head?_append_of_ne_nil _ chunk.2.1] at head
          rw [if_neg notCr] at length
          omega
        | cons b a =>
          rw [List.length_cons] at long
          split_ifs at length <;> omega
      · rw [readLineFrom_more mem (not_lt.mp full)]
        have grown : (buffer ++ chunk.1) ++ (reads.map (·.1)).flatten = raw ++ lf :: more := by
          rw [← eq, List.append_assoc]
          rfl
        rcases ih grown with ⟨short, io, run, left, joins, singly⟩ | ⟨long, joins, refused⟩
        · refine .inl ⟨short, io, run, left, fun joined => joins joined.append, fun singles _ => ?_⟩
          refine singly (fun c mem => singles c (.tail _ mem)) ⟨?_, ?_⟩
          · obtain ⟨b, one⟩ := List.length_eq_one_iff.mp (singles chunk List.mem_cons_self)
            rw [one, List.dropLast_concat]
            exact mem
          · rw [List.length_append, singles chunk List.mem_cons_self]
            omega
        · exact .inr ⟨long, fun joined => joins joined.append, refused⟩

theorem readLineFrom_last (noLf : lf ∉ buffer ++ (reads.map (·.1)).flatten) :
    ∃ io, readLineFrom max buffer reads =
        (if (buffer ++ (reads.map (·.1)).flatten).length > max then (.error (tooLong max), io)
        else (.ok (if (buffer ++ (reads.map (·.1)).flatten).isEmpty then none
          else some (dropCr (buffer ++ (reads.map (·.1)).flatten))), io)) ∧
      ((buffer ++ (reads.map (·.1)).flatten).length ≤ max →
        io = { buffer := [], reads := [] }) := by
  induction reads generalizing buffer with
  | nil =>
    simp only [List.map_nil, List.flatten_nil, List.append_nil] at noLf ⊢
    refine ⟨{ buffer := [], reads := [] }, ?_, fun _ => rfl⟩
    rw [readLineFrom.eq_def]
    simp only [not_mem_findIdx noLf]
    split_ifs <;> rfl
  | cons chunk reads ih =>
    have here : lf ∉ buffer := fun mem => noLf (List.mem_append_left _ mem)
    have grown : (buffer ++ chunk.1) ++ (reads.map (·.1)).flatten =
        buffer ++ ((chunk :: reads).map (·.1)).flatten := by
      rw [List.append_assoc]
      rfl
    by_cases full : buffer.length > max
    · have long : (buffer ++ ((chunk :: reads).map (·.1)).flatten).length > max := by
        rw [List.length_append]
        omega
      refine ⟨{ buffer := [], reads := chunk :: reads }, ?_, fun short => by omega⟩
      rw [if_pos long, readLineFrom.eq_def]
      simp only [not_mem_findIdx here, if_pos full]
    · rw [readLineFrom_more here (not_lt.mp full), ← grown]
      exact ih (grown ▸ noLf)

theorem readExactFrom_joined {out : List UInt8} (joined : Joined buffer reads) :
    Joined (readExactFrom count out buffer reads).2.buffer
      (readExactFrom count out buffer reads).2.reads := by
  induction reads generalizing out buffer with
  | nil =>
    unfold readExactFrom
    dsimp only
    split_ifs <;> trivial
  | cons chunk reads ih =>
    unfold readExactFrom
    dsimp only
    split_ifs
    · exact joined.drop _
    · exact ih (joined.drop _).append

theorem readExactFrom_short {out : List UInt8}
    (short : out.length + (buffer ++ (reads.map (·.1)).flatten).length < count) :
    (readExactFrom count out buffer reads).1 =
      .error (.protocol "connection closed in the middle of a literal") := by
  induction reads generalizing out buffer with
  | nil =>
    simp only [List.map_nil, List.flatten_nil, List.append_nil] at short
    unfold readExactFrom
    dsimp only
    rw [if_neg]
    rw [List.length_append, List.length_take]
    omega
  | cons chunk reads ih =>
    rw [List.map_cons, List.flatten_cons, List.length_append, List.length_append] at short
    have all : min (count - out.length) buffer.length = buffer.length := by omega
    unfold readExactFrom
    simp only [all, List.take_length, List.drop_length, List.nil_append, List.length_append]
    rw [if_neg (by omega)]
    refine ih ?_
    rw [List.length_append, List.length_append]
    omega

/-- What is left after a call is what is to be left, and it comes in as before. -/
structure Follows (io io' : LineIo) (left : List UInt8) : Prop where
  pending : io'.pending = left
  joined : Joined io.buffer io.reads → Joined io'.buffer io'.reads
  bytewise : io.Bytewise → io'.Bytewise

/-- The call gives what it gives on the stream as a whole. -/
def AsWhole {α : Type} (io : LineIo) (s : Whole) (call : Except MailError α × LineIo)
    (whole : Except MailError α × Whole) : Prop :=
  call.1 = whole.1 ∧ (io.Bytewise → whole.2.onEdge = s.onEdge) ∧
    ∀ a, whole.1 = .ok a → Follows io call.2 whole.2.left

variable {io : LineIo} {s : Whole}

/-- A line is read as it is from the whole stream, unless it is on the edge and its line feed comes
in late. -/
theorem readLine_agrees (here : io.pending = s.left) (max : Nat) :
    AsWhole io s (io.readLine max) (s.readLine max) ∨
      ¬Joined io.buffer io.reads ∧ (s.readLine max).2.onEdge = true ∧
        (io.readLine max).1 = .error (tooLong max) := by
  by_cases mem : lf ∈ s.left
  · obtain ⟨raw, more, whole, noLf⟩ := List.eq_append_cons_of_mem mem
    have read : s.readLine max =
        if (dropCr raw).length > max then
          (.error (tooLong max), { s with left := more, overLong := true })
        else
          (.ok (some (dropCr raw)),
            { s with left := more, onEdge := s.onEdge || raw.length > max }) := by
      unfold Whole.readLine
      rw [whole, afterLine_append noLf, rawLine_append noLf]
    have eq : io.buffer ++ (io.reads.map (·.1)).flatten = raw ++ lf :: more := here.trans whole
    rcases @readLineFrom_line _ _ _ _ max noLf eq with
      ⟨short, io', run, left, joins, singly⟩ | ⟨long, joins, io', run⟩
    · rw [read, if_neg (by omega), LineIo.readLine, run]
      have bytewise : io.Bytewise → io'.Bytewise ∧ raw.length ≤ max := fun single =>
        singly single.reads ⟨by simp [single.buffer], by simp [single.buffer]⟩
      refine .inl ⟨rfl, fun single => ?_,
        fun _ _ => ⟨left, joins, fun single => (bytewise single).1⟩⟩
      have := (bytewise single).2
      simpa using fun long : max < raw.length => absurd this (by omega)
    · rw [read, LineIo.readLine, run]
      by_cases exceeds : (dropCr raw).length > max
      · rw [if_pos exceeds]
        exact .inl ⟨rfl, fun _ => rfl, fun _ h => by cases h⟩
      · rw [if_neg exceeds]
        refine .inr ⟨fun joined => exceeds (joins joined), ?_, rfl⟩
        show (s.onEdge || decide (raw.length > max)) = true
        rw [decide_eq_true long, Bool.or_true]
  · have eq : io.buffer ++ (io.reads.map (·.1)).flatten = s.left := here
    obtain ⟨io', run, rest⟩ := @readLineFrom_last io.buffer io.reads max (eq ▸ mem)
    rw [eq] at run rest
    have read : s.readLine max =
        if s.left.length > max then
          (.error (tooLong max), { s with left := [], overLong := true })
        else (.ok (if s.left.isEmpty then none else some (dropCr s.left)), { s with left := [] }) := by
      unfold Whole.readLine
      rw [afterLine_eq_none mem]
    rw [read, LineIo.readLine, run]
    split_ifs with long
    · exact .inl ⟨rfl, fun _ => rfl, fun _ h => by cases h⟩
    all_goals
      refine .inl ⟨rfl, fun _ => rfl, fun _ _ => ?_⟩
      have ended := rest (by omega)
      exact ⟨by rw [ended]; rfl, fun _ => by rw [ended]; trivial, fun _ => by
        rw [ended]
        exact ⟨rfl, List.forall_mem_nil _⟩⟩

theorem readExact_agrees (here : io.pending = s.left) (count max : Nat) :
    AsWhole io s (io.readExact count max) (s.readExact count max) := by
  unfold LineIo.readExact Whole.readExact
  split_ifs with exceeds enough
  · exact ⟨rfl, fun _ => rfl, fun _ h => by cases h⟩
  · have data : (s.left.take count).length = count := by
      rw [List.length_take]
      omega
    have eq : io.pending = s.left.take count ++ s.left.drop count := by
      rw [here, List.take_append_drop]
    obtain ⟨io', run, left, single⟩ := @LineIo.readExact_ok _ max _ _ io data (by omega) eq
    rw [LineIo.readExact, if_neg exceeds] at run
    rw [run]
    refine ⟨rfl, fun _ => rfl, fun _ _ => ⟨left, fun joined => ?_, single⟩⟩
    have kept := @readExactFrom_joined _ _ count [] joined
    rwa [run] at kept
  · refine ⟨readExactFrom_short ?_, fun _ => rfl, fun _ h => by cases h⟩
    have length : (io.buffer ++ (io.reads.map (·.1)).flatten).length = s.left.length :=
      congrArg List.length here
    rw [List.length_nil, length]
    omega

theorem readExact_exact {io' : LineIo} {count max : Nat} {data : List UInt8}
    (read : io.readExact count max = (.ok data, io')) :
    data.length = count ∧ io.pending = data ++ io'.pending := by
  obtain ⟨same, -, follows⟩ := @readExact_agrees io (.start io.pending) rfl count max
  rw [read] at same follows
  have left := (follows data same.symm).pending
  unfold Whole.readExact at same left
  split_ifs at same left with exceeds enough
  obtain rfl : data = io.pending.take count := Except.ok.inj same
  refine ⟨?_, ?_⟩
  · rw [List.length_take]
    exact Nat.min_eq_left enough
  · have left : io'.pending = io.pending.drop count := left
    rw [left, List.take_append_drop]

end MailStack.Net
