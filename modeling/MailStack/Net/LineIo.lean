import MailStack.Maildir.Folder

/-! The reader of lines and literals that the mail services share. Bytes come in reads of any length
up to that of the chunk; what was read and not yet taken is kept in a buffer. -/

namespace MailStack.Net

open Lib Maildir

def readChunk : Nat := 4096

def cr : UInt8 := 13

def lf : UInt8 := 10

abbrev Chunk := { bytes : List UInt8 // bytes ≠ [] ∧ bytes.length ≤ readChunk }

/-- `reads` is what the stream still gives before it ends. -/
structure LineIo where
  buffer : List UInt8
  reads : List Chunk
deriving DecidableEq

abbrev Outcome (α : Type) := Except MailError α × LineIo

namespace LineIo

def pending (io : LineIo) : List UInt8 := io.buffer ++ (io.reads.map (·.1)).flatten

def tooLong (max : Nat) : MailError := .protocol ("line exceeds " ++ toString max ++ " bytes")

def dropCr (line : List UInt8) : List UInt8 :=
  if line.getLast? = some cr then line.dropLast else line

/-- The loop of `read_line` on the buffer and the reads. -/
def readLineFrom (max : Nat) : List UInt8 → List Chunk → Outcome (Option (List UInt8))
  | buffer, reads =>
    match buffer.findIdx? (· == lf) with
    | some position =>
      let contentLength :=
        position - if 0 < position && buffer[position - 1]? == some cr then 1 else 0
      if contentLength > max then (.error (tooLong max), { buffer := [], reads })
      else
        (.ok (some (dropCr (buffer.take position))),
          { buffer := buffer.drop (position + 1), reads })
    | none =>
      if buffer.length > max then (.error (tooLong max), { buffer := [], reads })
      else
        match reads with
        | [] =>
          if buffer.isEmpty then (.ok none, { buffer := [], reads := [] })
          else (.ok (some (dropCr buffer)), { buffer := [], reads := [] })
        | chunk :: rest =>
          if (buffer ++ chunk.1).length > max + readChunk then
            (.error (tooLong max), { buffer := [], reads := rest })
          else readLineFrom max (buffer ++ chunk.1) rest
termination_by structural _ reads => reads

def readLine (io : LineIo) (max : Nat) : Outcome (Option (List UInt8)) :=
  readLineFrom max io.buffer io.reads

/-- The loop of `read_exact`: what was taken so far, the buffer and the reads. -/
def readExactFrom (count : Nat) : List UInt8 → List UInt8 → List Chunk → Outcome (List UInt8)
  | out, buffer, reads =>
    let take := min (count - out.length) buffer.length
    let out := out ++ buffer.take take
    if count ≤ out.length then (.ok out, { buffer := buffer.drop take, reads })
    else
      match reads with
      | [] =>
        (.error (.protocol "connection closed in the middle of a literal"),
          { buffer := buffer.drop take, reads := [] })
      | chunk :: rest => readExactFrom count out (buffer.drop take ++ chunk.1) rest
termination_by structural _ _ reads => reads

def readExact (io : LineIo) (count max : Nat) : Outcome (List UInt8) :=
  if count > max then
    (.error (.protocol ("literal of " ++ toString count ++ " bytes exceeds limit " ++ toString max)),
      io)
  else readExactFrom count [] io.buffer io.reads

def Singles (reads : List Chunk) : Prop := ∀ c ∈ reads, c.1.length = 1

/-- Nothing is buffered and every read gives one byte. -/
structure Bytewise (io : LineIo) : Prop where
  buffer : io.buffer = []
  reads : Singles io.reads

def bytewise (bytes : List UInt8) : LineIo :=
  { buffer := [], reads := bytes.map fun b => ⟨[b], by simp, by simp [readChunk]⟩ }

theorem bytewise_bytewise (bytes : List UInt8) : (bytewise bytes).Bytewise := by
  refine ⟨rfl, fun c mem => ?_⟩
  obtain ⟨b, -, rfl⟩ := List.mem_map.mp mem
  rfl

theorem pending_bytewise (bytes : List UInt8) : (bytewise bytes).pending = bytes := by
  simp [bytewise, pending, Function.comp_def, ← List.flatMap_def]

variable {line rest buffer : List UInt8} {reads : List Chunk} {max : Nat} {more : List UInt8}
  {head : List UInt8}

theorem findIdx_lf (noLf : lf ∉ line) (more : List UInt8) :
    (line ++ cr :: lf :: more).findIdx? (· == lf) = some (line.length + 1) := by
  have before : line.findIdx? (· == lf) = none := by
    rw [List.findIdx?_eq_none_iff]
    intro b mem
    exact beq_false_of_ne fun same => noLf (same ▸ mem)
  have after : (cr :: lf :: more).findIdx? (· == lf) = some 1 := by
    rw [List.findIdx?_cons, List.findIdx?_cons]
    rfl
  rw [List.findIdx?_append, before, after]
  simp [Nat.add_comm]

theorem dropCr_append (line : List UInt8) : dropCr (line ++ [cr]) = line := by
  simp [dropCr]

theorem readLineFrom_found (noLf : lf ∉ line) (short : line.length ≤ max) (more : List UInt8) :
    readLineFrom max (line ++ cr :: lf :: more) reads =
      (.ok (some line), { buffer := more, reads }) := by
  have before : (line ++ cr :: lf :: more)[line.length]? = some cr := by simp
  have taken : (line ++ cr :: lf :: more).take (line.length + 1) = line ++ [cr] := by
    rw [List.take_length_add_append]
    rfl
  have left : (line ++ cr :: lf :: more).drop (line.length + 1 + 1) = more := by
    rw [Nat.add_assoc, List.drop_length_add_append]
    rfl
  unfold readLineFrom
  simp only [findIdx_lf noLf more, Nat.add_sub_cancel, before, Nat.zero_lt_succ, decide_true,
    beq_self_eq_true, Bool.and_self, if_true, taken, left, dropCr_append]
  rw [if_neg (not_lt.mpr short)]

theorem line_cases (eq : buffer ++ more = line ++ cr :: lf :: rest) :
    (∃ b, buffer = line ++ cr :: lf :: b ∧ rest = b ++ more) ∨
      ∃ a, a ≠ [] ∧ line ++ [cr, lf] = buffer ++ a ∧ more = a ++ rest := by
  have parts : buffer ++ more = (line ++ [cr, lf]) ++ rest := by simpa using eq
  rcases List.append_eq_append_iff.mp parts with ⟨a, whole, more⟩ | ⟨b, whole, more⟩
  · cases a with
    | nil =>
      rw [List.append_nil] at whole
      exact .inl ⟨[], by simp [← whole], by simpa using more.symm⟩
    | cons x xs => exact .inr ⟨x :: xs, by simp, whole, more⟩
  · exact .inl ⟨b, by simp [whole], more⟩

theorem part_of_line {a : List UInt8} (noLf : lf ∉ line) (some : a ≠ [])
    (whole : line ++ [cr, lf] = buffer ++ a) :
    buffer.length ≤ line.length + 1 ∧ lf ∉ buffer := by
  have part : line ++ [cr] = buffer ++ a.dropLast := by
    have shorter := congrArg List.dropLast whole
    rw [List.dropLast_append_of_ne_nil some] at shorter
    rw [← shorter, List.dropLast_append_of_ne_nil (by simp)]
    rfl
  constructor
  · have lengths := congrArg List.length part
    simp only [List.length_append, List.length_singleton] at lengths
    omega
  · intro mem
    have inside : lf ∈ line ++ [cr] := part ▸ List.mem_append_left _ mem
    rcases List.mem_append.mp inside with mem | mem
    · exact noLf mem
    · exact absurd (List.mem_singleton.mp mem) (by decide)

theorem not_mem_findIdx (noLf : lf ∉ buffer) : buffer.findIdx? (· == lf) = none := by
  rw [List.findIdx?_eq_none_iff]
  intro b mem
  exact beq_false_of_ne fun same => noLf (same ▸ mem)

theorem chunk_length (chunk : Chunk) : 0 < chunk.1.length ∧ chunk.1.length ≤ readChunk :=
  ⟨List.length_pos_of_ne_nil chunk.2.1, chunk.2.2⟩

theorem readLineFrom_more {chunk : Chunk} (noLf : lf ∉ buffer) (short : buffer.length ≤ max) :
    readLineFrom max buffer (chunk :: reads) = readLineFrom max (buffer ++ chunk.1) reads := by
  have room : ¬(buffer ++ chunk.1).length > max + readChunk := by
    have := (chunk_length chunk).2
    rw [List.length_append]
    omega
  rw [readLineFrom.eq_def]
  simp only [not_mem_findIdx noLf, if_neg (not_lt.mpr short), if_neg room]

theorem found_last {b : List UInt8} (last : lf ∉ (line ++ cr :: lf :: b).dropLast) : b = [] := by
  by_contra some
  refine last ?_
  rw [List.dropLast_append_of_ne_nil (by simp), List.dropLast_cons_of_ne_nil (by simp),
    List.dropLast_cons_of_ne_nil some]
  simp

theorem readLineFrom_ok (noLf : lf ∉ line) (short : line.length < max)
    (eq : buffer ++ (reads.map (·.1)).flatten = line ++ cr :: lf :: rest) :
    ∃ io, readLineFrom max buffer reads = (.ok (some line), io) ∧ io.pending = rest ∧
      (Singles reads → lf ∉ buffer.dropLast → io.Bytewise) := by
  induction reads generalizing buffer with
  | nil =>
    rcases line_cases eq with ⟨b, rfl, rfl⟩ | ⟨a, some, -, empty⟩
    · refine ⟨_, readLineFrom_found noLf short.le b, rfl, fun _ last => ⟨?_, nofun⟩⟩
      exact found_last last
    · simp only [List.map_nil, List.flatten_nil] at empty
      exact absurd (List.append_eq_nil_iff.mp empty.symm).1 some
  | cons chunk reads ih =>
    rcases line_cases eq with ⟨b, rfl, rfl⟩ | ⟨a, some, whole, -⟩
    · refine ⟨_, readLineFrom_found noLf short.le b, rfl, fun singles last => ⟨?_, singles⟩⟩
      exact found_last last
    · obtain ⟨length, noLf'⟩ := part_of_line noLf some whole
      rw [readLineFrom_more noLf' (by omega)]
      have grown : (buffer ++ chunk.1) ++ (reads.map (·.1)).flatten = line ++ cr :: lf :: rest := by
        rw [← eq, List.append_assoc]
        rfl
      obtain ⟨io, run, left, single⟩ := ih grown
      refine ⟨io, run, left, fun singles _ => single (fun c mem => singles c (.tail _ mem)) ?_⟩
      obtain ⟨b, one⟩ := List.length_eq_one_iff.mp (singles chunk List.mem_cons_self)
      rw [one, List.dropLast_concat]
      exact noLf'

variable {io : LineIo}

theorem readLine_ok (noLf : lf ∉ line) (short : line.length < max)
    (eq : io.pending = line ++ cr :: lf :: rest) :
    ∃ io', io.readLine max = (.ok (some line), io') ∧ io'.pending = rest ∧
      (io.Bytewise → io'.Bytewise) := by
  obtain ⟨io', run, left, single⟩ := readLineFrom_ok noLf short eq
  refine ⟨io', run, left, fun bytewise => single bytewise.reads ?_⟩
  simp [bytewise.buffer]

theorem readLine_end (eq : io.pending = []) :
    ∃ io', io.readLine max = (.ok none, io') := by
  obtain ⟨buffer, reads⟩ := io
  obtain ⟨rfl, none⟩ := List.append_eq_nil_iff.mp eq
  cases reads with
  | nil => exact ⟨_, rfl⟩
  | cons chunk reads =>
    have := (List.append_eq_nil_iff.mp none).1
    exact absurd this chunk.2.1

theorem noLf_of_part {head more : List UInt8} (noLf : lf ∉ head)
    (eq : buffer ++ more = head ++ rest)
    (part : buffer.length ≤ head.length) : lf ∉ buffer := by
  have front : buffer = head.take buffer.length := by
    have taken := congrArg (List.take buffer.length) eq
    rwa [List.take_left, List.take_append_of_le_length part] at taken
  rw [front]
  exact fun mem => noLf (List.mem_of_mem_take mem)

/-- When bytes come one by one, a line that is too long is refused before its end is seen. -/
theorem readLineFrom_tooLong (noLf : lf ∉ head) (long : head.length = max + 1)
    (singles : Singles reads) (eq : buffer ++ (reads.map (·.1)).flatten = head ++ rest)
    (part : buffer.length ≤ head.length) :
    ∃ io, readLineFrom max buffer reads = (.error (tooLong max), io) := by
  induction reads generalizing buffer with
  | nil =>
    have lengths := congrArg List.length eq
    simp only [List.map_nil, List.flatten_nil, List.append_nil, List.length_append] at lengths
    have full : buffer.length > max := by omega
    rw [readLineFrom.eq_def]
    simp only [not_mem_findIdx (noLf_of_part noLf eq part), if_pos full]
    exact ⟨_, rfl⟩
  | cons chunk reads ih =>
    by_cases full : buffer.length > max
    · rw [readLineFrom.eq_def]
      simp only [not_mem_findIdx (noLf_of_part noLf eq part), if_pos full]
      exact ⟨_, rfl⟩
    · rw [readLineFrom_more (noLf_of_part noLf eq part) (not_lt.mp full)]
      refine ih (fun c mem => singles c (.tail _ mem)) ?_ ?_
      · rw [← eq, List.append_assoc]
        rfl
      · rw [List.length_append, singles chunk List.mem_cons_self]
        omega

theorem readLine_tooLong (bytewise : io.Bytewise)
    (noLf : lf ∉ head) (long : head.length = max + 1) (eq : io.pending = head ++ rest) :
    ∃ io', io.readLine max = (.error (tooLong max), io') := by
  refine readLineFrom_tooLong noLf long bytewise.reads eq ?_
  simp [bytewise.buffer]

variable {data out : List UInt8} {count : Nat}

theorem readExactFrom_enough (length : data.length = count)
    (part : out.length ≤ count) (enough : count ≤ out.length + buffer.length)
    (eq : out ++ (buffer ++ more) = data ++ rest) :
    ∃ left, readExactFrom count out buffer reads = (.ok data, { buffer := left, reads }) ∧
      left ++ more = rest ∧ left.length = out.length + buffer.length - count := by
  have take : min (count - out.length) buffer.length = count - out.length := by omega
  have whole : out ++ buffer.take (count - out.length) = data := by
    have taken := congrArg (List.take count) eq
    rwa [List.take_append, List.take_of_length_le part, List.take_append_of_le_length (by omega),
      List.take_left' length] at taken
  refine ⟨buffer.drop (count - out.length), ?_, ?_, ?_⟩
  · rw [readExactFrom.eq_def]
    simp only [take, whole, length, le_refl, if_true]
  · have parts : out ++ buffer.take (count - out.length) ++
        (buffer.drop (count - out.length) ++ more) =
        data ++ rest := by
      rw [← eq, List.append_assoc, ← List.append_assoc (buffer.take _), List.take_append_drop]
    rw [whole] at parts
    exact List.append_cancel_left parts
  · rw [List.length_drop]
    omega

theorem readExactFrom_ok (length : data.length = count) (part : out.length ≤ count)
    (eq : out ++ (buffer ++ (reads.map (·.1)).flatten) = data ++ rest) :
    ∃ io, readExactFrom count out buffer reads = (.ok data, io) ∧ io.pending = rest ∧
      (Singles reads → buffer.length ≤ count - out.length → io.Bytewise) := by
  induction reads generalizing buffer out with
  | nil =>
    have lengths := congrArg List.length eq
    simp only [List.map_nil, List.flatten_nil, List.append_nil, List.length_append] at lengths
    obtain ⟨left, run, pending, size⟩ := readExactFrom_enough length part (by omega) eq
    refine ⟨_, run, pending, fun singles short => ⟨?_, singles⟩⟩
    show left = []
    exact List.length_eq_zero_iff.mp (by omega)
  | cons chunk reads ih =>
    by_cases enough : count ≤ out.length + buffer.length
    · obtain ⟨left, run, pending, size⟩ := readExactFrom_enough length part enough eq
      refine ⟨_, run, pending, fun singles short => ⟨?_, singles⟩⟩
      show left = []
      exact List.length_eq_zero_iff.mp (by omega)
    · have take : min (count - out.length) buffer.length = buffer.length := by omega
      have more : readExactFrom count out buffer (chunk :: reads) =
          readExactFrom count (out ++ buffer) chunk.1 reads := by
        rw [readExactFrom.eq_def]
        simp only [take, List.take_length, List.drop_length, List.nil_append, List.length_append,
          if_neg enough]
      have grown : (out ++ buffer) ++ (chunk.1 ++ (reads.map (·.1)).flatten) = data ++ rest := by
        rw [← eq, List.append_assoc]
        rfl
      have part' : (out ++ buffer).length ≤ count := by
        rw [List.length_append]
        omega
      obtain ⟨io, run, pending, single⟩ := ih part' grown
      rw [more]
      refine ⟨io, run, pending, fun singles _ => single (fun c mem => singles c (.tail _ mem)) ?_⟩
      rw [singles chunk List.mem_cons_self, List.length_append]
      omega

theorem readExact_ok {io : LineIo} (length : data.length = count) (short : count ≤ max)
    (eq : io.pending = data ++ rest) :
    ∃ io', io.readExact count max = (.ok data, io') ∧ io'.pending = rest ∧
      (io.Bytewise → io'.Bytewise) := by
  rw [readExact, if_neg (not_lt.mpr short)]
  have start : [] ++ (io.buffer ++ (io.reads.map (·.1)).flatten) = data ++ rest := eq
  obtain ⟨io', run, left, single⟩ := readExactFrom_ok length (Nat.zero_le _) start
  refine ⟨io', run, left, fun bytewise => single bytewise.reads ?_⟩
  simp [bytewise.buffer]

end LineIo

end MailStack.Net
