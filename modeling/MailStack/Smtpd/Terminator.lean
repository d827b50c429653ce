import MailStack.Smtpd.DataReading

/-! Where message data ends, in terms of the bytes of the stream: at the first line that is a dot
alone, and under the rejecting policy only between CRLF and CRLF. -/

namespace MailStack.Smtpd

open Lib DataSink

/-- The text ends with a line that is a dot alone and has a CRLF. -/
def Ends (text : List UInt8) : Prop := text = [dot, cr, lf] ∨ [lf, dot, cr, lf] <:+ text

/-- The text ends in a dot alone between CRLFs. -/
def EndsCrlf (text : List UInt8) : Prop := text = [dot, cr, lf] ∨ [cr, lf, dot, cr, lf] <:+ text

/-- There is an LF without a CR before it. -/
def HasBareLf (text : List UInt8) : Prop := ∃ q, q ++ [lf] <+: text ∧ q.getLast? ≠ some cr

/-- A text without the dots at the beginning of its lines, one for each line. Everything else is
kept. -/
@[grind =] def dropDots : Bool → List UInt8 → List UInt8
  | _, [] => []
  | start, byte :: rest =>
    if start ∧ byte = dot then dropDots false rest else byte :: dropDots (byte = lf) rest

/-- A text that is empty or ends with an LF, so that a line starts after it. -/
def LineStart (head : List UInt8) : Prop := head = [] ∨ ∃ before, head = before ++ [lf]

variable {head out : List UInt8} {policy : BareNewlinePolicy} {line : List UInt8}

theorem DataSink.Decoded.lineStart (h : Decoded policy head out) : LineStart head := by
  cases h with
  | nil => exact .inl rfl
  | line => exact .inr ⟨_, rfl⟩

theorem tail_unique {a b head tail : List UInt8} (start : LineStart head)
    (same : a ++ lf :: b = head ++ tail) (noLf : lf ∉ b) (inLine : lf ∉ tail) : tail = b := by
  rcases List.append_eq_append_iff.mp same with ⟨c, rfl, eq⟩ | ⟨c, rfl, rfl⟩
  · cases c with
    | nil =>
      rw [List.nil_append] at eq
      exact absurd (eq ▸ List.mem_cons_self) inLine
    | cons x xs =>
      obtain ⟨rfl, rfl⟩ := List.cons.inj eq
      rcases List.eq_nil_or_concat xs with rfl | ⟨ys, y, rfl⟩
      · rfl
      · -- the LF at the end of the head would stand in `b`
        rcases start with none | ⟨before, last⟩
        · simp at none
        · have ended : (lf :: (ys ++ [y])).getLast? = some lf := by
            simpa using congrArg List.getLast? last
          rw [← List.cons_append, List.getLast?_concat, Option.some.injEq] at ended
          simp [ended] at noLf
  · simp at inLine

theorem ends_iff {head tail : List UInt8} (start : LineStart head) (inLine : lf ∉ tail) :
    Ends (head ++ tail ++ [lf]) ↔ tail = [dot, cr] := by
  constructor
  · rintro (whole | ⟨a, suffix⟩)
    · have text : head ++ tail = [dot, cr] :=
        List.append_cancel_right (whole : _ = [dot, cr] ++ [lf])
      rcases start with rfl | ⟨before, rfl⟩
      · exact text
      · have : lf ∈ [dot, cr] := text ▸ by simp
        exact absurd this (by decide)
    · have text : a ++ lf :: [dot, cr] = head ++ tail :=
        List.append_cancel_right (by simpa using suffix : _ ++ [lf] = _ ++ [lf])
      exact tail_unique start text (by decide) inLine
  · rintro rfl
    rcases start with rfl | ⟨before, rfl⟩
    · exact .inl rfl
    · exact .inr ⟨before, by simp⟩

variable {text : List UInt8}

theorem lf_of_ends (h : Ends text) : text.getLast? = some lf := by
  rcases h with rfl | ⟨a, rfl⟩
  · rfl
  · simp

theorem lf_of_line {head tail q : List UInt8} (inLine : lf ∉ tail)
    (sub : q ++ [lf] <+: head ++ tail ++ [lf]) : q ++ [lf] <+: head ∨ q = head ++ tail := by
  have start : head <+: head ++ tail ++ [lf] := by simp
  rcases List.prefix_or_prefix_of_prefix sub start with old | ⟨c, text⟩
  · exact .inl old
  · rcases List.eq_nil_or_concat c with rfl | ⟨c, x, rfl⟩
    · exact .inl (by simp [← text])
    · rw [List.concat_eq_append, ← List.append_assoc] at text
      obtain ⟨rfl, -⟩ := List.append_inj' text rfl
      have inside : c ++ [lf] <+: tail ++ [lf] := by
        rw [List.append_assoc, List.append_assoc] at sub
        exact (List.prefix_append_right_inj head).mp sub
      rcases List.prefix_concat_iff.mp inside with whole | early
      · exact .inr (congrArg (head ++ ·) (List.append_cancel_right whole))
      · exact absurd (early.subset (by simp)) inLine

theorem not_ends_of_decoded
    (h : Decoded policy head out) {q : List UInt8} (sub : q <+: head) : ¬Ends q := by
  induction h generalizing q with
  | nil =>
    obtain rfl := List.prefix_nil.mp sub
    rintro (eq | ⟨a, eq⟩) <;> simp at eq
  | @line head out tail before inLine notDot ending ih =>
    intro ends
    obtain ⟨r, rfl⟩ := List.getLast?_eq_some_iff.mp (lf_of_ends ends)
    rcases lf_of_line inLine sub with old | rfl
    · exact ih old ends
    · rw [(ends_iff before.lineStart inLine).mp ends] at notDot
      exact notDot rfl

theorem not_hasBareLf_of_decoded (h : Decoded .reject head out) :
    ¬HasBareLf head := by
  rintro ⟨q, sub, bare⟩
  induction h generalizing q with
  | nil => simp at sub
  | @line head out tail before inLine notDot ending ih =>
    rcases lf_of_line inLine sub with old | rfl
    · exact ih q old bare
    · rcases ending with ended | lenient
      · exact bare (by simp [ended])
      · cases lenient

/-- A line starts after the text, where `start` says so of the text before. -/
def startAfter (start : Bool) (text : List UInt8) : Bool :=
  (text.getLast?.map fun byte => decide (byte = lf)).getD start

theorem startAfter_cons (start : Bool) (byte : UInt8) (rest : List UInt8) :
    startAfter start (byte :: rest) = startAfter (byte = lf) rest := by
  cases rest with
  | nil => rfl
  | cons next rest => simp [startAfter, List.getLast?_cons]

theorem dropDots_append (start : Bool) (head rest : List UInt8) :
    dropDots start (head ++ rest) =
      dropDots start head ++ dropDots (startAfter start head) rest := by
  induction head generalizing start with
  | nil => rfl
  | cons byte head ih =>
    rw [List.cons_append, dropDots, dropDots, startAfter_cons]
    split
    · rename_i dropped
      rw [ih, dropped.2]
      rfl
    · rw [ih, List.cons_append]

theorem dropDots_inLine (inLine : lf ∉ line) : dropDots false line = line := by
  induction line with
  | nil => rfl
  | cons byte rest ih =>
    obtain ⟨ne, later⟩ := not_or.mp (List.mem_cons.not.mp inLine)
    simp [dropDots, Ne.symm ne, ih later]

theorem dropDots_line (inLine : lf ∉ line) :
    dropDots true line = unstuff line := by
  cases line with
  | nil => rfl
  | cons byte rest =>
    obtain ⟨ne, later⟩ := not_or.mp (List.mem_cons.not.mp inLine)
    by_cases isDot : byte = dot
    · simp [dropDots, unstuff, isDot, dropDots_inLine later]
    · simp [dropDots, unstuff, isDot, Ne.symm ne, dropDots_inLine later]

theorem dropDots_of_decoded (h : Decoded .reject head out) :
    dropDots true head = out := by
  induction h with
  | nil => rfl
  | @line head out tail before inLine notDot ending ih =>
    have start : startAfter true head = true := by
      rcases before.lineStart with rfl | ⟨_, rfl⟩ <;> simp [startAfter]
    have ended : tail.getLast? = some cr := ending.resolve_right nofun
    have line : tail = stripCr tail ++ [cr] :=
      (stripCr_cases tail).resolve_right fun ⟨bare, _⟩ => bare ended
    have kept : unstuff tail = unstuff (stripCr tail) ++ [cr] := by
      conv_lhs => rw [line]
      cases stripCr tail with
      | nil => rfl
      | cons byte rest => simp only [unstuff, List.cons_append]; split <;> rfl
    have last : dropDots (startAfter true tail) [lf] = [lf] := by
      simp [dropDots, lf, dot]
    rw [List.append_assoc, dropDots_append, ih, start, dropDots_append, dropDots_line inLine, last,
      kept]
    simp

theorem endsCrlf_of_ends (h : Ends text) (clean : ¬HasBareLf text) :
    EndsCrlf text := by
  rcases h with rfl | ⟨a, rfl⟩
  · exact .inl rfl
  · have ended : a.getLast? = some cr := by
      by_contra bare
      exact clean ⟨a, ⟨[dot, cr, lf], by simp⟩, bare⟩
    obtain ⟨b, rfl⟩ := List.getLast?_eq_some_iff.mp ended
    exact .inr ⟨b, by simp⟩

theorem ends_of_endsCrlf (h : EndsCrlf text) : Ends text := by
  rcases h with rfl | ⟨a, rfl⟩
  · exact .inl rfl
  · exact .inr ⟨a ++ [cr], by simp⟩

theorem ends_iff_head :
    Ends text ↔ ∃ head, LineStart head ∧ text = head ++ [dot, cr, lf] := by
  constructor
  · rintro (rfl | ⟨a, rfl⟩)
    · exact ⟨[], .inl rfl, rfl⟩
    · exact ⟨a ++ [lf], .inr ⟨a, rfl⟩, by simp⟩
  · rintro ⟨head, start, rfl⟩
    have ends := (ends_iff start (by decide : lf ∉ [dot, cr])).mpr rfl
    rwa [List.append_assoc] at ends

/-- A text without a bare LF and without an end of the data is one of lines. -/
theorem decoded_of_clean {head : List UInt8} (start : LineStart head)
    (noEnd : ∀ q, q <+: head → ¬Ends q) (clean : ¬HasBareLf head) :
    ∃ out, Decoded .reject head out := by
  have finds := (new_reads 0 .reject).finds head
  generalize (new 0 .reject).read head = result at finds
  cases finds with
  | @more _ head' out tail reads text =>
    rw [List.append_nil, List.nil_append] at text
    have nothing : tail = [] := by
      rcases start with none | ⟨before, last⟩
      · rw [none] at text
        exact (List.append_eq_nil_iff.mp text.symm).2
      · rw [last] at text
        exact tail_unique reads.decoded.lineStart text (by simp) reads.inLine
    rw [nothing, List.append_nil] at text
    exact ⟨out, text ▸ reads.decoded⟩
  | @complete _ head' out n short decoded text =>
    have ends : Ends (head.take n) :=
      ends_iff_head.mpr ⟨head', decoded.lineStart, by simpa using text⟩
    exact absurd ends (noEnd _ (List.take_prefix n head))
  | @refused _ head' out tail n short decoded inLine bare why text =>
    have text' : head.take n = head' ++ tail ++ [lf] := by simpa using text
    refine absurd ⟨head' ++ tail, text' ▸ List.take_prefix n head, ?_⟩ clean
    rcases List.eq_nil_or_concat tail with rfl | ⟨t, x, rfl⟩
    · rcases decoded.lineStart with rfl | ⟨before, rfl⟩
      · simp
      · simp [lf, cr]
    · simpa using bare

theorem first_end {stream head out : List UInt8} {n : Nat}
    (decoded : Decoded policy head out) (short : n ≤ stream.length)
    (text : stream.take n = head ++ [dot, cr, lf]) :
    Ends (stream.take n) ∧ ∀ m < n, ¬Ends (stream.take m) := by
  refine ⟨ends_iff_head.mpr ⟨head, decoded.lineStart, text⟩, fun m less early => ?_⟩
  obtain ⟨count, -⟩ := take_before_end short text
  obtain ⟨r, last⟩ := List.getLast?_eq_some_iff.mp (lf_of_ends early)
  have sub : r ++ [lf] <+: head ++ [dot, cr] ++ [lf] := by
    have : stream.take m <+: stream.take n := List.take_prefix_take_left (by omega)
    rw [text, last] at this
    simpa using this
  rcases lf_of_line (by decide) sub with old | rfl
  · exact not_ends_of_decoded decoded old (last ▸ early)
  · have := congrArg List.length last
    simp only [List.length_take, List.length_append, List.length_cons, List.length_nil] at this
    omega

/-- Under the rejecting policy the data is complete at the first end between CRLF and CRLF, if there
is no bare LF up to there. -/
theorem read_reject_iff {maxSize : Nat} {stream : List UInt8} {data : Option (List UInt8)}
    {n : Nat} :
    ((new maxSize .reject).read stream).2 = (.complete data, n) ↔
      n ≤ stream.length ∧ EndsCrlf (stream.take n) ∧ (∀ m < n, ¬EndsCrlf (stream.take m)) ∧
        ¬HasBareLf (stream.take n) ∧
        data = collected maxSize (dropDots true (stream.take (n - 3))) := by
  rw [read_complete_iff]
  constructor
  · rintro ⟨head, out, decoded, short, text, rfl⟩
    obtain ⟨ends, first⟩ := first_end decoded short text
    have clean : ¬HasBareLf (stream.take n) := by
      rintro ⟨q, sub, bare⟩
      rw [text] at sub
      have sub' : q ++ [lf] <+: head ++ [dot, cr] ++ [lf] := by simpa using sub
      rcases lf_of_line (by decide) sub' with old | rfl
      · exact not_hasBareLf_of_decoded decoded ⟨q, old, bare⟩
      · simp at bare
    refine ⟨short, endsCrlf_of_ends ends clean,
      fun m less early => first m less (ends_of_endsCrlf early), clean, ?_⟩
    rw [(take_before_end short text).2, dropDots_of_decoded decoded]
  · rintro ⟨short, ends, first, clean, rfl⟩
    obtain ⟨head, start, text⟩ := ends_iff_head.mp (ends_of_endsCrlf ends)
    obtain ⟨count, before⟩ := take_before_end short text
    have sub : head <+: stream.take n := text ▸ List.prefix_append _ _
    have cleanHead : ¬HasBareLf head := fun ⟨q, inHead, bare⟩ => clean ⟨q, inHead.trans sub, bare⟩
    have noEnd : ∀ q, q <+: head → ¬Ends q := by
      intro q inHead early
      have isTake : q = stream.take q.length :=
        List.prefix_iff_eq_take.mp ((inHead.trans sub).trans (List.take_prefix n stream))
      have less : q.length < n := by
        have := inHead.length_le
        omega
      refine first q.length less (isTake ▸ endsCrlf_of_ends early ?_)
      exact fun ⟨r, inQ, bare⟩ => cleanHead ⟨r, inQ.trans inHead, bare⟩
    obtain ⟨out, decoded⟩ := decoded_of_clean start noEnd cleanHead
    exact ⟨head, out, decoded, short, text, by rw [before, dropDots_of_decoded decoded]⟩

/-- Chunks are of no account. Under the rejecting policy the data is complete exactly at the first
CRLF.CRLF, or .CRLF at the start, when no bare LF stands before; it is the text up to there without
the added dots, and is dropped when it is too large. Under the normalizing policy it is complete
only at the first line that is a dot alone with a CRLF. -/
theorem data_ends_at_the_terminator (maxSize : Nat) (chunks : List (List UInt8)) :
    (∀ policy, (new maxSize policy).feedChunks chunks =
      (new maxSize policy).feedChunks [chunks.flatten]) ∧
    (∀ data n, ((new maxSize .reject).feedChunks chunks).2 = (.complete data, n) ↔
      n ≤ chunks.flatten.length ∧ EndsCrlf (chunks.flatten.take n) ∧
        (∀ m < n, ¬EndsCrlf (chunks.flatten.take m)) ∧ ¬HasBareLf (chunks.flatten.take n) ∧
        data = collected maxSize (dropDots true (chunks.flatten.take (n - 3)))) ∧
    (∀ policy data n,
      ((new maxSize policy).feedChunks chunks).2 = (.complete (some data), n) →
        data.length ≤ maxSize) ∧
    (∀ data n, ((new maxSize .normalize).feedChunks chunks).2 = (.complete data, n) →
      Ends (chunks.flatten.take n) ∧ ∀ m < n, ¬Ends (chunks.flatten.take m)) := by
  simp only [feedChunks_eq_read, List.flatten_cons, List.flatten_nil, List.append_nil]
  refine ⟨fun _ => trivial, fun data n => read_reject_iff, fun policy data n run => ?_,
    fun data n run => ?_⟩
  · obtain ⟨head, out, -, -, -, kept⟩ := read_complete_iff.mp run
    unfold collected at kept
    split at kept
    · rename_i fits
      cases kept
      exact fits.le
    · cases kept
  · obtain ⟨head, out, decoded, short, text, -⟩ := read_complete_iff.mp run
    exact first_end decoded short text

/-- Under the normalizing policy a bare LF may end the line before the dot. -/
theorem normalize_ends_after_bare_lf :
    ((new 100 .normalize).feedChunks [[0x61, lf, dot, cr, lf]]).2 =
        (.complete (some [0x61, cr, lf]), 5) ∧
      HasBareLf [0x61, lf] ∧ ¬EndsCrlf [0x61, lf, dot, cr, lf] := by
  refine ⟨by decide +kernel, ⟨[0x61], ⟨[], rfl⟩, by decide⟩, ?_⟩
  rintro (whole | suffix)
  · exact absurd whole (by decide)
  · exact absurd suffix (by decide)

end MailStack.Smtpd
