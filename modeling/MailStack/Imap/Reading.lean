import MailStack.Imap.Parser
import MailStack.Net.Segments

/-! Command after command from a stream, whatever reads its bytes come in. -/

namespace MailStack.Imap.Parser

open Lib Maildir Net

/-- The error begins as the one for a line that is too long does. -/
def saysLine : MailError → Bool
  | .protocol text => "line".toList.isPrefixOf text.toList
  | _ => false

theorem saysLine_tooLong (max : Nat) : saysLine (LineIo.tooLong max) = true := by
  simp [saysLine, LineIo.tooLong]

/-- Whatever the error is, it is not about the length of a line. -/
def Quiet {α : Type} (result : Except MailError α) : Prop :=
  ∀ e, result = .error e → saysLine e = false

section Quiet

variable {α β : Type}

theorem quiet_ok (a : α) : Quiet (.ok a) := fun e h => by cases h

theorem quiet_error {e : MailError}
    (quiet : saysLine e = false) : Quiet (.error e : Except _ α) := by
  intro e' h
  cases h
  exact quiet

variable {result : Except MailError α}

theorem Quiet.bind {f : α → Except MailError β} (quiet : Quiet result)
    (next : ∀ a, Quiet (f a)) : Quiet (result >>= f) := by
  intro e h
  cases result with
  | error e' =>
    cases h
    exact quiet e rfl
  | ok a => exact next a e h

theorem Quiet.map (quiet : Quiet result) (f : α → β) :
    Quiet (result.map f) := by
  intro e h
  cases result with
  | error e' =>
    cases h
    exact quiet e rfl
  | ok a => cases h

theorem Quiet.ne_tooLong (quiet : Quiet result) (max : Nat) :
    result ≠ .error (LineIo.tooLong max) := by
  intro h
  have := quiet _ h
  rw [saysLine_tooLong] at this
  cases this

theorem Frames.quiet_pushToken (frames : Frames) (token : Token) (maxTokens : Nat) :
    Quiet (frames.pushToken token maxTokens) := by
  unfold pushToken
  split_ifs
  · exact quiet_error (by decide)
  · exact quiet_ok _

theorem Frames.quiet_closeList (frames : Frames) (maxTokens : Nat) :
    Quiet (frames.closeList maxTokens) := by
  unfold closeList
  split
  · exact quiet_error (by decide)
  · exact quiet_pushToken _ _ _

theorem quiet_parseQuoted (escaped : Bool) (out bytes : List UInt8) :
    Quiet (parseQuoted escaped out bytes) := by
  fun_induction parseQuoted escaped out bytes with
  | case1 => exact quiet_error (by decide)
  | case2 => exact quiet_error (by decide)
  | case3 _ _ _ _ ih => exact ih
  | case4 _ _ ih => exact ih
  | case5 => exact quiet_ok _
  | case6 => exact quiet_error (by decide)
  | case7 _ _ _ _ _ _ ih => exact ih

theorem quiet_textStep (maxTokens : Nat) (frames : Frames) (bytes : List UInt8) :
    Quiet (textStep maxTokens frames bytes) := by
  cases bytes with
  | nil => exact quiet_ok _
  | cons byte rest =>
    unfold textStep
    dsimp only
    split_ifs
    · exact quiet_ok _
    · exact quiet_ok _
    · exact (frames.quiet_closeList maxTokens).map _
    · cases read : parseQuoted false [] rest with
      | error e => exact quiet_error (quiet_parseQuoted _ _ _ e read)
      | ok r => exact (frames.quiet_pushToken _ maxTokens).map _
    · exact quiet_error (by decide)
    · exact quiet_error (by decide)
    · exact (frames.quiet_pushToken _ maxTokens).map _

theorem quiet_tokenizeChunk (maxTokens : Nat) (frames : Frames) (chunk : CommandChunk) :
    Quiet (tokenizeChunk maxTokens frames chunk) := by
  cases chunk with
  | literal bytes => exact frames.quiet_pushToken _ maxTokens
  | text bytes =>
    refine Quiet.map (fun e h => ?_) _
    exact Parse.iterate_error (P := fun e => saysLine e = false)
      (fun frames bytes => quiet_textStep maxTokens frames bytes) (by decide) h

theorem quiet_tokenizeChunks (maxTokens : Nat) (chunks : List CommandChunk) (frames : Frames) :
    Quiet (chunks.foldlM (tokenizeChunk maxTokens) frames) := by
  induction chunks generalizing frames with
  | nil => exact quiet_ok _
  | cons chunk chunks ih =>
    rw [List.foldlM_cons]
    exact (quiet_tokenizeChunk maxTokens frames chunk).bind ih

theorem quiet_validateTag (tag : String) : Quiet (validateTag tag) := by
  unfold validateTag
  split_ifs
  · exact quiet_error (by decide)
  · exact quiet_ok _
  · exact quiet_error (by decide)

theorem quiet_finish (tokens : List Token) (rawArgs : Option String) :
    Quiet (finish tokens rawArgs) := by
  unfold finish
  split
  · refine (quiet_validateTag _).bind fun _ => ?_
    split
    · exact quiet_ok _
    · exact quiet_error (by decide)
  · exact quiet_error (by decide)
  · exact quiet_error (by decide)

theorem quiet_commandOf (chunks : List CommandChunk) (limits : ParserLimits) :
    Quiet (commandOf chunks limits) := by
  refine Quiet.bind ?_ fun tokens => quiet_finish tokens _
  refine (quiet_tokenizeChunks _ chunks .empty).bind fun frames => ?_
  split_ifs
  · exact quiet_ok _
  · exact quiet_error (by decide)

theorem quiet_splitLiteralMarker (text : List UInt8) (maxLiteral : Nat) :
    Quiet (splitLiteralMarker text maxLiteral) := by
  unfold splitLiteralMarker
  split_ifs
  · exact quiet_ok _
  split
  · exact quiet_ok _
  have size : ∀ size : Nat,
      saysLine (.protocol ("literal of " ++ toString size ++ " bytes exceeds limit " ++
      toString maxLiteral)) = false := by
    intro size
    simp only [saysLine, String.toList_append, List.append_assoc]
    rfl
  dsimp only
  split_ifs
  · exact quiet_ok _
  all_goals first
    | exact quiet_error (by decide)
    | split
      · exact quiet_error (by decide)
      · split_ifs
        · exact quiet_error (size _)
        · exact quiet_ok _

end Quiet

def whole : ByteSource Whole where
  readLine := Whole.readLine
  readExact := Whole.readExact

/-- The calls that read a stream up to the first error, by what each met. -/
def readings (limits : ParserLimits) : Nat → List UInt8 → List Whole
  | 0, _ => []
  | n + 1, bytes =>
    let first := readCommandFrom whole limits (.start bytes)
    first.source ::
      match first.result with
      | .error _ => []
      | .ok _ => readings limits n first.source.left

section Agreement

variable {limits : ParserLimits} {left : Nat} {r : Reading} {s : Whole} {io : LineIo}

theorem readLine_flags (s : Whole) (max : Nat) :
    (s.onEdge = true → (s.readLine max).2.onEdge = true) ∧
      ((s.readLine max).2.overLong = s.overLong ∧ (∀ e, (s.readLine max).1 ≠ .error e) ∨
        (s.readLine max).2.overLong = true ∧ (s.readLine max).1 = .error (LineIo.tooLong max)) := by
  unfold Whole.readLine
  split
  · split_ifs
    · exact ⟨id, .inr ⟨rfl, rfl⟩⟩
    · exact ⟨fun on => by simp [on], .inl ⟨rfl, fun e h => by cases h⟩⟩
  · split_ifs
    · exact ⟨id, .inr ⟨rfl, rfl⟩⟩
    all_goals exact ⟨id, .inl ⟨rfl, fun e h => by cases h⟩⟩

theorem readExact_flags (s : Whole) (count max : Nat) :
    (s.readExact count max).2.onEdge = s.onEdge ∧
      (s.readExact count max).2.overLong = s.overLong ∧ Quiet (s.readExact count max).1 := by
  unfold Whole.readExact
  split_ifs
  · refine ⟨rfl, rfl, quiet_error ?_⟩
    simp only [saysLine, String.toList_append, List.append_assoc]
    rfl
  · exact ⟨rfl, rfl, quiet_ok _⟩
  · exact ⟨rfl, rfl, quiet_error (by decide)⟩

/-- What holds however a call ends after a line or a literal, and does not change when more was read
before it, holds of every call. -/
theorem readFrom_rule {σ : Type} {src : ByteSource σ} {P : σ → ReadResult σ → Prop}
    (noLine : ∀ s e s' p, src.readLine s limits.maxLine = (.error e, s') → P s ⟨p, .error e, s'⟩)
    (stops : ∀ s line s' p result, src.readLine s limits.maxLine = (.ok line, s') → Quiet result →
      P s ⟨p, result, s'⟩)
    (noLiteral : ∀ s line s' size e s'' p, src.readLine s limits.maxLine = (.ok line, s') →
      src.readExact s' size limits.maxLiteral = (.error e, s'') → P s ⟨p, .error e, s''⟩)
    (again : ∀ s line s' size data s'' w, src.readLine s limits.maxLine = (.ok line, s') →
      src.readExact s' size limits.maxLiteral = (.ok data, s'') → P s'' w → P s w) (s : σ) :
    P s (readFrom src limits left r s) := by
  induction left using Nat.strongRecOn generalizing r s with
  | ind left ih =>
    unfold readFrom
    cases line : src.readLine s limits.maxLine with
    | mk result s' =>
      cases result with
      | error e => exact noLine s e s' _ line
      | ok line? =>
        cases line? with
        | none =>
          refine stops s none s' _ _ line ?_
          split_ifs
          · exact quiet_ok _
          · exact quiet_error (by decide)
        | some text =>
          simp only
          split_ifs
          · exact stops s _ s' _ _ line (quiet_error (by decide))
          cases marker : splitLiteralMarker text limits.maxLiteral with
          | error e =>
            exact stops s _ s' _ _ line (quiet_error (quiet_splitLiteralMarker _ _ e marker))
          | ok parts =>
            obtain ⟨content, _ | ⟨size, sync⟩⟩ := parts
            · exact stops s _ s' _ _ line (quiet_commandOf _ _)
            cases left with
            | zero => exact stops s _ s' _ _ line (quiet_error (by decide))
            | succ left =>
              by_cases much : satAdd u64Max r.literalTotal size > limits.maxLiteral
              · simp only [if_pos much]
                exact stops s _ s' _ _ line (quiet_error (by decide))
              simp only [if_neg much]
              cases data : src.readExact s' size limits.maxLiteral with
              | mk result s'' =>
                cases result with
                | error e => exact noLiteral s _ s' size e s'' _ line data
                | ok bytes => exact again s _ s' size bytes s'' _ line data (ih left (by omega) _)

/-- A call is told of a line that is too long exactly if there is one. -/
theorem readFrom_told (fine : s.overLong = false) :
    (readFrom whole limits left r s).source.overLong = true ↔
      (readFrom whole limits left r s).result = .error (LineIo.tooLong limits.maxLine) := by
  have quietly : ∀ {result : Except MailError (Option Command)} {s : Whole}, Quiet result →
      s.overLong = false →
      (s.overLong = true ↔ result = .error (LineIo.tooLong limits.maxLine)) := by
    intro result s quiet fine
    rw [fine]
    exact ⟨(fun long => by cases long), fun told => absurd told (quiet.ne_tooLong _)⟩
  have read : ∀ {s s' : Whole} {line : Option (List UInt8)},
      s.readLine limits.maxLine = (.ok line, s') → s.overLong = false → s'.overLong = false := by
    intro s s' line read fine
    obtain ⟨-, ⟨kept, -⟩ | ⟨-, told⟩⟩ := readLine_flags s limits.maxLine
    · rw [read] at kept
      exact kept.trans fine
    · rw [read] at told
      cases told
  refine readFrom_rule
    (P := fun s w => s.overLong = false → (w.source.overLong = true ↔
      w.result = .error (LineIo.tooLong limits.maxLine))) ?_ ?_ ?_ ?_ s fine
  · intro s e s' p line fine
    obtain ⟨-, ⟨-, none⟩ | ⟨long, told⟩⟩ := readLine_flags s limits.maxLine
    · exact absurd (congrArg Prod.fst line) (none e)
    · have line : s.readLine limits.maxLine = (.error e, s') := line
      rw [line] at long told
      exact ⟨fun _ => congrArg _ (Except.error.inj told), fun _ => long⟩
  · intro s line s' p result line quiet fine
    exact quietly quiet (read line fine)
  · intro s line s' size e s'' p line data fine
    obtain ⟨-, kept, quiet⟩ := readExact_flags s' size limits.maxLiteral
    have data : s'.readExact size limits.maxLiteral = (.error e, s'') := data
    rw [data] at kept quiet
    exact quietly (quiet_error (quiet e rfl)) (kept.trans (read line fine))
  · intro s line s' size bytes s'' w line data later fine
    obtain ⟨-, kept, -⟩ := readExact_flags s' size limits.maxLiteral
    have data : s'.readExact size limits.maxLiteral = (.ok bytes, s'') := data
    rw [data] at kept
    exact later (kept.trans (read line fine))

/-- A first line on the edge stays noted. -/
theorem readFrom_onEdge (on : (s.readLine limits.maxLine).2.onEdge = true) :
    (readFrom whole limits left r s).source.onEdge = true := by
  have literal : ∀ {s s' : Whole} {size : Nat} {result : Except MailError (List UInt8)},
      s.readExact size limits.maxLiteral = (result, s') → s.onEdge = true → s'.onEdge = true := by
    intro s s' size result data on
    have kept := (readExact_flags s size limits.maxLiteral).1
    rw [data] at kept
    exact kept.trans on
  refine readFrom_rule
    (P := fun s w => (s.readLine limits.maxLine).2.onEdge = true → w.source.onEdge = true)
    ?_ ?_ ?_ ?_ s on
  · intro s e s' p line on
    rwa [show s.readLine limits.maxLine = (.error e, s') from line] at on
  · intro s line s' p result read quiet on
    rwa [show s.readLine limits.maxLine = (.ok line, s') from read] at on
  · intro s line s' size e s'' p read data on
    rw [show s.readLine limits.maxLine = (.ok line, s') from read] at on
    exact literal data on
  · intro s line s' size bytes s'' w read data later on
    rw [show s.readLine limits.maxLine = (.ok line, s') from read] at on
    exact later ((readLine_flags s'' limits.maxLine).1 (literal data on))

/-- A call on reads gives what it gives on the whole stream, unless one of the lines is on the edge
and the line feed of that line comes in late. -/
def ReadsAs (limits : ParserLimits) (io : LineIo) (s : Whole) (call : ReadResult LineIo)
    (all : ReadResult Whole) : Prop :=
  AsWhole io s (call.result, call.source) (all.result, all.source) ∨
    ¬Joined io.buffer io.reads ∧ all.source.onEdge = true ∧
      call.result = .error (LineIo.tooLong limits.maxLine)

theorem ReadsAs.trans {io io' : LineIo} {s s' : Whole} {left : List UInt8}
    {call : ReadResult LineIo} {all : ReadResult Whole} (follows : Net.Follows io io' left)
    (edge : io.Bytewise → s'.onEdge = s.onEdge) (reads : ReadsAs limits io' s' call all) :
    ReadsAs limits io s call all := by
  rcases reads with ⟨same, later, ends⟩ | ⟨apart, late⟩
  · refine .inl ⟨same, fun single => (later (follows.bytewise single)).trans (edge single), ?_⟩
    intro a ok
    have after := ends a ok
    exact
      { pending := after.pending
        joined := fun joined => after.joined (follows.joined joined)
        bytewise := fun single => after.bytewise (follows.bytewise single) }
  · exact .inr ⟨fun joined => apart (follows.joined joined), late⟩

theorem readFrom_reads (here : io.pending = s.left) :
    ReadsAs limits io s (readFrom lineIo limits left r io) (readFrom whole limits left r s) := by
  induction left using Nat.strongRecOn generalizing r s io with
  | ind left ih =>
    rcases readLine_agrees here limits.maxLine with agrees | ⟨apart, on, refused⟩
    · cases wl : s.readLine limits.maxLine with
      | mk result s' =>
        cases cl : io.readLine limits.maxLine with
        | mk result' io' =>
          rw [wl, cl] at agrees
          obtain ⟨same, edge, follows⟩ := agrees
          obtain rfl : result' = result := same
          unfold readFrom
          simp only [whole, lineIo, wl, cl]
          have stop : ∀ answer : Except MailError (Option Command),
              (∀ c, answer = .ok c → ∃ line, result' = .ok line) →
              AsWhole io s (answer, io') (answer, s') := by
            intro answer ended
            refine ⟨rfl, edge, fun c ok => ?_⟩
            obtain ⟨line, read⟩ := ended c ok
            exact follows line read
          cases result' with
          | error e => exact .inl (stop _ fun c ok => by cases ok)
          | ok line? =>
            cases line? with
            | none => exact .inl (stop _ fun _ _ => ⟨_, rfl⟩)
            | some text =>
              simp only
              split_ifs
              · exact .inl (stop _ fun _ _ => ⟨_, rfl⟩)
              cases marker : splitLiteralMarker text limits.maxLiteral with
              | error e => exact .inl (stop _ fun _ _ => ⟨_, rfl⟩)
              | ok parts =>
                obtain ⟨content, _ | ⟨size, sync⟩⟩ := parts
                · exact .inl (stop _ fun _ _ => ⟨_, rfl⟩)
                cases left with
                | zero => exact .inl (stop _ fun _ _ => ⟨_, rfl⟩)
                | succ left =>
                  by_cases much : satAdd u64Max r.literalTotal size > limits.maxLiteral
                  · simp only [if_pos much]
                    exact .inl (stop _ fun _ _ => ⟨_, rfl⟩)
                  simp only [if_neg much]
                  have after := follows _ rfl
                  have agrees := readExact_agrees after.pending size limits.maxLiteral
                  cases wd : s'.readExact size limits.maxLiteral with
                  | mk result s'' =>
                    cases cd : io'.readExact size limits.maxLiteral with
                    | mk result' io'' =>
                      rw [wd, cd] at agrees
                      obtain ⟨same, later, follows'⟩ := agrees
                      obtain rfl : result' = result := same
                      refine ReadsAs.trans after edge ?_
                      cases result' with
                      | error e => exact .inl ⟨rfl, later, fun c ok => by cases ok⟩
                      | ok data =>
                        have left' := follows' data rfl
                        exact ReadsAs.trans left' later (ih left (by omega) left'.pending)
    · refine .inr ⟨apart, readFrom_onEdge on, ?_⟩
      unfold readFrom
      cases cl : io.readLine limits.maxLine with
      | mk result io' =>
        rw [cl] at refused
        cases refused
        simp only [lineIo, cl]

theorem readCommandFrom_reads {bytes : List UInt8} (here : io.pending = bytes) :
    ReadsAs limits io (.start bytes) (readCommandFrom lineIo limits io)
      (readCommandFrom whole limits (.start bytes)) :=
  readFrom_reads here

end Agreement

section Streams

variable {limits : ParserLimits} {io io' : LineIo} {bytes : List UInt8}

/-- The calls on the whole stream. -/
def commands (limits : ParserLimits) : Nat → List UInt8 → List (Except MailError (Option Command))
  | 0, _ => []
  | n + 1, bytes =>
    let first := readCommandFrom whole limits (.start bytes)
    first.result ::
      match first.result with
      | .error _ => []
      | .ok _ => commands limits n first.source.left

/-- Where every line on the edge is followed by one that is too long, in the same command, it does
not matter how the stream comes in. -/
theorem readCommands_eq {n : Nat} (here : io.pending = bytes)
    (edgeless : ∀ w ∈ readings limits n bytes, w.onEdge = true → w.overLong = true) :
    readCommands lineIo limits n io = commands limits n bytes := by
  induction n generalizing io bytes with
  | zero => rfl
  | succ n ih =>
    unfold readCommands commands
    unfold readings at edgeless
    have first := edgeless _ List.mem_cons_self
    have later := fun w mem => edgeless w (List.mem_cons_of_mem _ mem)
    have told := @readFrom_told limits maxLiterals .start (.start bytes) rfl
    rcases readCommandFrom_reads here with ⟨same, -, follows⟩ | ⟨-, on, refused⟩
    · have same : (readCommandFrom lineIo limits io).result =
        (readCommandFrom whole limits (.start bytes)).result := same
      simp only [same]
      cases read : (readCommandFrom whole limits (.start bytes)).result with
      | error e => rfl
      | ok c =>
        rw [read] at later follows
        rw [ih (follows c rfl).pending later]
    · have answer : (readCommandFrom whole limits (.start bytes)).result =
        .error (LineIo.tooLong limits.maxLine) := told.mp (first on)
      simp only [refused, answer]

/-- If single bytes and joined line ends give the same, every line on the edge is followed by one
that is too long. -/
theorem edgeless_of_eq {n : Nat} (here : io.pending = bytes) (here' : io'.pending = bytes)
    (joined : Joined io.buffer io.reads) (single : io'.Bytewise)
    (same : readCommands lineIo limits n io = readCommands lineIo limits n io') :
    ∀ w ∈ readings limits n bytes, w.onEdge = true → w.overLong = true := by
  induction n generalizing io io' bytes with
  | zero => exact List.forall_mem_nil _
  | succ n ih =>
    have told := @readFrom_told limits maxLiterals .start (.start bytes) rfl
    obtain ⟨one, -, follows⟩ :=
      (readCommandFrom_reads here).resolve_right fun late => late.1 joined
    unfold readCommands at same
    obtain ⟨heads, tails⟩ := List.cons.inj same
    have one : (readCommandFrom lineIo limits io).result =
      (readCommandFrom whole limits (.start bytes)).result := one
    unfold readings
    intro w mem on
    rcases readCommandFrom_reads here' with ⟨two, none, follows'⟩ | ⟨-, -, refused⟩
    · have two : (readCommandFrom lineIo limits io').result =
        (readCommandFrom whole limits (.start bytes)).result := two
      rcases List.mem_cons.mp mem with rfl | mem
      · cases (show true = false from on.symm.trans (none single))
      · rw [one, two] at tails
        cases read : (readCommandFrom whole limits (.start bytes)).result with
        | error e =>
          rw [read] at mem
          exact absurd mem List.not_mem_nil
        | ok c =>
          rw [read] at mem tails follows follows'
          have after := follows c rfl
          have after' := follows' c rfl
          exact ih after.pending after'.pending (after.joined joined) (after'.bytewise single) tails w
            mem on
    · rw [one, refused] at heads
      rcases List.mem_cons.mp mem with rfl | mem
      · exact told.mpr heads
      · rw [heads] at mem
        exact absurd mem List.not_mem_nil

/-- A literal has just the announced bytes. And two ways in which a stream can come in never give
different commands, errors or ends if and only if a line of just the most bytes, before a carriage
return and a line feed, is only reached where a later line of the same command is too long. -/
theorem commands_independent_iff (limits : ParserLimits) (bytes : List UInt8) :
    (∀ (io io' : LineIo) (size : Nat) (data : List UInt8),
      io.readExact size limits.maxLiteral = (.ok data, io') →
        data.length = size ∧ io.pending = data ++ io'.pending) ∧
    ((∀ io io' : LineIo, io.pending = bytes → io'.pending = bytes → ∀ n,
        readCommands lineIo limits n io = readCommands lineIo limits n io') ↔
      ∀ n, ∀ w ∈ readings limits n bytes, w.onEdge = true → w.overLong = true) := by
  refine ⟨fun io io' size data read => readExact_exact read, fun same n => ?_, ?_⟩
  · have joined : (LineIo.mk [] (joinedReads bytes)).pending = bytes := joinedReads_flatten bytes
    exact edgeless_of_eq joined (LineIo.pending_bytewise bytes) (joined_joinedReads bytes)
      (LineIo.bytewise_bytewise bytes) (same _ _ joined (LineIo.pending_bytewise bytes) n)
  · intro edgeless io io' here here' n
    rw [readCommands_eq here (edgeless n), readCommands_eq here' (edgeless n)]

end Streams

/-- A line of the most bytes that announces no literal is on the edge. -/
theorem readCommandFrom_edge {limits : ParserLimits} {line : List UInt8} (noLf : lf ∉ line)
    (length : line.length = limits.maxLine) (room : limits.maxLine ≤ limits.maxCommand)
    (last : line.getLast? ≠ some '\x7d'.toUInt8) :
    let all := readCommandFrom whole limits (.start (line ++ [cr, lf]))
    all.source.onEdge = true ∧ all.source.overLong = false := by
  have parts : line ++ [cr, lf] = (line ++ [cr]) ++ lf :: [] := by simp
  have noLf' : lf ∉ line ++ [cr] := by
    intro mem
    rcases List.mem_append.mp mem with mem | mem
    · exact noLf mem
    · exact absurd (List.mem_singleton.mp mem) (by decide)
  have read : (Whole.start (line ++ [cr, lf])).readLine limits.maxLine =
      (.ok (some line), { left := [], onEdge := true, overLong := false }) := by
    unfold Whole.readLine Whole.start
    rw [parts, afterLine_append noLf', rawLine_append noLf', LineIo.dropCr_append]
    simp [length]
  have total : ¬satAdd u64Max 0 line.length > limits.maxCommand := by
    have := satAdd_le u64Max 0 line.length
    omega
  unfold readCommandFrom readFrom
  simp only [whole, read, Reading.start, if_neg total, splitLiteralMarker, if_pos last]
  trivial

theorem edge_depends {limits : ParserLimits} {line : List UInt8} (noLf : lf ∉ line)
    (length : line.length = limits.maxLine) (room : limits.maxLine ≤ limits.maxCommand)
    (last : line.getLast? ≠ some '\x7d'.toUInt8) :
    ¬∀ io io' : LineIo, io.pending = line ++ [cr, lf] → io'.pending = line ++ [cr, lf] →
      ∀ n, readCommands lineIo limits n io = readCommands lineIo limits n io' := by
  intro same
  have joined : (LineIo.mk [] (joinedReads (line ++ [cr, lf]))).pending = line ++ [cr, lf] :=
    joinedReads_flatten _
  have single := LineIo.pending_bytewise (line ++ [cr, lf])
  have edgeless := edgeless_of_eq joined single (joined_joinedReads _) (LineIo.bytewise_bytewise _)
    (same _ _ joined single 1)
  obtain ⟨on, fine⟩ := readCommandFrom_edge noLf length room last
  have long := edgeless _ List.mem_cons_self on
  rw [fine] at long
  cases long

def paddedNoop : List UInt8 := bytes "A1 NOOP" ++ List.replicate 8185 32

theorem padded_noop_depends_on_segmentation :
    ¬∀ io io' : LineIo, io.pending = paddedNoop ++ [cr, lf] → io'.pending = paddedNoop ++ [cr, lf] →
      ∀ n, readCommands lineIo .default n io = readCommands lineIo .default n io' := by
  have noLf : lf ∉ paddedNoop := by
    intro mem
    rcases List.mem_append.mp mem with mem | mem
    · exact absurd mem (by decide)
    · exact absurd (List.eq_of_mem_replicate mem) (by decide)
  have length : paddedNoop.length = 8192 := by
    rw [paddedNoop, List.length_append, List.length_replicate]
    rfl
  have last : paddedNoop.getLast? ≠ some '\x7d'.toUInt8 := by
    rw [paddedNoop, List.getLast?_append, List.getLast?_replicate, if_neg (by decide)]
    decide
  exact edge_depends noLf length (by decide) last

end MailStack.Imap.Parser
