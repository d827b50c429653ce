import MailStack.Smtpd.Connection

/-! What a connection makes of a stream, whatever pieces it arrives in. The rule on over-long lines
looks at what happens to be in the buffer: a line that is longer than the rule allows is served if
it arrives at once. -/

namespace MailStack.Smtpd

open Lib

/-! ### Message data byte by byte -/

namespace Connection

variable (env : Environment) (c : Connection) {sink next : DataSink} {event : DataEvent}
  {byte : UInt8}

theorem advanceData_single (told : Bool) (step : sink.feedByte byte = (next, .needMore)) :
    ({ c with buffer := [byte] } : Connection).advanceData env sink told =
      { c with buffer := [], stage := .data next told } := by
  simp [advanceData, DataSink.feed, step]

theorem advanceData_more (told : Bool) (step : sink.feedByte byte = (next, .needMore))
    {rest : List UInt8} (some : rest ≠ []) :
    ({ c with buffer := byte :: rest } : Connection).advanceData env sink told =
      ({ c with buffer := rest, stage := .data next told } : Connection).advanceData env next
        told := by
  simp only [advanceData, reduceCtorEq, if_false, some, DataSink.feed, step]
  rfl

theorem advanceData_event (told : Bool) (step : sink.feedByte byte = (next, event))
    (other : event ≠ .needMore) (rest : List UInt8) :
    ({ c with buffer := byte :: rest } : Connection).advanceData env sink told =
      { ({ c with buffer := [byte] } : Connection).advanceData env sink told with
        buffer := rest } := by
  cases event with
  | needMore => exact absurd rfl other
  | complete data =>
    cases data with
    | none => simp [advanceData, DataSink.feed, step]
    | some data =>
      simp only [advanceData, reduceCtorEq, if_false, DataSink.feed, step, List.drop_one,
        List.tail_cons]
      rw [← received_buffer]
  | tooLarge => cases told <;> simp [advanceData, DataSink.feed, step, send]
  | bareLineFeed => simp [advanceData, DataSink.feed, step, send, finish]

end Connection

/-! ### The course of a stream -/

/-- A connection with all the bytes that are still to come. `lead` is how many of them can have been
read already because they came with the end of message data. -/
structure Course where
  connection : Connection
  pending : List UInt8
  lead : Nat

namespace Course

/-- What the stream comes to next if it arrives byte by byte: a line, or a byte of message data. -/
def next (env : Environment) (t : Course) : Course :=
  match t.connection.stage with
  | .finished _ => t
  | .commands =>
    match nextLine (t.pending.take (maxCommandBuffer + 1))
        t.connection.session.config.bareNewlinePolicy with
    | .line line consumed =>
      { connection := t.connection.handleLine env line
        pending := t.pending.drop consumed
        lead := t.lead - consumed }
    | .needMore => { t with connection := t.connection.finish .closed }
    | .bareLineFeed =>
      { t with connection :=
          (t.connection.send (.withEnhanced 500 "5.5.2" Texts.bareLineFeed)).finish .closed }
    | .tooLong =>
      { t with connection :=
          (t.connection.send (.withEnhanced 500 "5.5.6" Texts.lineTooLong)).finish .closed }
  | .data sink toldTooLarge =>
    match t.pending with
    | [] => { t with connection := t.connection.finish .closed }
    | byte :: rest =>
      let connection :=
        ({ t.connection with buffer := [byte] } : Connection).advanceData env sink toldTooLarge
      { connection
        pending := rest
        lead := if connection.stage = .commands then dataReadSize - 1 else t.lead }

/-- A line comes next that is longer than the rule allows and can be in the buffer whole all the
same: two reads can bring that much of it, or the read that ended message data. -/
def Splits (t : Course) : Prop :=
  t.connection.stage = .commands ∧ ∃ i, LineFeedAt t.pending i ∧ maxCommandBuffer < i ∧
    i < max (maxCommandBuffer + commandReadSize) t.lead

def start (config : SessionConfig) (relay : Smtp.RelayPolicy) (stream : List UInt8) : Course :=
  { connection := Connection.new config relay, pending := stream, lead := 0 }

variable (env : Environment)

def Finished (t : Course) : Prop := ∃ outcome, t.connection.stage = .finished outcome

theorem next_of_finished {t : Course} (h : t.Finished) : t.next env = t := by
  obtain ⟨outcome, stage⟩ := h
  rw [next, stage]

theorem finished_unique {t : Course} {m n : Nat} (h : ((next env)^[m] t).Finished)
    (h' : ((next env)^[n] t).Finished) : (next env)^[m] t = (next env)^[n] t := by
  have later : ∀ {a b : Nat}, a ≤ b → ((next env)^[a] t).Finished →
      (next env)^[b] t = (next env)^[a] t := by
    intro a b le finished
    obtain ⟨d, rfl⟩ := Nat.exists_eq_add_of_le le
    rw [Nat.add_comm, Function.iterate_add_apply]
    exact Function.iterate_fixed (next_of_finished env finished) d
  rcases Nat.le_total m n with le | le
  · exact (later le h).symm
  · exact later le h'

theorem next_data (c : Connection) (lead : Nat) {buffer : List UInt8} (some : buffer ≠ [])
    (rest : List UInt8) {sink : DataSink} {told : Bool} (stage : c.stage = .data sink told) :
    ∃ n, (next env)^[n] { connection := { c with buffer := [] }, pending := buffer ++ rest, lead } =
      { connection :=
          { ({ c with buffer } : Connection).advanceData env sink told with buffer := [] }
        pending := (({ c with buffer } : Connection).advanceData env sink told).buffer ++ rest
        lead :=
          if (({ c with buffer } : Connection).advanceData env sink told).stage = .commands then
            dataReadSize - 1
          else lead } := by
  induction buffer generalizing c sink with
  | nil => exact absurd rfl some
  | cons byte more ih =>
    have one : ∀ c : Connection, c.stage = .data sink told →
        next env { connection := { c with buffer := [] }, pending := byte :: more ++ rest, lead } =
          { connection :=
              ({ c with buffer := [byte] } : Connection).advanceData env sink told
            pending := more ++ rest
            lead :=
              if (({ c with buffer := [byte] } : Connection).advanceData env sink told).stage =
                .commands then dataReadSize - 1 else lead } := by
      intro c stage
      simp only [next, stage, List.cons_append]
    obtain ⟨sink', event, step⟩ : ∃ sink' event, sink.feedByte byte = (sink', event) := ⟨_, _, rfl⟩
    by_cases goesOn : event = .needMore
    · subst goesOn
      by_cases last : more = []
      · subst last
        refine ⟨1, ?_⟩
        rw [Function.iterate_one, one c stage, Connection.advanceData_single env c told step]
      · obtain ⟨n, run⟩ := ih { c with stage := .data sink' told } last rfl
        refine ⟨n + 1, ?_⟩
        rw [Function.iterate_succ_apply, one c stage, Connection.advanceData_single env c told step]
        simp only [reduceCtorEq, if_false]
        rw [Connection.advanceData_more env c told step last]
        exact run
    · have empty : (({ c with buffer := [byte] } : Connection).advanceData env sink told).buffer =
          [] := by
        rw [Connection.advanceData_buffer]
        have taken := Serving.feed_taken sink (List.cons_ne_nil byte [])
        exact List.drop_eq_nil_of_le taken
      refine ⟨1, ?_⟩
      rw [Function.iterate_one, one c stage,
        Connection.advanceData_event env c told step goesOn more]
      generalize ({ c with buffer := [byte] } : Connection).advanceData env sink told =
        after at empty
      obtain ⟨_, _, _, _, _, _, _⟩ := after
      simp only at empty ⊢
      rw [empty]

end Course

/-! ### Every loop follows the course -/

/-- The loop is where the course is. What it has read is bounded by what the last reads can
bring. -/
structure Follows (s : Serving) (t : Course) : Prop where
  connection : t.connection = { s.connection with buffer := [] }
  pending : t.pending = s.unread
  lead : t.lead < dataReadSize
  buffered : s.connection.buffer.length ≤ dataReadSize
  commands : s.connection.stage = .commands →
    s.connection.buffer.length ≤ max (maxCommandBuffer + commandReadSize) t.lead

section Follows

variable (env : Environment) {s : Serving} {t : Course}

theorem Follows.stage (h : Follows s t) : t.connection.stage = s.connection.stage := by
  rw [h.connection]

theorem Follows.policy (h : Follows s t) :
    t.connection.session.config.bareNewlinePolicy =
      s.connection.session.config.bareNewlinePolicy := by
  rw [h.connection]

theorem Follows.close (h : Follows s t) (f : Connection → Connection)
    (frame : ∀ c : Connection, { f c with buffer := [] } = f { c with buffer := [] })
    (keeps : (f s.connection).buffer = s.connection.buffer)
    (closed : ∃ outcome, (f s.connection).stage = .finished outcome) :
    Follows { s with connection := f s.connection } { t with connection := f t.connection } := by
  obtain ⟨outcome, stage⟩ := closed
  refine ⟨?_, ?_, h.lead, ?_, fun commands => ?_⟩
  · rw [h.connection, ← frame]
  · rw [h.pending]
    simp only [Serving.unread, keeps]
  · simp only [keeps]
    exact h.buffered
  · rw [stage] at commands
    cases commands

theorem Follows.read (h : Follows s t) {size : Nat} (some : s.rest ≠ []) (pos : 1 ≤ size)
    (fits : s.connection.buffer.length + size ≤ dataReadSize)
    (short : s.connection.stage = .commands →
      s.connection.buffer.length + size ≤ maxCommandBuffer + commandReadSize) :
    Follows (s.read size) t := by
  have taken : max 1 (min (s.arrivals.headD size) size) ≤ size := by omega
  have buffered : (s.connection.buffer ++
      s.rest.take (max 1 (min (s.arrivals.headD size) size))).length ≤
      s.connection.buffer.length + size := by
    rw [List.length_append, List.length_take]
    omega
  rw [Serving.read, if_neg some]
  refine ⟨h.connection, ?_, h.lead, by simp only; omega, fun commands => ?_⟩
  · rw [h.pending]
    simp [Serving.unread]
  · have := short commands
    simp only
    omega

theorem nextLine_unread {i : Nat} (found : LineFeedAt s.connection.buffer i) {n : Nat}
    (short : i < n) (policy : BareNewlinePolicy) :
    nextLine (s.unread.take n) policy = nextLine s.connection.buffer policy := by
  obtain ⟨inside, -⟩ := List.getElem?_eq_some_iff.mp found.1
  have whole : LineFeedAt s.unread i := found.append
  have buffer : s.unread.take s.connection.buffer.length = s.connection.buffer := by
    rw [Serving.unread, List.take_left]
  rw [whole.nextLine_take short, ← buffer, whole.nextLine_take inside]

theorem Follows.line (h : Follows s t) (stage : s.connection.stage = .commands)
    (same : nextLine (t.pending.take (maxCommandBuffer + 1))
        t.connection.session.config.bareNewlinePolicy =
      nextLine s.connection.buffer s.connection.session.config.bareNewlinePolicy)
    (more : nextLine s.connection.buffer s.connection.session.config.bareNewlinePolicy ≠
      .needMore) : Follows (s.round env) (t.next env) := by
  rw [Serving.round, stage, Course.next, h.stage, stage]
  simp only
  rw [same]
  rcases Serving.advanceCommands_cases env s.connection with
    ⟨next, -⟩ | ⟨line, k, next, run⟩ | ⟨reply, run, ⟨next, rfl⟩ | ⟨next, rfl⟩⟩
  · exact absurd next more
  · obtain ⟨i, ⟨found, -⟩, rfl⟩ := Serving.nextLine_line next
    obtain ⟨inside, -⟩ := List.getElem?_eq_some_iff.mp found
    have buffered := h.buffered
    have commands := h.commands stage
    have lead := h.lead
    simp only [next, run]
    refine ⟨?_, ?_, by simp only; omega, by simp only [List.length_drop]; omega, fun _ => ?_⟩
    · simp only
      rw [h.connection, Connection.handleLine_buffer]
    · simp only [h.pending, Serving.unread]
      rw [List.drop_append_of_le_length (by omega)]
    · simp only [List.length_drop]
      omega
  all_goals
    simp only [next, run]
    exact h.close (fun c => (c.send _).finish .closed) (fun _ => rfl) rfl ⟨.closed, rfl⟩

theorem Follows.round (h : Follows s t) (whole : ¬t.Splits) :
    ∃ n, Follows (s.round env) ((Course.next env)^[n] t) := by
  cases stage : s.connection.stage with
  | finished outcome =>
    refine ⟨0, ?_⟩
    rw [Serving.round_of_finished env ⟨outcome, stage⟩]
    exact h
  | commands =>
    by_cases mem : DataSink.lf ∈ s.connection.buffer
    · -- the line that is in the buffer is within the rule
      obtain ⟨i, found⟩ := lineFeedAt_of_mem mem
      obtain ⟨inside, -⟩ := List.getElem?_eq_some_iff.mp found.1
      have short : i < maxCommandBuffer + 1 := by
        by_contra long
        refine whole ⟨h.stage.trans stage, i, ?_, by omega, ?_⟩
        · rw [h.pending]
          exact found.append
        · exact lt_of_lt_of_le inside (h.commands stage)
      have same := nextLine_unread (s := s) found short
        s.connection.session.config.bareNewlinePolicy
      rw [← h.pending, ← h.policy] at same
      refine ⟨1, h.line env stage (by rw [same, h.policy]) fun more => ?_⟩
      rcases found.nextLine_cases s.connection.session.config.bareNewlinePolicy with
        next | ⟨line, next⟩ <;>
        · rw [more] at next
          cases next
    · have next := nextLine_of_none s.connection.session.config.bareNewlinePolicy mem
      by_cases long : s.connection.buffer.length > maxCommandBuffer
      · -- the buffer is full
        rw [if_pos long] at next
        have window : t.pending.take (maxCommandBuffer + 1) =
            s.connection.buffer.take (maxCommandBuffer + 1) := by
          rw [h.pending, Serving.unread, List.take_append_of_le_length (by omega)]
        have tight : nextLine (t.pending.take (maxCommandBuffer + 1))
            t.connection.session.config.bareNewlinePolicy = .tooLong := by
          rw [window, nextLine_of_none _ fun mem' => mem (List.mem_of_mem_take mem'), if_pos]
          rw [List.length_take]
          omega
        exact ⟨1, h.line env stage (tight.trans next.symm) (by rw [next]; nofun)⟩
      · rw [if_neg long] at next
        have run : s.round env = s.read commandReadSize := by
          rw [Serving.round, stage]
          simp only [next]
        by_cases ended : s.rest = []
        · have all : t.pending = s.connection.buffer := by
            rw [h.pending, Serving.unread, ended, List.append_nil]
          refine ⟨1, ?_⟩
          rw [run, Serving.read, if_pos ended, Function.iterate_one, Course.next, h.stage, stage]
          simp only
          rw [all, List.take_of_length_le (by omega), h.policy, next]
          have closed := h.close (fun c => c.finish .closed) (fun _ => rfl) rfl ⟨.closed, rfl⟩
          rwa [all] at closed
        · refine ⟨0, ?_⟩
          rw [run]
          simp only [maxCommandBuffer] at long
          exact h.read ended (by decide) (by simp only [commandReadSize, dataReadSize]; omega)
            (fun _ => by simp only [commandReadSize, maxCommandBuffer]; omega)
  | data sink told =>
    by_cases empty : s.connection.buffer = []
    · have run : s.round env = s.read dataReadSize := by
        rw [Serving.round, stage]
        simp only [empty, if_true]
      by_cases ended : s.rest = []
      · have none : t.pending = [] := by
          rw [h.pending, Serving.unread, ended, empty, List.append_nil]
        refine ⟨1, ?_⟩
        rw [run, Serving.read, if_pos ended, Function.iterate_one, Course.next, h.stage, stage]
        simp only
        rw [none]
        have closed := h.close (fun c => c.finish .closed) (fun _ => rfl) rfl ⟨.closed, rfl⟩
        rwa [none] at closed
      · refine ⟨0, ?_⟩
        rw [run]
        exact h.read ended (by decide) (by simp [empty])
          (fun commands => by rw [stage] at commands; cases commands)
    · have run : s.round env = { s with connection := s.connection.advanceData env sink told } := by
        rw [Serving.round, stage]
        simp only [empty, if_false]
      obtain ⟨n, course⟩ := Course.next_data env s.connection t.lead empty s.rest stage
      refine ⟨n, ?_⟩
      have here : t = { connection := { s.connection with buffer := [] }
                        pending := s.connection.buffer ++ s.rest
                        lead := t.lead } := by
        rw [← h.connection, ← show t.pending = s.connection.buffer ++ s.rest from h.pending]
      have taken := Serving.feed_taken sink empty
      have shorter := Connection.advanceData_buffer env s.connection sink told
      have buffered := h.buffered
      rw [here, course, run]
      refine ⟨rfl, rfl, ?_, ?_, fun commands => ?_⟩
      · have := h.lead
        simp only
        split <;> simp only [dataReadSize] at * <;> omega
      · simp only [shorter, List.length_drop]
        omega
      · simp only at commands
        simp only [shorter, List.length_drop, commands, if_true]
        omega

theorem Follows.start (config : SessionConfig) (relay : Smtp.RelayPolicy) (stream : List UInt8)
    (arrivals : List Nat) :
    Follows (Serving.start config relay stream arrivals) (Course.start config relay stream) :=
  ⟨rfl, rfl, show 0 < dataReadSize by decide, Nat.zero_le _, fun _ => Nat.zero_le _⟩

theorem Follows.iterate (h : Follows s t) (whole : ∀ n, ¬((Course.next env)^[n] t).Splits)
    (m : Nat) : ∃ n, Follows ((Serving.round env)^[m] s) ((Course.next env)^[n] t) := by
  induction m with
  | zero => exact ⟨0, h⟩
  | succ m ih =>
    obtain ⟨n, follows⟩ := ih
    obtain ⟨k, further⟩ := follows.round env (whole n)
    refine ⟨k + n, ?_⟩
    rwa [Function.iterate_succ_apply', Function.iterate_add_apply]

end Follows

/-! ### What is seen of a connection -/

/-- The replies, the messages handed on, how the connection ended, and what it left unread. -/
def Serving.seen (s : Serving) : List Reply × List AcceptedMessage × Stage × List UInt8 :=
  (s.connection.sent, s.connection.accepted, s.connection.stage, s.unread)

/-- What is seen does not depend on the pieces a stream arrives in. -/
def Segmentable (env : Environment) (config : SessionConfig) (relay : Smtp.RelayPolicy)
    (stream : List UInt8) : Prop :=
  ∀ arrivals arrivals', ((Serving.start config relay stream arrivals).serve env).seen =
    ((Serving.start config relay stream arrivals').serve env).seen

theorem segmentable_of_whole {env : Environment} {config : SessionConfig}
    {relay : Smtp.RelayPolicy} {stream : List UInt8}
    (whole : ∀ n, ¬((Course.next env)^[n] (Course.start config relay stream)).Splits) :
    Segmentable env config relay stream := by
  intro arrivals arrivals'
  -- both loops end where the course ends
  have ending : ∀ arrivals, ∃ n,
      ((Course.next env)^[n] (Course.start config relay stream)).Finished ∧
      Follows ((Serving.start config relay stream arrivals).serve env)
        ((Course.next env)^[n] (Course.start config relay stream)) := by
    intro arrivals
    obtain ⟨n, follows⟩ := (Follows.start config relay stream arrivals).iterate env whole
      (Serving.start config relay stream arrivals).rounds
    obtain ⟨outcome, stage⟩ := (Serving.start config relay stream arrivals).serve_finished env
    exact ⟨n, ⟨outcome, follows.stage.trans stage⟩, follows⟩
  have seen : ∀ {s : Serving} {t : Course}, Follows s t →
      s.seen = (t.connection.sent, t.connection.accepted, t.connection.stage, t.pending) := by
    intro s t h
    rw [Serving.seen, h.connection, h.pending]
  obtain ⟨m, finished, follows⟩ := ending arrivals
  obtain ⟨n, finished', follows'⟩ := ending arrivals'
  rw [seen follows, seen follows', Course.finished_unique env finished finished']

/-! ### Pieces that tell a difference -/

section Pieces

variable (env : Environment)

def Leads (s s' : Serving) : Prop := ∃ m, (Serving.round env)^[m] s = s'

theorem Leads.trans {s s' s'' : Serving} (h : Leads env s s') (h' : Leads env s' s'') :
    Leads env s s'' := by
  obtain ⟨m, rfl⟩ := h
  obtain ⟨n, rfl⟩ := h'
  exact ⟨n + m, Function.iterate_add_apply _ _ _ _⟩

theorem Leads.one (s : Serving) : Leads env s (s.round env) := ⟨1, rfl⟩

theorem Leads.serve {s s' : Serving} (h : Leads env s s') : Leads env s' (s.serve env) := by
  obtain ⟨m, rfl⟩ := h
  refine ⟨s.rounds, ?_⟩
  rw [← Function.iterate_add_apply, Nat.add_comm, Function.iterate_add_apply]
  exact Function.iterate_fixed (Serving.round_of_finished env (s.serve_finished env)) m

theorem Leads.serve_eq {s s' : Serving} (h : Leads env s s') (finished : s'.Finished) :
    s.serve env = s' := by
  obtain ⟨n, run⟩ := h.serve
  rw [← run]
  exact Function.iterate_fixed (Serving.round_of_finished env finished) n

theorem round_unread (s : Serving) : (s.round env).unread.length ≤ s.unread.length := by
  have read : ∀ size, (s.read size).unread.length ≤ s.unread.length := by
    intro size
    simp only [Serving.read]
    split
    · exact le_refl _
    · simp [Serving.unread]
  unfold Serving.round
  split
  · exact le_refl _
  · split
    · exact read _
    · rename_i more
      rcases Serving.advanceCommands_cases env s.connection with
        ⟨next, -⟩ | ⟨line, k, -, run⟩ | ⟨reply, run, -⟩
      · exact absurd next more
      · simp only [Serving.unread, run, List.length_append, List.length_drop]
        omega
      · simp [Serving.unread, run, Connection.finish, Connection.send]
  · split
    · exact read _
    · simp only [Serving.unread, Connection.advanceData_buffer, List.length_append,
        List.length_drop]
      omega

theorem Leads.unread {s s' : Serving} (h : Leads env s s') :
    s'.unread.length ≤ s.unread.length := by
  obtain ⟨m, rfl⟩ := h
  induction m with
  | zero => exact le_refl _
  | succ m ih =>
    rw [Function.iterate_succ_apply']
    exact (round_unread env _).trans ih

/-- The first `m` of the bytes that are to come are in the buffer. -/
def Serving.at (c : Connection) (pending : List UInt8) (m : Nat) (arrivals : List Nat) : Serving :=
  { connection := { c with buffer := pending.take m }, rest := pending.drop m, arrivals }

theorem leads_read {c : Connection} (stage : c.stage = .commands) {pending : List UInt8} {m : Nat}
    (open' : DataSink.lf ∉ pending.take m) (short : m ≤ maxCommandBuffer)
    (more : m < pending.length)
    {n : Nat} (pos : 1 ≤ n) (fits : n ≤ commandReadSize) (arrivals : List Nat) :
    Leads env (Serving.at c pending m (n :: arrivals)) (Serving.at c pending (m + n) arrivals) := by
  have rest : pending.drop m ≠ [] := by
    rw [ne_eq, List.drop_eq_nil_iff]
    omega
  have clamp : max 1 (min n commandReadSize) = n := by omega
  have run : (Serving.at c pending m (n :: arrivals)).round env =
      Serving.at c pending (m + n) arrivals := by
    simp only [Serving.at, Serving.round, stage]
    rw [nextLine_of_none _ open', if_neg (by rw [List.length_take]; omega)]
    simp only [Serving.read, rest, if_false, List.headD_cons, clamp, List.tail_cons]
    rw [List.take_add, List.drop_drop]
  exact run ▸ Leads.one env _

theorem leads_bytes {c : Connection} (stage : c.stage = .commands) {pending : List UInt8} {n : Nat}
    (open' : DataSink.lf ∉ pending.take (n - 1)) (short : n ≤ maxCommandBuffer + 1)
    (more : n ≤ pending.length) (arrivals : List Nat) :
    Leads env (Serving.at c pending 0 (List.replicate n 1 ++ arrivals))
      (Serving.at c pending n arrivals) := by
  have each : ∀ m ≤ n, Leads env (Serving.at c pending 0 (List.replicate n 1 ++ arrivals))
      (Serving.at c pending m (List.replicate (n - m) 1 ++ arrivals)) := by
    intro m
    induction m with
    | zero => exact fun _ => ⟨0, rfl⟩
    | succ m ih =>
      intro le
      have one : n - m = (n - (m + 1)) + 1 := by omega
      refine (ih (by omega)).trans env ?_
      rw [one, List.replicate_succ, List.cons_append]
      refine leads_read env stage ?_ (by omega) (by omega) (le_refl 1) (by decide) _
      intro mem
      exact open' ((List.take_subset_take_left pending (by omega)) mem)
  have last := each n (le_refl n)
  rwa [Nat.sub_self, List.replicate_zero, List.nil_append] at last

theorem leads_line {c : Connection} (stage : c.stage = .commands) {pending line : List UInt8}
    {m i : Nat} (found : LineFeedAt pending i) (inside : i < m)
    (next : nextLine pending c.session.config.bareNewlinePolicy = .line line (i + 1))
    (arrivals : List Nat) :
    Leads env (Serving.at c pending m arrivals)
      (Serving.at (c.handleLine env line) (pending.drop (i + 1)) (m - (i + 1)) arrivals) := by
  have window := (found.nextLine_take inside c.session.config.bareNewlinePolicy).trans next
  have handled : ({ c with buffer := pending.take m } : Connection).advanceCommands env =
      { c.handleLine env line with buffer := (pending.take m).drop (i + 1) } := by
    simp only [Connection.advanceCommands, window]
    exact Connection.handleLine_buffer env c _ line
  have run : (Serving.at c pending m arrivals).round env =
      { Serving.at c pending m arrivals with
        connection := ({ c with buffer := pending.take m } : Connection).advanceCommands env } := by
    simp only [Serving.at, Serving.round, stage, window]
  have there : (Serving.at c pending m arrivals).round env =
      Serving.at (c.handleLine env line) (pending.drop (i + 1)) (m - (i + 1)) arrivals := by
    rw [run, handled, List.drop_take]
    simp only [Serving.at, List.drop_drop]
    rw [show i + 1 + (m - (i + 1)) = m by omega]
  exact there ▸ Leads.one env _

/-- The course is reached with nothing in the buffer, and at a command with all the bytes in it that
the end of message data can have brought. -/
structure Reached (start : List Nat → Serving) (t : Course) : Prop where
  bare : ¬t.Finished → ∃ before, ∀ arrivals,
    Leads env (start (before ++ arrivals)) (Serving.at t.connection t.pending 0 arrivals)
  ahead : t.connection.stage = .commands → ∃ before, ∀ arrivals,
    Leads env (start (before ++ arrivals)) (Serving.at t.connection t.pending t.lead arrivals)

theorem Reached.ended {start : List Nat → Serving} {t : Course} (h : t.Finished) :
    Reached env start t := by
  refine ⟨fun running => absurd h running, fun stage => ?_⟩
  obtain ⟨outcome, finished⟩ := h
  rw [stage] at finished
  cases finished

theorem Reached.line {start : List Nat → Serving} {t : Course} (h : Reached env start t)
    (stage : t.connection.stage = .commands) {line : List UInt8} {k : Nat}
    (window : nextLine (t.pending.take (maxCommandBuffer + 1))
      t.connection.session.config.bareNewlinePolicy = .line line k) :
    Reached env start (t.next env) := by
  obtain ⟨i, found, rfl⟩ := Serving.nextLine_line window
  obtain ⟨inside, -⟩ := List.getElem?_eq_some_iff.mp found.1
  rw [List.length_take] at inside
  have found : LineFeedAt t.pending i := (LineFeedAt.take_iff (by omega)).mp found
  have next : nextLine t.pending t.connection.session.config.bareNewlinePolicy =
      .line line (i + 1) := by
    rw [← window, found.nextLine_take (by omega)]
  have step : t.next env =
      { connection := t.connection.handleLine env line
        pending := t.pending.drop (i + 1)
        lead := t.lead - (i + 1) } := by
    rw [Course.next, stage]
    simp only [window]
  have bare : ∃ before, ∀ arrivals, Leads env (start (before ++ arrivals))
      (Serving.at (t.connection.handleLine env line) (t.pending.drop (i + 1)) 0 arrivals) := by
    obtain ⟨before, leads⟩ :=
      h.bare (by rintro ⟨_, finished⟩; rw [stage] at finished; cases finished)
    refine ⟨before ++ List.replicate (i + 1) 1, fun arrivals => ?_⟩
    rw [List.append_assoc]
    have bytes := leads_bytes env stage (n := i + 1) (by simpa using found.2) (by omega) (by omega)
      arrivals
    have line := leads_line env stage found (Nat.lt_succ_self i) next arrivals
    rw [Nat.sub_self] at line
    exact ((leads _).trans env bytes).trans env line
  rw [step]
  refine ⟨fun _ => bare, fun _ => ?_⟩
  by_cases visible : i < t.lead
  · obtain ⟨before, leads⟩ := h.ahead stage
    exact ⟨before, fun arrivals =>
      (leads arrivals).trans env (leads_line env stage found visible next arrivals)⟩
  · simpa only [show t.lead - (i + 1) = 0 by omega] using bare

variable {start : List Nat → Serving}

theorem Reached.byte {t : Course} (h : Reached env start t)
    {sink : DataSink} {told : Bool} (stage : t.connection.stage = .data sink told) {byte : UInt8}
    {rest : List UInt8} (pending : t.pending = byte :: rest) :
    Reached env start (t.next env) := by
  have step : t.next env =
      { connection :=
          ({ t.connection with buffer := [byte] } : Connection).advanceData env sink told
        pending := rest
        lead :=
          if (({ t.connection with buffer := [byte] } : Connection).advanceData env sink
            told).stage = .commands then dataReadSize - 1 else t.lead } := by
    rw [Course.next, stage]
    simp only [pending]
  obtain ⟨before, leads⟩ := h.bare (by rintro ⟨_, finished⟩; rw [stage] at finished; cases finished)
  -- the next read brings `n` bytes, and they are fed
  have read : ∀ n, 1 ≤ n → n ≤ dataReadSize → ∀ arrivals,
      Leads env (start ((before ++ [n]) ++ arrivals))
        { connection := ({ t.connection with buffer := byte :: rest.take (n - 1) } :
            Connection).advanceData env sink told
          rest := rest.drop (n - 1)
          arrivals } := by
    intro n pos fits arrivals
    have clamp : max 1 (min n dataReadSize) = (n - 1) + 1 := by omega
    have first : (Serving.at t.connection t.pending 0 (n :: arrivals)).round env =
        Serving.at t.connection t.pending n arrivals := by
      simp only [Serving.at, Serving.round, stage, List.take_zero, if_true, Serving.read, pending,
        List.drop_zero, reduceCtorEq, if_false, List.headD_cons, clamp, List.tail_cons,
        List.nil_append]
      rw [show n - 1 + 1 = n by omega]
    have second : (Serving.at t.connection t.pending n arrivals).round env =
        { connection := ({ t.connection with buffer := byte :: rest.take (n - 1) } :
            Connection).advanceData env sink told
          rest := rest.drop (n - 1)
          arrivals } := by
      obtain ⟨m, rfl⟩ : ∃ m, n = m + 1 := ⟨n - 1, by omega⟩
      simp only [Serving.at, Serving.round, stage, pending, List.take_succ_cons, List.drop_succ_cons,
        reduceCtorEq, if_false, Nat.add_sub_cancel]
    rw [List.append_assoc]
    exact ((leads _).trans env (first ▸ Leads.one env _)).trans env (second ▸ Leads.one env _)
  rw [step]
  have empty : (({ t.connection with buffer := [byte] } : Connection).advanceData env sink
      told).buffer = [] := by
    rw [Connection.advanceData_buffer]
    exact List.drop_eq_nil_of_le (Serving.feed_taken sink (List.cons_ne_nil byte []))
  refine ⟨fun _ => ⟨before ++ [1], fun arrivals => ?_⟩, fun commands => ?_⟩
  · have one := read 1 (le_refl 1) (by decide) arrivals
    simp only [Nat.sub_self, List.take_zero, List.drop_zero] at one
    simp only [Serving.at, List.take_zero, List.drop_zero]
    generalize ({ t.connection with buffer := [byte] } : Connection).advanceData env sink told =
      after at one empty ⊢
    obtain ⟨_, _, _, _, _, _, _⟩ := after
    simp only at empty
    rw [empty] at one
    exact one
  · refine ⟨before ++ [dataReadSize], fun arrivals => ?_⟩
    have all := read dataReadSize (by decide) (le_refl _) arrivals
    obtain ⟨sink', event, fed⟩ : ∃ sink' event, sink.feedByte byte = (sink', event) := ⟨_, _, rfl⟩
    have other : event ≠ .needMore := by
      rintro rfl
      simp only [Connection.advanceData_single env t.connection told fed] at commands
      cases commands
    rw [Connection.advanceData_event env t.connection told fed other] at all
    simp only at commands ⊢
    rw [if_pos commands]
    exact all

theorem reached (config : SessionConfig) (relay : Smtp.RelayPolicy) (stream : List UInt8)
    (n : Nat) :
    Reached env (Serving.start config relay stream)
      ((Course.next env)^[n] (Course.start config relay stream)) := by
  induction n with
  | zero =>
    have start : ∀ arrivals, Leads env (Serving.start config relay stream arrivals)
        (Serving.at (Connection.new config relay) stream 0 arrivals) := fun _ => ⟨0, rfl⟩
    exact ⟨fun _ => ⟨[], start⟩, fun _ => ⟨[], start⟩⟩
  | succ n ih =>
    rw [Function.iterate_succ_apply']
    generalize (Course.next env)^[n] (Course.start config relay stream) = t at ih ⊢
    cases stage : t.connection.stage with
    | finished outcome =>
      rw [Course.next_of_finished env ⟨outcome, stage⟩]
      exact ih
    | commands =>
      cases window : nextLine (t.pending.take (maxCommandBuffer + 1))
          t.connection.session.config.bareNewlinePolicy with
      | line line k => exact ih.line env stage window
      | needMore | bareLineFeed | tooLong =>
        refine Reached.ended env ⟨.closed, ?_⟩
        rw [Course.next, stage]
        simp only [window]
        rfl
    | data sink told =>
      cases pending : t.pending with
      | nil =>
        refine Reached.ended env ⟨.closed, ?_⟩
        rw [Course.next, stage]
        simp only [pending]
        rfl
      | cons byte rest => exact ih.byte env stage pending

theorem leads_refusal {c : Connection} (stage : c.stage = .commands) {pending : List UInt8}
    {m : Nat}
    {reply : Reply}
    (next : nextLine (pending.take m) c.session.config.bareNewlinePolicy = .bareLineFeed ∧
        reply = .withEnhanced 500 "5.5.2" Texts.bareLineFeed ∨
      nextLine (pending.take m) c.session.config.bareNewlinePolicy = .tooLong ∧
        reply = .withEnhanced 500 "5.5.6" Texts.lineTooLong) (arrivals : List Nat) :
    Leads env (Serving.at c pending m arrivals)
      (Serving.at ((c.send reply).finish .closed) pending m arrivals) := by
  have run : (Serving.at c pending m arrivals).round env =
      Serving.at ((c.send reply).finish .closed) pending m arrivals := by
    rcases next with ⟨next, rfl⟩ | ⟨next, rfl⟩ <;>
      simp only [Serving.at, Serving.round, stage, next, Connection.advanceCommands] <;> rfl
  exact run ▸ Leads.one env _

theorem seen_at (c : Connection) (pending : List UInt8) (m : Nat) (arrivals : List Nat) :
    (Serving.at c pending m arrivals).seen = (c.sent, c.accepted, c.stage, pending) := by
  simp [Serving.seen, Serving.at, Serving.unread]

/-- Byte by byte, a line that splits is too long. -/
theorem splits_refused {t : Course} (h : Reached env start t)
    {i : Nat} (stage : t.connection.stage = .commands) (found : LineFeedAt t.pending i)
    (long : maxCommandBuffer < i) :
    ∃ arrivals, ((start arrivals).serve env).seen =
      (t.connection.sent ++ [.withEnhanced 500 "5.5.6" Texts.lineTooLong], t.connection.accepted,
        .finished .closed, t.pending) := by
  obtain ⟨inside, -⟩ := List.getElem?_eq_some_iff.mp found.1
  obtain ⟨before, leads⟩ := h.bare (by rintro ⟨_, finished⟩; rw [stage] at finished; cases finished)
  have open' : DataSink.lf ∉ t.pending.take (maxCommandBuffer + 1) :=
    fun mem => found.2 (List.take_subset_take_left t.pending long mem)
  have bytes := leads_bytes env stage (n := maxCommandBuffer + 1)
    (fun mem => open' (List.take_subset_take_left t.pending (by omega) mem)) (le_refl _) (by omega) []
  have refused := @leads_refusal env _ stage t.pending (maxCommandBuffer + 1) _
    (.inr ⟨by rw [nextLine_of_none _ open', if_pos (by rw [List.length_take]; omega)], rfl⟩) []
  refine ⟨before ++ (List.replicate (maxCommandBuffer + 1) 1 ++ []), ?_⟩
  rw [(((leads _).trans env bytes).trans env refused).serve_eq env ⟨.closed, rfl⟩, seen_at]
  rfl

/-- In large pieces, a line that splits is in the buffer whole. -/
theorem splits_visible {t : Course} (h : Reached env start t)
    {i : Nat} (stage : t.connection.stage = .commands) (found : LineFeedAt t.pending i)
    (long : maxCommandBuffer < i) (near : i < max (maxCommandBuffer + commandReadSize) t.lead) :
    ∃ arrivals m, i < m ∧
      Leads env (start arrivals) (Serving.at t.connection t.pending m []) := by
  obtain ⟨inside, -⟩ := List.getElem?_eq_some_iff.mp found.1
  rcases lt_max_iff.mp near with reads | data
  · obtain ⟨before, leads⟩ :=
      h.bare (by rintro ⟨_, finished⟩; rw [stage] at finished; cases finished)
    have open' : DataSink.lf ∉ t.pending.take (0 + maxCommandBuffer) :=
      fun mem => found.2 (List.take_subset_take_left t.pending (by omega) mem)
    have first := @leads_read env _ stage t.pending 0 (by simp) (Nat.zero_le _)
      (by omega) maxCommandBuffer (by decide) (by decide) [commandReadSize]
    have second := leads_read env stage open' (by omega) (by omega) (n := commandReadSize)
      (by decide) (le_refl _) []
    exact ⟨before ++ [maxCommandBuffer, commandReadSize], 0 + maxCommandBuffer + commandReadSize,
      by omega, ((leads _).trans env first).trans env second⟩
  · obtain ⟨before, leads⟩ := h.ahead stage
    exact ⟨before ++ [], t.lead, data, leads []⟩

theorem not_segmentable_of_splits {config : SessionConfig} {relay : Smtp.RelayPolicy}
    {stream : List UInt8} {n : Nat}
    (splits : ((Course.next env)^[n] (Course.start config relay stream)).Splits) :
    ¬Segmentable env config relay stream := by
  have reached := reached env config relay stream n
  generalize (Course.next env)^[n] (Course.start config relay stream) = t at splits reached
  obtain ⟨stage, i, found, long, near⟩ := splits
  obtain ⟨inside, -⟩ := List.getElem?_eq_some_iff.mp found.1
  obtain ⟨arrivals, refused⟩ := splits_refused env reached stage found long
  obtain ⟨arrivals', m, visible, leads⟩ := splits_visible env reached stage found long near
  intro same
  have served := (same arrivals' arrivals).trans refused
  rcases found.nextLine_cases t.connection.session.config.bareNewlinePolicy with bare | ⟨line, next⟩
  · -- the replies differ
    have refused' := @leads_refusal env _ stage t.pending m _
      (.inl ⟨(found.nextLine_take visible _).trans bare, rfl⟩) []
    rw [(leads.trans env refused').serve_eq env ⟨.closed, rfl⟩, seen_at] at served
    have replies := congrArg (fun seen => seen.1) served
    simp only [Connection.finish, Connection.send, List.append_cancel_left_eq, List.cons.injEq,
      and_true] at replies
    exact absurd replies (by decide)
  · -- the line is consumed
    have consumed :=
      ((leads.trans env (leads_line env stage found visible next [])).serve env).unread
    have left := congrArg (fun seen => seen.2.2.2.length) served
    simp only [Serving.seen] at left
    simp only [Serving.at, Serving.unread, List.take_append_drop, List.length_drop] at consumed left
    omega

end Pieces

/-- What is seen of a connection is the same in whatever pieces the client's bytes arrive exactly if
no command line is reached that is over-long and can be in the buffer whole. -/
theorem segmentable_iff (env : Environment) (config : SessionConfig) (relay : Smtp.RelayPolicy)
    (stream : List UInt8) :
    Segmentable env config relay stream ↔
      ∀ n, ¬((Course.next env)^[n] (Course.start config relay stream)).Splits :=
  ⟨fun same _ splits => not_segmentable_of_splits env splits same, segmentable_of_whole⟩

theorem lineFeedAt_crlf {line : List UInt8} (h : DataSink.lf ∉ line) :
    LineFeedAt (line ++ [DataSink.cr, DataSink.lf]) (line.length + 1) := by
  have parts : line ++ [DataSink.cr, DataSink.lf] = (line ++ [DataSink.cr]) ++ [DataSink.lf] := by
    simp
  have length : (line ++ [DataSink.cr]).length = line.length + 1 := by simp
  rw [parts]
  constructor
  · rw [List.getElem?_append_right (le_of_eq length), length, Nat.sub_self]
    rfl
  · rw [List.take_left' length, List.mem_append, List.mem_singleton]
    exact fun mem => mem.elim h (by decide)

/-- A command line of 2100 letters is served if it arrives at once, and refused in pieces. -/
theorem long_line_not_segmentable :
    ¬∀ (env : Environment) (config : SessionConfig) (relay : Smtp.RelayPolicy)
      (stream : List UInt8), Segmentable env config relay stream := by
  intro all
  let env : Environment :=
    { lookup := fun _ _ => .ok false
      authenticate := fun _ _ => .invalidCredentials
      acquire := fun _ _ => true
      accept := fun _ _ => .ok () }
  let config : SessionConfig :=
    { hostname := "mx.example.org"
      maxMessageSize := 1000
      maxRecipients := 10
      bareNewlinePolicy := .reject
      postmaster := none
      offerStarttls := false
      offerAuth := false
      tlsActive := false
      requireAuthForSubmission := false }
  have feed := @lineFeedAt_crlf (List.replicate 2100 0x61)
    (fun mem => absurd (List.eq_of_mem_replicate mem) (by decide))
  rw [List.length_replicate] at feed
  exact not_segmentable_of_splits env (n := 0) ⟨rfl, 2101, feed, by decide, by decide⟩
    (all env config { managedDomains := [] } _)

end MailStack.Smtpd
