import MailStack.Smtpd.Session

/-! The loop that serves an SMTP connection: lines and message data are taken from the bytes that
came in, handed to the session, and its actions carried out. -/

namespace MailStack.Smtpd

open Lib Smtp

def maxCommandBuffer : Nat := 2048

def maxConsecutiveAuthFailures : Nat := 5

inductive ServeOutcome
  | closed
  | startTls
  | closedAfterAuthFailures (failures : Nat)
deriving DecidableEq

inductive LineOutcome
  | line (line : List UInt8) (consumed : Nat)
  | needMore
  | bareLineFeed
  | tooLong

def nextLine (buffer : List UInt8) (policy : BareNewlinePolicy) : LineOutcome :=
  match buffer.findIdx? (· == DataSink.lf) with
  | some index =>
    let hasCr := 0 < index && buffer[index - 1]? == some DataSink.cr
    if !hasCr && policy == .reject then .bareLineFeed
    else .line (buffer.take (if hasCr then index - 1 else index)) (index + 1)
  | none => if buffer.length > maxCommandBuffer then .tooLong else .needMore

structure AuthRequest where
  mechanism : String
  response : String
  secured : Bool

/-- The services that a connection asks. Each call has its number, so that a service may answer the
same question differently. -/
structure Environment where
  lookup : Nat → String → Except String Bool
  authenticate : Nat → AuthRequest → AuthOutcome
  acquire : Nat → Nat → Bool
  accept : Nat → AcceptedMessage → Except Reply Unit

/-- Where the loop is: reading commands, reading message data, or at its end. -/
inductive Stage
  | commands
  | data (sink : DataSink) (toldTooLarge : Bool)
  | finished (outcome : ServeOutcome)
deriving DecidableEq

structure Connection where
  session : Session
  stage : Stage
  buffer : List UInt8
  authFailures : Nat
  calls : Nat
  sent : List Reply
  accepted : List AcceptedMessage

/-- What happens to a connection: bytes come in, the loop goes on by one round, the client or a
timer ends it, or the TLS handshake after STARTTLS is done. -/
inductive Event
  | receive (chunk : List UInt8)
  | advance
  | hangUp
  | handshake (ok : Bool)

namespace Connection

def new (config : SessionConfig) (relay : RelayPolicy) : Connection :=
  let session := Session.new config relay
  { session
    stage := .commands
    buffer := []
    authFailures := 0
    calls := 0
    sent := [session.greeting]
    accepted := [] }

def send (c : Connection) (reply : Reply) : Connection := { c with sent := c.sent ++ [reply] }

def finish (c : Connection) (outcome : ServeOutcome) : Connection :=
  { c with stage := .finished outcome }

def countFailure (failures : Nat) : AuthOutcome → Nat
  | .success _ => 0
  | .invalidCredentials => failures + 1
  | .temporaryFailure _ => failures

def verify (env : Environment) (c : Connection) (mechanism response : String) : Connection :=
  let outcome := env.authenticate c.calls
    { mechanism, response, secured := c.session.tlsActive }
  let failures := countFailure c.authFailures outcome
  let (session, reply) := c.session.completeAuth outcome
  let c := { c with session, authFailures := failures, calls := c.calls + 1 }.send reply
  if maxConsecutiveAuthFailures ≤ failures then c.finish (.closedAfterAuthFailures failures) else c

def enterData (env : Environment) (c : Connection) (reply : Reply) : Connection :=
  let config := c.session.config
  let next := { c with calls := c.calls + 1 }
  if env.acquire c.calls config.maxMessageSize then
    { next.send reply with
      stage := .data (DataSink.new config.maxMessageSize config.bareNewlinePolicy) false }
  else next.send (.withEnhanced 451 "4.3.2" Texts.dataBackpressure)

def perform (env : Environment) (c : Connection) : Action → Connection
  | .reply reply => c.send reply
  | .close reply => (c.send reply).finish .closed
  | .startTls reply => (c.send reply).finish .startTls
  | .authChallenge reply => c.send reply
  | .authVerify mechanism response => c.verify env mechanism response
  | .enterData reply => c.enterData env reply

/-- What the session makes of a line: the answer to a challenge, or a command. -/
def interpret (env : Environment) (c : Connection) (line : List UInt8) : Session × Action :=
  if c.session.awaitingAuthResponse then c.session.continueAuth line
  else
    match parse line with
    | .ok command => c.session.handle (env.lookup c.calls) command
    | .error error => (c.session, .reply error.reply)

def handleLine (env : Environment) (c : Connection) (line : List UInt8) : Connection :=
  let (session, action) := c.interpret env line
  { c with session, calls := c.calls + 1 }.perform env action

def advanceCommands (env : Environment) (c : Connection) : Connection :=
  match nextLine c.buffer c.session.config.bareNewlinePolicy with
  | .line line consumed => { c with buffer := c.buffer.drop consumed }.handleLine env line
  | .needMore => c
  | .bareLineFeed => (c.send (.withEnhanced 500 "5.5.2" Texts.bareLineFeed)).finish .closed
  | .tooLong => (c.send (.withEnhanced 500 "5.5.6" Texts.lineTooLong)).finish .closed

/-- The message is complete: it is handed on, and what the receiver says is the reply. -/
def received (env : Environment) (c : Connection) (data : List UInt8) : Connection :=
  let (session, reply, message) := c.session.finishData data
  let c := { c with session, stage := .commands, calls := c.calls + 1 }
  match message with
  | none => c.send reply
  | some message =>
    match env.accept (c.calls - 1) message with
    | .ok () => { c.send reply with accepted := c.accepted ++ [message] }
    | .error rejection => c.send rejection

def advanceData (env : Environment) (c : Connection) (sink : DataSink) (toldTooLarge : Bool) :
    Connection :=
  if c.buffer = [] then c
  else
    let (sink, event, taken) := sink.feed c.buffer
    let c := { c with buffer := c.buffer.drop taken, stage := .data sink toldTooLarge }
    match event with
    | .needMore => c
    | .complete (some data) => c.received env data
    | .complete none => { c with session := c.session.discardData, stage := .commands }
    | .tooLarge =>
      if toldTooLarge then c
      else
        { c.send (.withEnhanced 552 "5.3.4" Texts.messageTooLarge) with
          stage := .data sink true }
    | .bareLineFeed => (c.send (.withEnhanced 550 "5.6.0" Texts.bareLineFeed)).finish .closed

/-- After the handshake the loop starts anew on the encrypted stream: nothing that was read before
is used. -/
def upgrade (c : Connection) : Connection :=
  { c with
    session := c.session.activateTls
    stage := .commands
    buffer := []
    authFailures := 0 }

def step (env : Environment) (c : Connection) : Event → Connection
  | .receive chunk =>
    match c.stage with
    | .finished _ => c
    | _ => { c with buffer := c.buffer ++ chunk }
  | .advance =>
    match c.stage with
    | .commands => c.advanceCommands env
    | .data sink toldTooLarge => c.advanceData env sink toldTooLarge
    | .finished _ => c
  | .hangUp =>
    match c.stage with
    | .finished _ => c
    | _ => c.finish .closed
  | .handshake ok =>
    match c.stage with
    | .finished .startTls => if ok then c.upgrade else c.finish .closed
    | _ => c

def run (env : Environment) (c : Connection) (events : List Event) : Connection :=
  events.foldl (step env) c

end Connection

end MailStack.Smtpd

/-! The loop that serves a connection together with the stream it reads from: when the loop reads,
how much, and that it comes to an end. -/

namespace MailStack.Smtpd

open Lib

def commandReadSize : Nat := 4096

def dataReadSize : Nat := 8192

/-- A connection, what it has not read yet of all that the client sends before it closes its side,
and how many bytes have arrived at each of the next reads. After those, reads find all the rest. -/
structure Serving where
  connection : Connection
  rest : List UInt8
  arrivals : List Nat

namespace Serving

/-- The bytes that are not consumed: the buffer and what was not read. -/
def unread (s : Serving) : List UInt8 := s.connection.buffer ++ s.rest

/-- A read into a chunk of `size` bytes returns one byte at least, and none at the end of the
stream, where the connection is closed. -/
def read (size : Nat) (s : Serving) : Serving :=
  if s.rest = [] then { s with connection := s.connection.finish .closed }
  else
    let n := max 1 (min (s.arrivals.headD size) size)
    { connection := { s.connection with buffer := s.connection.buffer ++ s.rest.take n }
      rest := s.rest.drop n
      arrivals := s.arrivals.tail }

/-- One round of the loop. -/
def round (env : Environment) (s : Serving) : Serving :=
  match s.connection.stage with
  | .finished _ => s
  | .commands =>
    match nextLine s.connection.buffer s.connection.session.config.bareNewlinePolicy with
    | .needMore => s.read commandReadSize
    | _ => { s with connection := s.connection.advanceCommands env }
  | .data sink toldTooLarge =>
    if s.connection.buffer = [] then s.read dataReadSize
    else { s with connection := s.connection.advanceData env sink toldTooLarge }

def rounds (s : Serving) : Nat := 2 * s.rest.length + s.connection.buffer.length + 1

/-- The loop to its end. -/
def serve (env : Environment) (s : Serving) : Serving := (round env)^[s.rounds] s

def start (config : SessionConfig) (relay : Smtp.RelayPolicy) (stream : List UInt8)
    (arrivals : List Nat) : Serving :=
  { connection := Connection.new config relay, rest := stream, arrivals }

end Serving

namespace Connection

variable (env : Environment) (c : Connection) (buffer : List UInt8)

theorem perform_buffer (action : Action) :
    ({ c with buffer } : Connection).perform env action =
      { c.perform env action with buffer } := by
  cases action with
  | authVerify mechanism response =>
    simp only [perform, verify, finish, send]
    split <;> rfl
  | enterData reply =>
    simp only [perform, enterData, send]
    split <;> rfl
  | _ => rfl

theorem handleLine_buffer (line : List UInt8) :
    ({ c with buffer } : Connection).handleLine env line =
      { c.handleLine env line with buffer } := by
  have same : ({ c with buffer } : Connection).interpret env line = c.interpret env line := rfl
  simp only [handleLine, same]
  exact perform_buffer env { c with session := _, calls := _ } buffer _

theorem received_buffer (data : List UInt8) :
    ({ c with buffer } : Connection).received env data = { c.received env data with buffer } := by
  simp only [received, send]
  split
  · rfl
  · split <;> rfl

theorem advanceData_buffer (sink : DataSink) (told : Bool) :
    (c.advanceData env sink told).buffer = c.buffer.drop (sink.feed c.buffer).2.2 := by
  simp only [advanceData]
  split
  · rename_i empty
    simp [empty]
  split
  · rfl
  · exact congrArg buffer (received_buffer env { c with stage := .data _ told } _ _)
  · rfl
  · split <;> rfl
  · rfl

end Connection

theorem nextLine_of_none {buffer : List UInt8} (policy : BareNewlinePolicy)
    (h : DataSink.lf ∉ buffer) :
    nextLine buffer policy = if buffer.length > maxCommandBuffer then .tooLong else .needMore := by
  have none : buffer.findIdx? (· == DataSink.lf) = none := by
    rw [List.findIdx?_eq_none_iff]
    intro byte mem
    by_contra eq
    simp only [beq_iff_eq, Bool.not_eq_false] at eq
    exact h (eq ▸ mem)
  rw [nextLine, none]

/-- The first line feed of a list of bytes is at `i`. -/
def LineFeedAt (bytes : List UInt8) (i : Nat) : Prop :=
  bytes[i]? = some DataSink.lf ∧ DataSink.lf ∉ bytes.take i

theorem lineFeedAt_of_mem {bytes : List UInt8} (h : DataSink.lf ∈ bytes) :
    ∃ i, LineFeedAt bytes i := by
  induction bytes with
  | nil => exact absurd h List.not_mem_nil
  | cons byte rest ih =>
    by_cases eq : byte = DataSink.lf
    · exact ⟨0, by simp [LineFeedAt, eq]⟩
    · obtain ⟨i, here, before⟩ := ih ((List.mem_cons.mp h).resolve_left (Ne.symm eq))
      exact ⟨i + 1, by simpa using here, by simpa [Ne.symm eq] using before⟩

theorem LineFeedAt.take_iff {bytes : List UInt8} {i n : Nat} (short : i < n) :
    LineFeedAt (bytes.take n) i ↔ LineFeedAt bytes i := by
  rw [LineFeedAt, LineFeedAt, List.getElem?_take_of_lt short, List.take_take,
    Nat.min_eq_left short.le]

theorem LineFeedAt.append {a b : List UInt8} {i : Nat} (h : LineFeedAt a i) :
    LineFeedAt (a ++ b) i := by
  obtain ⟨short, -⟩ := List.getElem?_eq_some_iff.mp h.1
  refine ⟨by rw [List.getElem?_append_left short]; exact h.1, ?_⟩
  rw [List.take_append_of_le_length short.le]
  exact h.2

theorem LineFeedAt.findIdx? {buffer : List UInt8} {i : Nat} (h : LineFeedAt buffer i) :
    buffer.findIdx? (· == DataSink.lf) = some i := by
  obtain ⟨short, here⟩ := List.getElem?_eq_some_iff.mp h.1
  rw [List.findIdx?_eq_some_iff_getElem]
  refine ⟨short, by simpa using here, fun j less => ?_⟩
  by_contra eq
  refine h.2 (List.mem_of_getElem? (i := j) ?_)
  rw [List.getElem?_take_of_lt less, List.getElem?_eq_getElem (by omega)]
  simpa using eq

theorem LineFeedAt.nextLine_cases {buffer : List UInt8} {i : Nat} (h : LineFeedAt buffer i)
    (policy : BareNewlinePolicy) :
    nextLine buffer policy = .bareLineFeed ∨
      ∃ line, nextLine buffer policy = .line line (i + 1) := by
  rw [nextLine, h.findIdx?]
  simp only
  split
  · exact .inl rfl
  · exact .inr ⟨_, rfl⟩

theorem LineFeedAt.nextLine_take {buffer : List UInt8} {i n : Nat} (h : LineFeedAt buffer i)
    (short : i < n) (policy : BareNewlinePolicy) :
    nextLine (buffer.take n) policy = nextLine buffer policy := by
  have cut : ∀ hasCr : Bool, min (if hasCr then i - 1 else i) n = if hasCr then i - 1 else i := by
    rintro (_ | _)
    · exact Nat.min_eq_left short.le
    · exact Nat.min_eq_left (show i - 1 ≤ n by omega)
  have mark : (decide (0 < i) && (buffer.take n)[i - 1]? == some DataSink.cr) =
      (decide (0 < i) && buffer[i - 1]? == some DataSink.cr) := by
    rw [List.getElem?_take_of_lt (by omega)]
  rw [nextLine, nextLine, h.findIdx?, ((LineFeedAt.take_iff short).mpr h).findIdx?]
  simp only [List.take_take, mark, cut]

namespace Serving

variable (env : Environment) {s : Serving}

def Finished (s : Serving) : Prop := ∃ outcome, s.connection.stage = .finished outcome

theorem round_of_finished (h : s.Finished) : s.round env = s := by
  obtain ⟨outcome, stage⟩ := h
  rw [round, stage]

theorem read_spec (size : Nat) :
    (s.read size).Finished ∨ (s.read size).rounds < s.rounds := by
  unfold read
  split
  · exact .inl ⟨.closed, rfl⟩
  · rename_i some
    right
    have long : 0 < s.rest.length := List.length_pos_of_ne_nil some
    have step : 1 ≤ max 1 (min (s.arrivals.headD size) size) := le_max_left _ _
    simp only [rounds, List.length_append, List.length_take, List.length_drop]
    omega

theorem feed_taken (sink : DataSink) {buffer : List UInt8} (h : buffer ≠ []) :
    1 ≤ (sink.feed buffer).2.2 := by
  cases buffer with
  | nil => exact absurd rfl h
  | cons byte rest =>
    unfold DataSink.feed
    split
    · exact Nat.le_add_left 1 _
    · exact le_refl 1

theorem advanceCommands_cases (c : Connection) :
    (nextLine c.buffer c.session.config.bareNewlinePolicy = .needMore ∧
      c.advanceCommands env = c) ∨
    (∃ line k, nextLine c.buffer c.session.config.bareNewlinePolicy = .line line k ∧
      c.advanceCommands env = { c.handleLine env line with buffer := c.buffer.drop k }) ∨
    ∃ reply, c.advanceCommands env = (c.send reply).finish .closed ∧
      (nextLine c.buffer c.session.config.bareNewlinePolicy = .bareLineFeed ∧
          reply = .withEnhanced 500 "5.5.2" Texts.bareLineFeed ∨
        nextLine c.buffer c.session.config.bareNewlinePolicy = .tooLong ∧
          reply = .withEnhanced 500 "5.5.6" Texts.lineTooLong) := by
  unfold Connection.advanceCommands
  cases next : nextLine c.buffer c.session.config.bareNewlinePolicy with
  | line line k => exact .inr (.inl ⟨line, k, rfl, Connection.handleLine_buffer env c _ line⟩)
  | needMore => exact .inl ⟨rfl, rfl⟩
  | bareLineFeed => exact .inr (.inr ⟨_, rfl, .inl ⟨rfl, rfl⟩⟩)
  | tooLong => exact .inr (.inr ⟨_, rfl, .inr ⟨rfl, rfl⟩⟩)

theorem nextLine_line {buffer line : List UInt8} {policy : BareNewlinePolicy} {k : Nat}
    (h : nextLine buffer policy = .line line k) : ∃ i, LineFeedAt buffer i ∧ k = i + 1 := by
  by_cases mem : DataSink.lf ∈ buffer
  · obtain ⟨i, found⟩ := lineFeedAt_of_mem mem
    rcases found.nextLine_cases policy with bare | ⟨line', eq⟩
    · rw [bare] at h
      cases h
    · rw [eq] at h
      cases h
      exact ⟨i, found, rfl⟩
  · rw [nextLine_of_none policy mem] at h
    split at h <;> cases h

/-- Every round brings the end nearer. -/
theorem round_spec (s : Serving) : (s.round env).Finished ∨ (s.round env).rounds < s.rounds := by
  unfold round
  split
  · rename_i outcome stage
    exact .inl ⟨outcome, stage⟩
  · split
    · exact read_spec _
    · rename_i more
      rcases advanceCommands_cases env s.connection with
        ⟨next, -⟩ | ⟨line, k, next, run⟩ | ⟨reply, run, -⟩
      · exact absurd next more
      · right
        obtain ⟨i, ⟨found, -⟩, rfl⟩ := nextLine_line next
        obtain ⟨short, -⟩ := List.getElem?_eq_some_iff.mp found
        rw [run]
        simp only [rounds, List.length_drop]
        omega
      · exact .inl ⟨.closed, by rw [run]; rfl⟩
  · split
    · exact read_spec _
    · rename_i some
      right
      have step := feed_taken ‹DataSink› some
      have long := List.length_pos_of_ne_nil some
      simp only [rounds, Connection.advanceData_buffer, List.length_drop]
      omega

theorem iterate_finished (n : Nat) (s : Serving) (enough : s.rounds ≤ n) :
    ((round env)^[n] s).Finished := by
  induction n generalizing s with
  | zero => exact absurd enough (Nat.not_le.mpr (Nat.succ_pos _))
  | succ n ih =>
    rw [Function.iterate_succ_apply]
    rcases round_spec env s with finished | less
    · have fixed : (round env)^[n] (s.round env) = s.round env :=
        Function.iterate_fixed (round_of_finished env finished) n
      rw [fixed]
      exact finished
    · exact ih _ (by omega)

theorem serve_finished (s : Serving) : (s.serve env).Finished :=
  iterate_finished env s.rounds s (le_refl _)

end Serving

end MailStack.Smtpd
