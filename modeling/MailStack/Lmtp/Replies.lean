import MailStack.Lmtp.Message

/-! How the client reads the answers of the server. -/

namespace MailStack.Lmtp

open Lib Maildir Sieve

/-- A line without a line ending in it, with a code and nothing that follows it. -/
structure IsReply (line : String) : Prop where
  single : ∀ c ∈ line.toList, c ≠ '\r' ∧ c ≠ '\n'
  last : parseStatusLine line = .ok (statusCode line, false)

instance (line : String) : Decidable (IsReply line) :=
  decidable_of_iff ((line.toList.all fun c => c ≠ '\r' && c ≠ '\n') = true ∧
      parseStatusLine line = .ok (statusCode line, false))
    ⟨fun h => ⟨by simpa using h.1, h.2⟩, fun h => ⟨by simpa using h.single, h.last⟩⟩

/-- The line of a response with more lines, after which the client reads on. -/
structure IsContinued (line : String) : Prop where
  single : ∀ c ∈ line.toList, c ≠ '\r' ∧ c ≠ '\n'
  more : parseStatusLine line = .ok (statusCode line, true)

instance (line : String) : Decidable (IsContinued line) :=
  decidable_of_iff ((line.toList.all fun c => c ≠ '\r' && c ≠ '\n') = true ∧
      parseStatusLine line = .ok (statusCode line, true))
    ⟨fun h => ⟨by simpa using h.1, h.2⟩, fun h => ⟨by simpa using h.single, h.more⟩⟩

theorem trimLineEnd_eq {line : String} (single : ∀ c ∈ line.toList, c ≠ '\r' ∧ c ≠ '\n') :
    LmtpClient.trimLineEnd line = line := by
  have kept : line.toList.reverse.dropWhile (fun c => decide (c = '\r') || decide (c = '\n')) =
      line.toList.reverse := by
    cases shape : line.toList.reverse with
    | nil => rfl
    | cons c rest =>
      have mem : c ∈ line.toList := List.mem_reverse.mp (shape ▸ List.mem_cons_self)
      rw [List.dropWhile_cons_of_neg (by simp [single c mem])]
  rw [LmtpClient.trimLineEnd, kept, List.reverse_reverse, String.ofList_toList]

/-- The code stands in the first bytes, so that the rest of a line does not matter. -/
theorem parseStatusLine_append {head : String} (long : 4 ≤ (bytes head).length) (rest : String) :
    parseStatusLine (head ++ rest) =
      match parseStatusLine head with
      | .ok (_, continued) => .ok (statusCode (head ++ rest), continued)
      | .error _ => .error (.lmtp ("malformed status code: " ++
        Queue.debugText (head ++ rest))) := by
  have first : (bytes (head ++ rest)).take 3 = (bytes head).take 3 := by
    rw [bytes_append, List.take_append_of_le_length (by omega)]
  have fourth : (bytes (head ++ rest))[3]? = (bytes head)[3]? := by
    rw [bytes_append, List.getElem?_append_left (by omega)]
  have length : ¬(bytes (head ++ rest)).length < 3 := by
    rw [bytes_append, List.length_append]
    omega
  have headLength : ¬(bytes head).length < 3 := by omega
  simp only [parseStatusLine, if_neg length, if_neg headLength, first, fourth]
  by_cases digits : ((bytes head).take 3).all isAsciiDigit <;> simp [digits]

theorem IsReply.append {head rest : String} (reply : IsReply head) (long : 4 ≤ (bytes head).length)
    (single : ∀ c ∈ rest.toList, c ≠ '\r' ∧ c ≠ '\n') : IsReply (head ++ rest) where
  single c mem := by
    obtain inHead | inRest := List.mem_append.mp (String.toList_append ▸ mem)
    · exact reply.single c inHead
    · exact single c inRest
  last := by rw [parseStatusLine_append long, reply.last]

theorem sanitizeReason_single (reason : String) :
    ∀ c ∈ (sanitizeReason reason).toList, c ≠ '\r' ∧ c ≠ '\n' := by
  intro c mem
  have inside := mem_of_mem_trim mem
  rw [String.toList_ofList, List.mem_map] at inside
  obtain ⟨d, -, rfl⟩ := inside
  split
  · decide
  · next visible =>
    refine ⟨?_, ?_⟩ <;> rintro rfl <;> exact visible (by decide)

theorem deliveryLine_isReply (outcome : Except MailError Delivery) :
    IsReply (deliveryLine outcome) := by
  have delivered : IsReply "250 2.0.0 Ok: delivered" := by decide
  have rejected : IsReply "550 5.7.1 " := by decide
  have gone : IsReply "550 5.1.1 Recipient mailbox unavailable" := by decide
  have full : IsReply "552 5.2.2 Mailbox full" := by decide
  have invalid : IsReply "550 5.1.0 Message rejected" := by decide
  have unavailable : IsReply "451 4.2.0 Mailbox unavailable" := by decide
  match outcome with
  | .ok (.delivered folders) => exact delivered
  | .ok (.rejected reason) => exact rejected.append (by decide) (sanitizeReason_single reason)
  | .error error =>
    cases error with
    | notFound => exact gone
    | quotaExceeded => exact full
    | invalid => exact invalid
    | _ => exact unavailable

theorem answerLine_isReply {σ : Type} (ctx : LmtpContext σ) (sender : String) (data : Option String)
    (recipient : Recipient σ) : IsReply (answerLine ctx sender data recipient) := by
  cases data with
  | none =>
    show IsReply oversizedLine
    decide
  | some data => exact deliveryLine_isReply _

def RecipientResult.ofLine (recipient line : String) : RecipientResult :=
  { recipient, code := statusCode line, message := line }

/-- The client can take the line, which comes with a line ending. -/
def Fits (line : String) : Prop := (bytes line).length + 2 ≤ maxResponseLineBytes

instance (line : String) : Decidable (Fits line) :=
  inferInstanceAs (Decidable ((bytes line).length + 2 ≤ maxResponseLineBytes))

/-- The client waits for a response of which it has read nothing. -/
structure Waiting (c : LmtpClient) (stage : Stage) : Prop where
  stage : c.stage = stage
  code : c.code = none
  lines : c.lines = []

namespace LmtpClient

variable (job : Delivering) {c : LmtpClient} {line : String}
  {result : Except StoreError (List RecipientResult)}

theorem receive_of_ne_finished (running : ∀ result, c.stage ≠ .finished result) :
    c.receive job line = c.read job line := by
  unfold receive
  split
  · next result stage => exact absurd stage (running result)
  · rfl

theorem receive_finished
    (stage : c.stage = .finished result) : c.receive job line = (c, []) := by
  simp only [receive, stage]

theorem feed_finished
    (stage : c.stage = .finished result) (ls : List String) :
    feed (receive job) c ls = (c, []) :=
  feed_idle (fun _ => receive_finished job stage) ls

variable {stage : Stage}

theorem receive_reply (waiting : Waiting c stage)
    (running : ∀ result, stage ≠ .finished result) (reply : IsReply line) (fits : Fits line) :
    c.receive job line = c.respond job (statusCode line) line := by
  rw [receive_of_ne_finished job (waiting.stage ▸ running), read,
    if_neg (Nat.not_lt.mpr fits)]
  simp only [trimLineEnd_eq reply.single, reply.last]
  have fresh : { c with code := none, lines := [] } = c := by
    rw [← waiting.code, ← waiting.lines]
  simp [waiting.code, waiting.lines, fresh]

theorem receive_tooLong (waiting : Waiting c stage)
    (running : ∀ result, stage ≠ .finished result ∧ stage ≠ .quit result) (long : ¬Fits line) :
    ∃ error, c.receive job line = ({ c with stage := .finished (.error error) }, []) := by
  have tooLong : (bytes line).length + 2 > maxResponseLineBytes := Nat.lt_of_not_le long
  rw [receive_of_ne_finished job (waiting.stage ▸ fun result => (running result).1), read, if_pos tooLong,
    broken]
  split
  · next result at_quit => exact absurd (waiting.stage.symm.trans at_quit) (running result).2
  · next result done => exact absurd (waiting.stage.symm.trans done) (running result).1
  · exact ⟨_, rfl⟩

/-- The lines of a response, of which only the last says that it ends. -/
theorem feed_continued {code : Nat} (more : List String) (last : String)
    (waiting : c.stage = stage) (running : ∀ result, stage ≠ .finished result)
    (begun : c.code = some code) (reply : IsReply last) (fits : Fits last)
    (continued : ∀ l ∈ more, IsContinued l ∧ Fits l) :
    ∃ text, feed (receive job) c (more ++ [last]) =
      respond job { c with code := none, lines := [] } code text := by
  induction more generalizing c with
  | nil =>
    refine ⟨" ".intercalate (c.lines ++ [last]), ?_⟩
    have ended : c.receive job last =
        respond job { c with code := none, lines := [] } code
          (" ".intercalate (c.lines ++ [last])) := by
      rw [receive_of_ne_finished job (waiting ▸ running), read, if_neg (Nat.not_lt.mpr fits)]
      simp only [trimLineEnd_eq reply.single, reply.last, begun]
      rfl
    simp [feed_cons, ended]
  | cons l more ih =>
    obtain ⟨isContinued, short⟩ := continued l List.mem_cons_self
    have next : c.receive job l = ({ c with code := some code, lines := c.lines ++ [l] }, []) := by
      rw [receive_of_ne_finished job (waiting ▸ running), read, if_neg (Nat.not_lt.mpr short)]
      simp only [trimLineEnd_eq isContinued.single, isContinued.more, begun]
      rfl
    obtain ⟨text, later⟩ :=
      ih (c := { c with code := some code, lines := c.lines ++ [l] }) waiting rfl
      fun l mem => continued l (List.mem_cons_of_mem _ mem)
    exact ⟨text, by simp [feed_cons, next, later]⟩

variable {own : Nat → String} {indices : List Nat} {ls : List String}

/-- The slots after each of the recipients was answered with its own line. -/
def noted (job : Delivering) (own : Nat → String) (slots : List (Option RecipientResult))
    (indices : List Nat) : List (Option RecipientResult) :=
  indices.foldl (fun slots index =>
    slots.set index (some (.ofLine (job.recipients[index]?.getD "") (own index)))) slots

theorem noted_length (slots : List (Option RecipientResult)) :
    (noted job own slots indices).length = slots.length := by
  induction indices generalizing slots with
  | nil => rfl
  | cons index rest ih => exact (ih _).trans List.length_set

theorem noted_get (slots : List (Option RecipientResult)) {j : Nat} (bound : j < slots.length) :
    (noted job own slots indices)[j]? =
      if j ∈ indices then some (some (.ofLine (job.recipients[j]?.getD "") (own j)))
      else slots[j]? := by
  induction indices generalizing slots with
  | nil => rfl
  | cons index rest ih =>
    have later := ih (slots.set index
      (some (.ofLine (job.recipients[index]?.getD "") (own index)))) (by simpa using bound)
    rw [noted, List.foldl_cons, ← noted, later]
    by_cases here : j = index
    · subst here
      simp [bound]
    · simp [here, Ne.symm here]

theorem respond_replies {index : Nat} {rest : List Nat} (stage : c.stage = .replies)
    (pending : c.pending = index :: rest) (line : String) :
    c.respond job (statusCode line) line =
      if rest.isEmpty then
        leave { c.note job index (statusCode line) line with pending := rest }
          (collect (c.note job index (statusCode line) line).slots)
      else ({ c.note job index (statusCode line) line with pending := rest }, []) := by
  simp only [respond, stage, pending]

/-- All replies that the client waits for come, each is read, and it takes its leave. -/
theorem feed_replies (waiting : Waiting c .replies) (pending : c.pending = indices)
    (some_left : indices ≠ []) (good : ∀ index ∈ indices, IsReply (own index) ∧ Fits (own index)) :
    feed (receive job) c (indices.map own) =
      leave { c with slots := noted job own c.slots indices, pending := [] }
        (collect (noted job own c.slots indices)) := by
  induction indices generalizing c with
  | nil => exact absurd rfl some_left
  | cons index rest ih =>
    obtain ⟨reply, fits⟩ := good index List.mem_cons_self
    have first := receive_reply job waiting (fun _ => nofun) reply fits
    rw [respond_replies job waiting.stage pending] at first
    cases rest with
    | nil =>
      rw [if_pos List.isEmpty_nil] at first
      simp only [List.map_cons, List.map_nil, feed_cons, feed_nil, first, List.append_nil]
      rfl
    | cons second rest =>
      rw [if_neg (by simp)] at first
      have later := ih
        (c := { c.note job index (statusCode (own index)) (own index) with pending := second :: rest })
        ⟨waiting.stage, waiting.code, waiting.lines⟩ rfl (by simp)
        fun i mem => good i (List.mem_cons_of_mem _ mem)
      simp only [List.map_cons] at later ⊢
      rw [feed_cons, first, later]
      rfl

/-- As long as replies are missing, or once one of them is too long, the client says nothing. One
that is too long ends the call with an error. -/
theorem feed_replies_silent (waiting : Waiting c .replies) (replies : ∀ l ∈ ls, IsReply l)
    (enough : ls.length ≤ c.pending.length)
    (silent : ls.length < c.pending.length ∨ ∃ l ∈ ls, ¬Fits l) :
    ∃ c', feed (receive job) c ls = (c', []) ∧ c'.awaited = c.awaited ∧
      ((∃ l ∈ ls, ¬Fits l) → ∃ error, c'.stage = .finished (.error error)) := by
  induction ls generalizing c with
  | nil => exact ⟨c, rfl, rfl, fun ⟨_, mem, _⟩ => nomatch mem⟩
  | cons l rest ih =>
    by_cases fits : Fits l
    · have later : (∃ other ∈ l :: rest, ¬Fits other) → ∃ other ∈ rest, ¬Fits other := by
        rintro ⟨other, mem, tooLong⟩
        obtain rfl | mem := List.mem_cons.mp mem
        · exact absurd fits tooLong
        · exact ⟨other, mem, tooLong⟩
      have first := receive_reply job waiting (fun _ => nofun) (replies l List.mem_cons_self) fits
      cases pending : c.pending with
      | nil => simp [pending] at enough
      | cons index indices =>
        simp only [pending, List.length_cons, Nat.add_le_add_iff_right, Nat.add_lt_add_iff_right]
          at enough silent
        have silent' := silent.imp_right later
        have several : indices.isEmpty = false := by
          cases indices with
          | nil =>
            obtain short | ⟨other, mem, -⟩ := silent'
            · simp at short
            · exact absurd (List.length_pos_of_mem mem) (by simpa using enough)
          | cons => rfl
        rw [respond_replies job waiting.stage pending, several] at first
        obtain ⟨c', fed, awaited, ended⟩ := ih
          (c := { c.note job index (statusCode l) l with pending := indices })
          ⟨waiting.stage, waiting.code, waiting.lines⟩
          (fun l mem => replies l (List.mem_cons_of_mem _ mem)) enough silent'
        exact ⟨c', by simp [feed_cons, first, fed], awaited, fun long => ended (later long)⟩
    · obtain ⟨error, first⟩ := receive_tooLong job waiting (fun _ => ⟨nofun, nofun⟩) fits
      refine ⟨{ c with stage := .finished (.error error) }, ?_, rfl, fun _ => ⟨error, rfl⟩⟩
      rw [feed_cons, first, feed_finished job rfl]
      rfl

end LmtpClient

end MailStack.Lmtp
