import MailStack.Queue.Transport

/-! What the replies of a server mean for each recipient: who is accepted, who failed, and for whom
the failure is final. -/

namespace MailStack.Queue

open Lib Smtp

/-! ### The replies of a session -/

/-- Reply number `k` of those that are still to come. -/
def replyAt (replies : List (Except TransportError Response)) (k : Nat) :
    Except TransportError Response :=
  replies.getD k (.error connectionClosed)

theorem replyAt_drop (replies : List (Except TransportError Response)) (n k : Nat) :
    replyAt (replies.drop n) k = replyAt replies (n + k) := by
  simp [replyAt, List.getD_eq_getElem?_getD]

theorem readResponse_spec (session : SmtpSession) :
    (session.readResponse).2.replies = session.replies.drop 1 ∧
      ((∃ response, replyAt session.replies 0 = .ok response ∧
        (session.readResponse).1 = .ok response) ∨
      ∃ e, replyAt session.replies 0 = .error e ∧ (session.readResponse).1 = .error e.toSmtp) := by
  unfold SmtpSession.readResponse replyAt
  cases replies : session.replies with
  | nil => exact ⟨by simp [replies], .inr ⟨_, rfl, rfl⟩⟩
  | cons reply rest =>
    cases reply with
    | error e => exact ⟨rfl, .inr ⟨e, rfl, rfl⟩⟩
    | ok response => exact ⟨rfl, .inl ⟨response, rfl, rfl⟩⟩

theorem command_spec (session : SmtpSession) (line : String) :
    (∃ response session', replyAt session.replies 0 = .ok response ∧
      session.command line = (.ok response, session') ∧
      session'.replies = session.replies.drop 1) ∨
    ∃ e session', replyAt session.replies 0 = .error e ∧
      session.command line = (.error e.toSmtp, session') := by
  obtain ⟨rest, ⟨response, reply, result⟩ | ⟨e, reply, result⟩⟩ :=
    readResponse_spec { session with sent := session.sent ++ [line] }
  · exact .inl ⟨response, _, reply, Prod.ext result rfl, rest⟩
  · exact .inr ⟨e, _, reply, Prod.ext result rfl⟩

/-! ### The replies to RCPT -/

def RcptAnswers.noteAll (answers : RcptAnswers) (rcpts : List (String × Response)) : RcptAnswers :=
  rcpts.foldl (fun answers rcpt => answers.note rcpt.1 rcpt.2) answers

def Passing (e : SmtpError) : Prop := (classifySmtpError e).failureClass = .transient

theorem passing_transport (e : TransportError) : Passing e.toSmtp := by
  cases e <;> rfl

theorem checkedAddr_cases (addr : String) :
    checkedAddr addr = .ok addr ∨ ∃ e, checkedAddr addr = .error e ∧ Passing e := by
  unfold checkedAddr
  split
  · exact .inr ⟨_, rfl, rfl⟩
  · exact .inl rfl

theorem rcptLoop_spec (recipients : List String) (answers : RcptAnswers) (session : SmtpSession) :
    (∃ rcpt session', (∀ r ∈ recipients, checkedAddr r = .ok r) ∧
      rcpt.length = recipients.length ∧
      (∀ k (h : k < rcpt.length), replyAt session.replies k = .ok rcpt[k]) ∧
      rcptLoop recipients answers session =
        (.ok (RcptAnswers.noteAll answers (recipients.zip rcpt)), session') ∧
      session'.replies = session.replies.drop recipients.length) ∨
    ∃ e session', rcptLoop recipients answers session = (.error e, session') ∧ Passing e ∧
      ((∃ r ∈ recipients, checkedAddr r ≠ .ok r) ∨
        ∃ k < recipients.length, ∃ e, replyAt session.replies k = .error e) := by
  induction recipients generalizing answers session with
  | nil => exact .inl ⟨[], session, nofun, rfl, nofun, rfl, rfl⟩
  | cons r rest ih =>
    simp only [rcptLoop]
    rcases checkedAddr_cases r with good | ⟨e, bad, passing⟩
    · rw [good]
      rcases command_spec session ("RCPT TO:<" ++ r ++ ">") with
        ⟨response, next, reply, result, replies⟩ | ⟨e, next, reply, result⟩
      · simp only [result]
        rcases ih (answers.note r response) next with
          ⟨rcpt, last, addresses, length, each, run, after⟩ | ⟨e, last, run, passing, why⟩
        · refine .inl ⟨response :: rcpt, last, List.forall_mem_cons.mpr ⟨good, addresses⟩,
            by simp [length], ?_, run, ?_⟩
          · intro k h
            cases k with
            | zero => exact reply
            | succ k =>
              have later := each k (by simpa using h)
              rwa [replies, replyAt_drop, Nat.add_comm] at later
          · rw [after, replies, List.drop_drop, List.length_cons, Nat.add_comm]
        · refine .inr ⟨e, last, run, passing, why.imp ?_ ?_⟩
          · rintro ⟨r', mem, bad⟩
            exact ⟨r', List.mem_cons_of_mem _ mem, bad⟩
          · rintro ⟨k, short, e, broken⟩
            rw [replies, replyAt_drop] at broken
            exact ⟨1 + k, by simp; omega, e, broken⟩
      · simp only [result]
        exact .inr ⟨_, next, rfl, passing_transport e, .inr ⟨0, by simp, e, reply⟩⟩
    · rw [bad]
      exact .inr ⟨e, session, rfl, passing, .inl ⟨r, List.mem_cons_self, by simp [bad]⟩⟩

def RefusesForNow (response : Response) : Bool :=
  !response.isPositiveCompletion && response.code < 500

def RefusesForGood (response : Response) : Bool :=
  !response.isPositiveCompletion && response.code ≥ 500

theorem noteAll_eq (rcpts : List (String × Response)) (answers : RcptAnswers) :
    RcptAnswers.noteAll answers rcpts =
      { accepted :=
          answers.accepted ++ (rcpts.filter (·.2.isPositiveCompletion)).map (·.1)
        firstTransient :=
          answers.firstTransient <|> (rcpts.find? (RefusesForNow ·.2)).map (·.2)
        firstPermanent :=
          answers.firstPermanent <|> (rcpts.find? (RefusesForGood ·.2)).map (·.2) } := by
  induction rcpts generalizing answers with
  | nil => simp [RcptAnswers.noteAll]
  | cons rcpt rest ih =>
    rw [RcptAnswers.noteAll, List.foldl_cons, ← RcptAnswers.noteAll, ih, RcptAnswers.note]
    by_cases completes : rcpt.2.isPositiveCompletion = true
    · simp [completes, RefusesForNow, RefusesForGood]
    · by_cases good : rcpt.2.code ≥ 500
      · simp [completes, good, RefusesForNow, RefusesForGood]
      · simp [completes, good, RefusesForNow, RefusesForGood, Nat.lt_of_not_le good]

variable {rcpts : List (String × Response)} {outcome : Except SmtpError MessageOutcome}
  {refusal : Response} {i : Nat}

theorem rejection_of_none
    (h : (RcptAnswers.noteAll {} rcpts).rejection = none) {rcpt : String × Response}
    (mem : rcpt ∈ rcpts) : rcpt.2.isPositiveCompletion = true := by
  rw [noteAll_eq] at h
  simp only [RcptAnswers.rejection, Option.orElse_eq_orElse, Option.orElse_eq_or, Option.none_or,
    Option.or_eq_none_iff, Option.map_eq_none_iff, List.find?_eq_none] at h
  by_contra refused
  by_cases good : rcpt.2.code ≥ 500
  · exact h.2 rcpt mem (by simp [RefusesForGood, refused, good])
  · exact h.1 rcpt mem (by simp [RefusesForNow, refused, Nat.lt_of_not_le good])

theorem rejection_of_some
    (h : (RcptAnswers.noteAll {} rcpts).rejection = some refusal) :
    (∃ rcpt ∈ rcpts, rcpt.2 = refusal ∧ refusal.isPositiveCompletion = false) ∧
      ((∃ rcpt ∈ rcpts, RefusesForNow rcpt.2 = true) → refusal.code < 500) := by
  rw [noteAll_eq] at h
  simp only [RcptAnswers.rejection, Option.orElse_eq_orElse, Option.orElse_eq_or, Option.none_or,
    Option.or_eq_some_iff, Option.map_eq_some_iff, Option.map_eq_none_iff, List.find?_eq_none] at h
  rcases h with ⟨rcpt, found, rfl⟩ | ⟨none, rcpt, found, rfl⟩
  · have refuses := List.find?_some found
    simp only [RefusesForNow, Bool.and_eq_true, Bool.not_eq_true', decide_eq_true_eq] at refuses
    exact ⟨⟨rcpt, List.mem_of_find?_eq_some found, rfl, refuses.1⟩, fun _ => refuses.2⟩
  · have refuses := List.find?_some found
    simp only [RefusesForGood, Bool.and_eq_true, Bool.not_eq_true'] at refuses
    refine ⟨⟨rcpt, List.mem_of_find?_eq_some found, rfl, refuses.1⟩, ?_⟩
    rintro ⟨other, mem, now⟩
    exact absurd now (none other mem)

variable {r : String}

theorem mem_accepted :
    r ∈ (RcptAnswers.noteAll {} rcpts).accepted ↔
      ∃ response, (r, response) ∈ rcpts ∧ response.isPositiveCompletion = true := by
  rw [noteAll_eq]
  simp

/-! ### The accounts -/

def Completes (reply : Except TransportError Response) : Prop :=
  ∃ response, reply = .ok response ∧ response.isPositiveCompletion = true

def Rejects (reply : Except TransportError Response) : Prop :=
  ∃ response, reply = .ok response ∧ 500 ≤ response.code ∧ response.code < 600

def Defers (reply : Except TransportError Response) : Prop :=
  ∃ response, reply = .ok response ∧ 400 ≤ response.code ∧ response.code < 500

def GoesAhead (reply : Except TransportError Response) : Prop :=
  ∃ response, reply = .ok response ∧ response.code = 354

def Breaks (reply : Except TransportError Response) : Prop := ∃ e, reply = .error e

/-- The reply that decides for recipient number `i` of `n`. The replies are those to MAIL, to each
RCPT, to DATA and to the message. A break before the message hits everybody. -/
def decisive (n : Nat) (replies : List (Except TransportError Response)) (i : Nat) :
    Except TransportError Response :=
  match replyAt replies 0 with
  | .error e => .error e
  | .ok mail =>
    if !mail.isPositiveCompletion then .ok mail
    else
      match (List.range n).findSome? fun k =>
          match replyAt replies (k + 1) with
          | .error e => some e
          | .ok _ => none with
      | some e => .error e
      | none =>
        match replyAt replies (i + 1) with
        | .error e => .error e
        | .ok rcpt =>
          if !rcpt.isPositiveCompletion then .ok rcpt
          else
            match replyAt replies (n + 1) with
            | .error e => .error e
            | .ok dataCmd => if dataCmd.code ≠ 354 then .ok dataCmd else replyAt replies (n + 2)

def failedBy (recipients : List String) : DeliveryResult → List String
  | .ok _ => []
  | .error failure => failedOf recipients failure

def rejectedBy (recipients : List String) : DeliveryResult → List String
  | .ok _ => []
  | .error failure =>
    if failure.failureClass = .permanent then failedOf recipients failure else []

/-- Every recipient is accepted or failed and not both, is accepted only if its RCPT and the message
were, and does not fail for good if its decisive reply was a deferral or a break. -/
structure OutcomeAccounted (recipients : List String)
    (replies : List (Except TransportError Response)) (result : DeliveryResult) : Prop where
  parts : ∀ r ∈ recipients, r ∈ failedBy recipients result ↔ r ∉ acceptedBy recipients result
  within : acceptedBy recipients result ⊆ recipients
  accepted : ∀ i r, recipients[i]? = some r → r ∈ acceptedBy recipients result →
    Completes (replyAt replies (i + 1)) ∧ Completes (replyAt replies (recipients.length + 2))
  deferred : ∀ i r, recipients[i]? = some r →
    (Defers (decisive recipients.length replies i) ∨ Breaks (decisive recipients.length replies i)) →
    r ∉ rejectedBy recipients result

/-- One recipient is deferred, another accepted, and then the message is rejected. -/
structure RejectedAfterDeferral (mailFrom : String) (recipients : List String)
    (replies : List (Except TransportError Response)) : Prop where
  sender : checkedAddr mailFrom = .ok mailFrom
  addresses : ∀ r ∈ recipients, checkedAddr r = .ok r
  mail : Completes (replyAt replies 0)
  unbroken : ∀ k < recipients.length, ¬Breaks (replyAt replies (k + 1))
  deferred : ∃ k < recipients.length, Defers (replyAt replies (k + 1))
  accepted : ∃ k < recipients.length, Completes (replyAt replies (k + 1))
  rejected : Rejects (replyAt replies (recipients.length + 1)) ∨
    GoesAhead (replyAt replies (recipients.length + 1)) ∧
      Rejects (replyAt replies (recipients.length + 2))

/-! ### What becomes of a message -/

/-- `rcpt` are the replies to each RCPT. -/
structure Answered (mailFrom : String) (recipients : List String)
    (replies : List (Except TransportError Response)) (rcpt : List Response) : Prop where
  sender : checkedAddr mailFrom = .ok mailFrom
  addresses : ∀ r ∈ recipients, checkedAddr r = .ok r
  length : rcpt.length = recipients.length
  mail : Completes (replyAt replies 0)
  each : ∀ k (h : k < rcpt.length), replyAt replies (k + 1) = .ok rcpt[k]

variable {response : Response}

theorem mem_zip_iff {recipients : List String} {rcpt : List Response} :
    (r, response) ∈ recipients.zip rcpt ↔
      ∃ i : Nat, recipients[i]? = some r ∧ rcpt[i]? = some response := by
  rw [List.mem_iff_getElem?]
  simp [List.getElem?_zip_eq_some]

theorem Answered.none_accepted {mailFrom : String} {recipients : List String}
    {replies : List (Except TransportError Response)} {rcpt : List Response}
    (h : Answered mailFrom recipients replies rcpt)
    (none : (RcptAnswers.noteAll {} (recipients.zip rcpt)).accepted = []) :
    ∀ response ∈ rcpt, response.isPositiveCompletion = false := by
  intro response mem
  obtain ⟨i, found⟩ := List.mem_iff_getElem?.mp mem
  obtain ⟨short, -⟩ := List.getElem?_eq_some_iff.mp found
  rw [h.length] at short
  by_contra completes
  have accepted := mem_accepted.mpr ⟨response,
    mem_zip_iff.mpr ⟨i, List.getElem?_eq_getElem short, found⟩, by simpa using completes⟩
  rw [none] at accepted
  exact absurd accepted List.not_mem_nil

/-- If nobody is refused alone, somebody is accepted. -/
theorem Answered.some_accepted {mailFrom : String} {recipients : List String}
    {replies : List (Except TransportError Response)} {rcpt : List Response}
    (h : Answered mailFrom recipients replies rcpt) (nonempty : recipients ≠ [])
    (other : ∀ response, (RcptAnswers.noteAll {} (recipients.zip rcpt)).accepted = [] →
      (RcptAnswers.noteAll {} (recipients.zip rcpt)).rejection = some response → False) :
    ∃ response ∈ rcpt, response.isPositiveCompletion = true := by
  cases accepted : (RcptAnswers.noteAll {} (recipients.zip rcpt)).accepted with
  | nil =>
    cases rejection : (RcptAnswers.noteAll {} (recipients.zip rcpt)).rejection with
    | some response => exact absurd rejection (other response accepted)
    | none =>
      have long : 0 < recipients.length := List.length_pos_of_ne_nil nonempty
      have long' : 0 < rcpt.length := h.length ▸ long
      refine ⟨rcpt[0], List.getElem_mem long', ?_⟩
      have answered : (recipients[0], rcpt[0]) ∈ recipients.zip rcpt :=
        mem_zip_iff.mpr ⟨0, List.getElem?_eq_getElem long, List.getElem?_eq_getElem long'⟩
      exact rejection_of_none rejection answered
  | cons r rest =>
    obtain ⟨response, mem, completes⟩ := mem_accepted.mp (accepted ▸ List.mem_cons_self)
    exact ⟨response, (List.of_mem_zip mem).2, completes⟩

/-- The ways a message can go: the session breaks, the sender is refused, or the recipients are
answered and all refused, or the message is refused, or it is taken. -/
inductive Sent (mailFrom : String) (recipients : List String)
    (replies : List (Except TransportError Response)) : Except SmtpError MessageOutcome → Prop
  | broken {e} (passing : Passing e)
      (apart : ¬RejectedAfterDeferral mailFrom recipients replies) :
      Sent mailFrom recipients replies (.error e)
  | mailRefused {mail permanent} (reply : replyAt replies 0 = .ok mail)
      (refused : mail.isPositiveCompletion = false) :
      Sent mailFrom recipients replies (.ok (.rejected mail permanent []))
  | nobody {response permanent} (none : recipients = []) :
      Sent mailFrom recipients replies (.ok (.rejected response permanent []))
  | allRefused {rcpt response permanent} (answered : Answered mailFrom recipients replies rcpt)
      (none : ∀ response ∈ rcpt, response.isPositiveCompletion = false)
      (first : (RcptAnswers.noteAll {} (recipients.zip rcpt)).rejection = some response) :
      Sent mailFrom recipients replies (.ok (.rejected response permanent []))
  | messageRefused {rcpt response permanent} (answered : Answered mailFrom recipients replies rcpt)
      (some : ∃ response ∈ rcpt, response.isPositiveCompletion = true)
      (reply : replyAt replies (recipients.length + 1) = .ok response ∧ response.code ≠ 354 ∨
        GoesAhead (replyAt replies (recipients.length + 1)) ∧
          replyAt replies (recipients.length + 2) = .ok response ∧
          response.isPositiveCompletion = false) :
      Sent mailFrom recipients replies (.ok (.rejected response permanent []))
  | taken {rcpt response} (answered : Answered mailFrom recipients replies rcpt)
      (ahead : GoesAhead (replyAt replies (recipients.length + 1)))
      (completes : Completes (replyAt replies (recipients.length + 2)))
      (all : (RcptAnswers.noteAll {} (recipients.zip rcpt)).rejection = none) :
      Sent mailFrom recipients replies (.ok (.accepted response))
  | partly {rcpt refusal permanent} (answered : Answered mailFrom recipients replies rcpt)
      (ahead : GoesAhead (replyAt replies (recipients.length + 1)))
      (completes : Completes (replyAt replies (recipients.length + 2)))
      (first : (RcptAnswers.noteAll {} (recipients.zip rcpt)).rejection = some refusal) :
      Sent mailFrom recipients replies
        (.ok (.rejected refusal permanent (RcptAnswers.noteAll {} (recipients.zip rcpt)).accepted))

theorem sendData_sent {mailFrom : String} {recipients : List String}
    {replies : List (Except TransportError Response)} {rcpt : List Response}
    (answered : Answered mailFrom recipients replies rcpt)
    (some : ∃ response ∈ rcpt, response.isPositiveCompletion = true) (session : SmtpSession)
    (rest : session.replies = replies.drop (recipients.length + 1)) (data : String) :
    Sent mailFrom recipients replies
      (sendData session (RcptAnswers.noteAll {} (recipients.zip rcpt)) data).1 := by
  unfold sendData
  rcases command_spec session "DATA" with ⟨dataCmd, next, reply, run, after⟩ | ⟨e, next, reply, run⟩
  · rw [rest, replyAt_drop, Nat.add_zero] at reply
    simp only [run]
    split
    · rename_i other
      exact .messageRefused answered some (.inl ⟨reply, other⟩)
    · rename_i ahead
      rw [not_not] at ahead
      have waiting : next.replies = replies.drop (recipients.length + 2) := by
        rw [after, rest, List.drop_drop]
      obtain ⟨-, ⟨response, final, result⟩ | ⟨e, final, result⟩⟩ :=
        readResponse_spec { next with sent := next.sent ++ [terminateData data] }
      · rw [waiting, replyAt_drop, Nat.add_zero] at final
        generalize SmtpSession.readResponse _ = read at result ⊢
        obtain ⟨_, last⟩ := read
        cases result
        simp only
        by_cases completes : response.isPositiveCompletion = true
        · rw [if_pos completes]
          split
          · rename_i all
            exact .taken answered ⟨dataCmd, reply, ahead⟩ ⟨response, final, completes⟩ all
          · rename_i refusal first
            exact .partly answered ⟨dataCmd, reply, ahead⟩ ⟨response, final, completes⟩ first
        · rw [if_neg completes]
          exact .messageRefused answered some
            (.inr ⟨⟨dataCmd, reply, ahead⟩, final, by simpa using completes⟩)
      · rw [waiting, replyAt_drop, Nat.add_zero] at final
        generalize SmtpSession.readResponse _ = read at result ⊢
        obtain ⟨_, last⟩ := read
        cases result
        refine .broken (passing_transport e) fun mixed => ?_
        rcases mixed.rejected with ⟨response, eq, high, -⟩ | ⟨-, response, eq, -⟩
        · rw [reply] at eq
          cases eq
          omega
        · rw [final] at eq
          cases eq
  · rw [rest, replyAt_drop, Nat.add_zero] at reply
    simp only [run]
    refine .broken (passing_transport e) fun mixed => ?_
    rcases mixed.rejected with ⟨response, eq, -⟩ | ⟨⟨response, eq, -⟩, -⟩ <;>
      · rw [reply] at eq
        cases eq

theorem sendMessageDetailed_sent (session : SmtpSession) (mailFrom : String)
    (recipients : List String) (data : String) :
    Sent mailFrom recipients session.replies
      (sendMessageDetailed session mailFrom recipients data).1 := by
  unfold sendMessageDetailed
  rcases checkedAddr_cases mailFrom with good | ⟨e, bad, passing⟩
  · rw [good]
    simp only
    rcases command_spec session ("MAIL FROM:<" ++ mailFrom ++ ">") with
      ⟨mail, next, reply, run, rest⟩ | ⟨e, next, reply, run⟩
    · simp only [run]
      by_cases completes : mail.isPositiveCompletion = true
      · by_cases none : recipients = []
        · subst none
          simp only [completes, Bool.not_true, Bool.false_eq_true, if_false, List.isEmpty_nil,
            if_true]
          exact .nobody rfl
        · have some : recipients.isEmpty = false := by simpa using none
          simp only [completes, some, Bool.not_true, Bool.false_eq_true, if_false]
          have taken : Completes (replyAt session.replies 0) := ⟨mail, reply, completes⟩
          rcases rcptLoop_spec recipients {} next with
            ⟨rcpt, last, addresses, length, each, loop, after⟩ | ⟨e, last, loop, passing, why⟩
          · simp only [loop]
            have answered : Answered mailFrom recipients session.replies rcpt := by
              refine ⟨good, addresses, length, taken, fun k h => ?_⟩
              have reply := each k h
              rwa [rest, replyAt_drop, Nat.add_comm] at reply
            split
            · rename_i response empty first
              exact .allRefused answered (answered.none_accepted empty) first
            · rename_i answers
              refine sendData_sent answered ?_ last ?_ data
              · exact answered.some_accepted none answers
              · rw [after, rest, List.drop_drop, Nat.add_comm]
          · simp only [loop]
            refine .broken passing fun mixed => ?_
            rcases why with ⟨r, mem, bad⟩ | ⟨k, short, e, broken⟩
            · exact bad (mixed.addresses r mem)
            · rw [rest, replyAt_drop, Nat.add_comm] at broken
              exact mixed.unbroken k short ⟨e, broken⟩
      · have refused : mail.isPositiveCompletion = false := by simpa using completes
        simp only [refused, Bool.not_false, if_true]
        exact .mailRefused reply refused
    · simp only [run]
      refine .broken (passing_transport e) fun mixed => ?_
      obtain ⟨response, eq, -⟩ := mixed.mail
      rw [reply] at eq
      cases eq
  · rw [bad]
    refine .broken passing fun mixed => ?_
    rw [mixed.sender] at bad
    cases bad

/-! ### The accounts of a message -/

section Accounts

variable {mailFrom : String} {recipients : List String}
  {replies : List (Except TransportError Response)} {rcpt : List Response}

theorem Answered.decisive_eq (h : Answered mailFrom recipients replies rcpt)
    (here : rcpt[i]? = some response) :
    decisive recipients.length replies i =
      if response.isPositiveCompletion then
        match replyAt replies (recipients.length + 1) with
        | .error e => .error e
        | .ok dataCmd =>
          if dataCmd.code ≠ 354 then .ok dataCmd else replyAt replies (recipients.length + 2)
      else .ok response := by
  obtain ⟨short, rfl⟩ := List.getElem?_eq_some_iff.mp here
  obtain ⟨mail, reply, completes⟩ := h.mail
  have unbroken : ((List.range recipients.length).findSome? fun k =>
      match replyAt replies (k + 1) with
      | .error e => some e
      | .ok _ => none) = none := by
    rw [List.findSome?_eq_none_iff]
    intro k mem
    rw [h.each k (by rw [h.length]; exact List.mem_range.mp mem)]
  rw [decisive, reply]
  simp only [completes, Bool.not_true, Bool.false_eq_true, if_false]
  rw [unbroken, h.each i short]
  simp only
  cases rcpt[i].isPositiveCompletion <;> rfl

theorem Answered.rcpt_of (h : Answered mailFrom recipients replies rcpt)
    (here : recipients[i]? = some r) :
    ∃ response, rcpt[i]? = some response ∧ replyAt replies (i + 1) = .ok response := by
  obtain ⟨short, -⟩ := List.getElem?_eq_some_iff.mp here
  rw [← h.length] at short
  exact ⟨rcpt[i], List.getElem?_eq_getElem short, h.each i short⟩

theorem refusal_of_deferred
    (first : (RcptAnswers.noteAll {} (recipients.zip rcpt)).rejection = some refusal)
    (here : recipients[i]? = some r)
    (answer : rcpt[i]? = some response) (defers : Defers (.ok response)) :
    classifyCode refusal.code = .transient := by
  obtain ⟨_, eq, low, high⟩ := defers
  cases eq
  have now : RefusesForNow response = true := by
    simp only [RefusesForNow, Response.isPositiveCompletion, Bool.and_eq_true, Bool.not_eq_true',
      Bool.and_eq_false_iff, decide_eq_false_iff_not, decide_eq_true_eq]
    omega
  have less := (rejection_of_some first).2
    ⟨(r, response), mem_zip_iff.mpr ⟨i, here, answer⟩, now⟩
  rw [classifyCode, if_neg (by omega)]

theorem refusal_accounted {failure : DeliveryFailure} (none : failure.accepted = [])
    (h : failure.failureClass = .permanent → ∀ i r, recipients[i]? = some r →
      ¬(Defers (decisive recipients.length replies i) ∨
        Breaks (decisive recipients.length replies i))) :
    OutcomeAccounted recipients replies (.error failure) := by
  refine ⟨fun r mem => by simp [failedBy, failedOf, acceptedBy, none, mem], by simp [acceptedBy, none],
    fun i r _ mem => by simp [acceptedBy, none] at mem, fun i r here waits => ?_⟩
  simp only [rejectedBy]
  split
  · rename_i final
    exact absurd waits (h final i r here)
  · exact List.not_mem_nil

theorem classifyCode_permanent {code : Nat} :
    classifyCode code = .permanent ↔ 500 ≤ code ∧ code < 600 := by
  unfold classifyCode
  split <;> simp_all

theorem not_waiting_of_high (high : 500 ≤ response.code) :
    ¬(Defers (.ok response) ∨ Breaks (.ok response)) := by
  rintro (⟨_, eq, -, low⟩ | ⟨e, eq⟩)
  · cases eq
    omega
  · cases eq

/-- The accounts are right unless the message is rejected after a recipient was deferred. -/
theorem Sent.accounted (unique : recipients.Nodup)
    (sent : Sent mailFrom recipients replies outcome)
    (apart : ¬RejectedAfterDeferral mailFrom recipients replies) :
    OutcomeAccounted recipients replies (settleOutcome recipients outcome) := by
  cases sent with
  | broken passing _ =>
    refine refusal_accounted ?_ fun final => ?_
    · unfold classifySmtpError
      split <;> rfl
    · rw [passing] at final
      cases final
  | @mailRefused mail _ reply refused =>
    refine refusal_accounted rfl fun final i r _ => ?_
    have decided : decisive recipients.length replies i = .ok mail := by
      simp [decisive, reply, refused]
    rw [decided]
    exact not_waiting_of_high (classifyCode_permanent.mp final).1
  | nobody none =>
    subst none
    exact refusal_accounted rfl fun _ i r here => by simp at here
  | allRefused answered none first =>
    refine refusal_accounted rfl fun final i r here waits => ?_
    obtain ⟨response, answer, -⟩ := answered.rcpt_of here
    rw [answered.decisive_eq answer, none response (List.mem_of_getElem? answer)] at waits
    simp only [Bool.false_eq_true, if_false] at waits
    rcases waits with defers | ⟨e, eq⟩
    · have passing := refusal_of_deferred first here answer defers
      rw [show classifyCode _ = _ from final] at passing
      cases passing
    · cases eq
  | @messageRefused rcpt response _ answered some reply =>
    refine refusal_accounted rfl fun final i r here waits => ?_
    have high := classifyCode_permanent.mp final
    obtain ⟨answer, found, said⟩ := answered.rcpt_of here
    rw [answered.decisive_eq found] at waits
    by_cases completes : answer.isPositiveCompletion = true
    · -- the message's own reply decides
      rw [if_pos completes] at waits
      refine not_waiting_of_high high.1 ?_
      rcases reply with ⟨eq, other⟩ | ⟨⟨go, eq, ahead⟩, eq', -⟩
      · simpa only [eq, other, ne_eq, not_false_eq_true, if_true] using waits
      · simpa only [eq, ahead, ne_eq, not_true_eq_false, if_false, eq'] using waits
    · rw [if_neg completes] at waits
      rcases waits with defers | ⟨e, eq⟩
      · refine apart ⟨answered.sender, answered.addresses, answered.mail, fun k short broken => ?_,
          ⟨i, (List.getElem?_eq_some_iff.mp here).1, said ▸ defers⟩, ?_, ?_⟩
        · obtain ⟨e, broken⟩ := broken
          rw [answered.each k (answered.length ▸ short)] at broken
          cases broken
        · obtain ⟨good, mem, completes⟩ := some
          obtain ⟨k, short, rfl⟩ := List.mem_iff_getElem.mp mem
          exact ⟨k, answered.length ▸ short, _, answered.each k short, completes⟩
        · rcases reply with ⟨eq, -⟩ | ⟨ahead, eq, -⟩
          · exact .inl ⟨response, eq, high⟩
          · exact .inr ⟨ahead, response, eq, high⟩
      · cases eq
  | @taken rcpt _ answered ahead completes all =>
    have everybody : acceptedBy recipients (.ok { accepted := recipients.length }) = recipients :=
      if_pos rfl
    refine ⟨fun r mem => ?_, fun r mem => ?_, fun i r here _ => ⟨?_, completes⟩,
      fun _ _ _ _ => List.not_mem_nil⟩
    · simp [settleOutcome, everybody, failedBy, mem]
    · rwa [settleOutcome, everybody] at mem
    · obtain ⟨response, found, said⟩ := answered.rcpt_of here
      exact ⟨response, said, rejection_of_none all (mem_zip_iff.mpr ⟨i, here, found⟩)⟩
  | @partly rcpt refusal _ answered ahead completes first =>
    -- an accepted recipient has the reply to its own RCPT
    have own : ∀ (i : Nat) r response, recipients[i]? = some r → rcpt[i]? = some response →
        (r ∈ (RcptAnswers.noteAll {} (recipients.zip rcpt)).accepted ↔
          response.isPositiveCompletion = true) := by
      intro i r response here found
      constructor
      · intro mem
        obtain ⟨response', zip, completes⟩ := mem_accepted.mp mem
        obtain ⟨j, here', found'⟩ := mem_zip_iff.mp zip
        have same : j = i := by
          obtain ⟨short, eq⟩ := List.getElem?_eq_some_iff.mp here
          obtain ⟨short', eq'⟩ := List.getElem?_eq_some_iff.mp here'
          exact (unique.getElem_inj_iff).mp (eq'.trans eq.symm)
        rw [same, found] at found'
        cases found'
        exact completes
      · exact fun completes => mem_accepted.mpr ⟨response, mem_zip_iff.mpr ⟨i, here, found⟩, completes⟩
    refine ⟨fun r mem => ?_, fun r mem => ?_, fun i r here mem => ⟨?_, completes⟩,
      fun i r here waits => ?_⟩
    · simp [settleOutcome, failedBy, failedOf, acceptedBy, DeliveryFailure.withAccepted, mem]
    · obtain ⟨_, zip, -⟩ := mem_accepted.mp mem
      exact (List.of_mem_zip zip).1
    · obtain ⟨response, found, said⟩ := answered.rcpt_of here
      exact ⟨response, said, (own i r response here found).mp mem⟩
    · simp only [settleOutcome, rejectedBy]
      split
      · rename_i final
        intro failed
        obtain ⟨response, found, -⟩ := answered.rcpt_of here
        have refused : ¬response.isPositiveCompletion = true := by
          rw [← own i r response here found]
          simpa [failedOf, DeliveryFailure.withAccepted] using (List.mem_filter.mp failed).2
        rw [answered.decisive_eq found, if_neg refused] at waits
        rcases waits with defers | ⟨e, eq⟩
        · have passing := refusal_of_deferred first here found defers
          rw [show classifyCode _ = _ from final] at passing
          cases passing
        · cases eq
      · exact List.not_mem_nil

/-- After a deferral the rejection of the message fails the deferred recipient for good. -/
theorem Sent.not_accounted
    (sent : Sent mailFrom recipients replies outcome)
    (mixed : RejectedAfterDeferral mailFrom recipients replies) :
    ¬OutcomeAccounted recipients replies (settleOutcome recipients outcome) := by
  obtain ⟨k, short, answer, said, low, high⟩ := mixed.deferred
  -- a message that goes ahead and is taken is not rejected
  have taken : GoesAhead (replyAt replies (recipients.length + 1)) →
      ¬Completes (replyAt replies (recipients.length + 2)) := by
    rintro ⟨go, ahead, code⟩ ⟨final, reply, completes⟩
    rcases mixed.rejected with ⟨response, eq, above, -⟩ | ⟨-, response, eq, above, -⟩
    · rw [ahead] at eq
      cases eq
      omega
    · rw [reply] at eq
      cases eq
      simp only [Response.isPositiveCompletion, Bool.and_eq_true, decide_eq_true_eq] at completes
      omega
  cases sent with
  | broken _ apart => exact absurd mixed apart
  | mailRefused reply refused =>
    obtain ⟨mail, eq, completes⟩ := mixed.mail
    rw [reply] at eq
    cases eq
    rw [refused] at completes
    cases completes
  | nobody none =>
    subst none
    exact absurd short (Nat.not_lt_zero k)
  | @allRefused rcpt _ _ answered none _ =>
    obtain ⟨j, inside, good, reply, completes⟩ := mixed.accepted
    have inside' : j < rcpt.length := answered.length ▸ inside
    rw [answered.each j inside'] at reply
    cases reply
    rw [none _ (List.getElem_mem inside')] at completes
    cases completes
  | taken answered ahead completes all => exact absurd completes (taken ahead)
  | partly answered ahead completes first => exact absurd completes (taken ahead)
  | @messageRefused rcpt response _ answered some reply =>
    intro accounts
    have final : 500 ≤ response.code ∧ response.code < 600 := by
      rcases mixed.rejected with ⟨other, eq, range⟩ | ⟨⟨go, eq, ahead⟩, other, eq', range⟩
      · rcases reply with ⟨reply, -⟩ | ⟨⟨go, reply, ahead⟩, -⟩
        · rw [reply] at eq
          cases eq
          exact range
        · rw [reply] at eq
          cases eq
          omega
      · rcases reply with ⟨reply, notAhead⟩ | ⟨-, reply, -⟩
        · rw [reply] at eq
          cases eq
          exact absurd ahead notAhead
        · rw [reply] at eq'
          cases eq'
          exact range
    have short' : k < rcpt.length := answered.length ▸ short
    have same : rcpt[k] = answer := by
      rw [answered.each k short'] at said
      cases said
      rfl
    have refused : ¬answer.isPositiveCompletion = true := by
      simp only [Response.isPositiveCompletion, Bool.and_eq_true, decide_eq_true_eq]
      omega
    refine accounts.deferred k recipients[k] (List.getElem?_eq_getElem short) ?_ ?_
    · rw [answered.decisive_eq (by rw [List.getElem?_eq_getElem short', same]), if_neg refused]
      exact .inl ⟨answer, rfl, low, high⟩
    · have permanent : (classifyResponse response.code response.banner).failureClass = .permanent :=
        classifyCode_permanent.mpr final
      simp [settleOutcome, rejectedBy, DeliveryFailure.withAccepted, permanent, failedOf]

theorem sendMessageDetailed_accounted_iff (session : SmtpSession) (mailFrom data : String)
    (unique : recipients.Nodup) :
    OutcomeAccounted recipients session.replies
        (settleOutcome recipients (sendMessageDetailed session mailFrom recipients data).1) ↔
      ¬RejectedAfterDeferral mailFrom recipients session.replies :=
  have sent := sendMessageDetailed_sent session mailFrom recipients data
  ⟨fun accounts mixed => sent.not_accounted mixed accounts, sent.accounted unique⟩

end Accounts

end MailStack.Queue
