import MailStack.Lmtp.Conversation

/-! The part of the conversation before the message: the names, the sender, and one recipient after
the other. -/

namespace MailStack.Lmtp

open Lib Maildir Sieve Smtp Duplex

variable {σ : Type} {ctx : LmtpContext σ} {job : Delivering}

def fresh (job : Delivering) (stage : Stage) : LmtpClient :=
  { stage, code := none, lines := [], slots := job.recipients.map fun _ => none, pending := [],
    awaited := none }

theorem waiting_fresh (job : Delivering) (stage : Stage) : Waiting (fresh job stage) stage :=
  ⟨rfl, rfl, rfl⟩

theorem start_ok {c : LmtpClient} (begun : LmtpClient.start job = .ok c) :
    c = fresh job .greeting ∧ (trim job.heloName).isEmpty = false := by
  simp only [LmtpClient.start] at begun
  split at begun
  · cases begun
  · split at begun
    · cases begun
    · split at begun
      · cases begun
      · next name =>
        cases begun
        simp only [Bool.or_eq_true, not_or, Bool.not_eq_true] at name
        exact ⟨rfl, name.1.1⟩

def greeted : LmtpSession σ := { LmtpSession.start with helo := true }

theorem rcpt_command (recipient : String) :
    "RCPT TO:<" ++ recipient ++ ">" = "RCPT " ++ recipientPath recipient := by
  have head : "RCPT TO:<" = "RCPT " ++ "TO:<" := by decide
  rw [head, recipientPath]
  simp only [String.append_assoc]

theorem mail_command (job : Delivering) :
    "MAIL FROM:<" ++ job.mailFrom ++ ">" = "MAIL " ++ senderPath job := by
  have head : "MAIL FROM:<" = "MAIL " ++ "FROM:<" := by decide
  rw [head, senderPath]
  simp only [String.append_assoc]

theorem talk_greeting (deployed : ctx.config = .default) :
    Talk ctx job (connected ctx (fresh job .greeting))
      ⟨fresh job .lhlo, .start, [], ["LHLO " ++ trim job.heloName]⟩ := by
  have line : LmtpSession.greeting ctx.config = "220 mailstack LMTP ready" := by
    rw [deployed]
    decide
  have read : (fresh job .greeting).receive job "220 mailstack LMTP ready" =
      (fresh job .lhlo, ["LHLO " ++ trim job.heloName]) := by
    rw [LmtpClient.receive_reply job (waiting_fresh job .greeting) (fun _ => nofun) (by decide) (by decide)]
    have positive : isPositive (statusCode "220 mailstack LMTP ready") = true := by decide
    simp only [LmtpClient.respond, fresh, positive, if_true]
  have taken := steps_left (f := LmtpClient.receive job) (g := LmtpSession.receive ctx)
    (fresh job .greeting) .start ["220 mailstack LMTP ready"] [] []
  simp only [feed_cons, feed_nil, read, List.append_nil, List.nil_append] at taken
  rw [connected, line]
  exact taken

theorem lhlo_response (text : String) :
    LmtpClient.respond job (fresh job .lhlo) 250 text =
      (fresh job .mail, ["MAIL " ++ senderPath job]) := by
  simp only [LmtpClient.respond, fresh, mail_command]
  rfl

/-- The server names itself and what it can do, and the client names the sender. -/
theorem talk_lhlo (deployed : ctx.config = .default)
    (some_name : (trim job.heloName).isEmpty = false)
    (fits : (bytes ("LHLO " ++ trim job.heloName)).length ≤ ctx.config.maxLine) :
    Talk ctx job ⟨fresh job .lhlo, .start, [], ["LHLO " ++ trim job.heloName]⟩
      ⟨fresh job .mail, greeted, [], ["MAIL " ++ senderPath job]⟩ := by
  have answer : (LmtpSession.start (σ := σ)).receive ctx ("LHLO " ++ trim job.heloName) =
      (greeted, ["250-mailstack", "250-PIPELINING", "250-8BITMIME", "250-ENHANCEDSTATUSCODES",
        "250 SIZE 33554432"]) := by
    rw [LmtpSession.receive_lhlo rfl fits (trim_trim job.heloName), deployed]
    simp only [LmtpSession.handleLhlo, Option.elim, some_name]
    rfl
  have first : (fresh job .lhlo).receive job "250-mailstack" =
      ({ fresh job .lhlo with code := some 250, lines := ["250-mailstack"] }, []) := by
    have continued : IsContinued "250-mailstack" := by decide
    have code : statusCode "250-mailstack" = 250 := by decide
    have short : ¬(bytes "250-mailstack").length + 2 > maxResponseLineBytes := by decide
    rw [LmtpClient.receive_of_ne_finished job (fun _ done => by cases done), LmtpClient.read, if_neg short]
    simp only [trimLineEnd_eq continued.single, continued.more, code, fresh]
    rfl
  have abilities : ∀ l ∈ ["250-PIPELINING", "250-8BITMIME", "250-ENHANCEDSTATUSCODES"],
      IsContinued l ∧ Fits l := by decide
  obtain ⟨text, rest⟩ := LmtpClient.feed_continued job
    (c := { fresh job .lhlo with code := some 250, lines := ["250-mailstack"] }) _
    "250 SIZE 33554432" rfl (fun _ done => by cases done) rfl (by decide) (by decide) abilities
  have round := steps_round (f := LmtpClient.receive job) (g := LmtpSession.receive ctx)
    (fresh job .lhlo) .start ["LHLO " ++ trim job.heloName]
  have server : feed (LmtpSession.receive ctx) .start ["LHLO " ++ trim job.heloName] =
      (greeted, "250-mailstack" :: (["250-PIPELINING", "250-8BITMIME", "250-ENHANCEDSTATUSCODES"] ++
        ["250 SIZE 33554432"])) := by
    simp only [feed_cons, feed_nil, answer, List.append_nil, List.cons_append, List.nil_append]
  have client : LmtpClient.respond job { fresh job .lhlo with code := none, lines := [] } 250 text =
      (fresh job .mail, ["MAIL " ++ senderPath job]) := lhlo_response text
  rw [server, feed_cons, first, rest, client] at round
  exact round

def ready (sender : String) : LmtpSession σ :=
  { (greeted : LmtpSession σ) with mailFrom := some sender }

theorem talk_mail {sender : String} (taken_from : sentFrom ctx.config job = .ok sender)
    (fits : (bytes ("MAIL " ++ senderPath job)).length ≤ ctx.config.maxLine) :
    Talk ctx job ⟨fresh job .mail, greeted, [], ["MAIL " ++ senderPath job]⟩
      ⟨((fresh job .mail).ask job 0).1, ready sender, [], ((fresh job .mail).ask job 0).2⟩ := by
  have answer : (greeted : LmtpSession σ).receive ctx ("MAIL " ++ senderPath job) =
      (ready sender, ["250 2.1.0 Ok"]) := by
    rw [LmtpSession.receive_mail rfl fits, LmtpSession.handleMail_sentFrom rfl, taken_from]
    rfl
  have read : (fresh job .mail).receive job "250 2.1.0 Ok" = (fresh job .mail).ask job 0 := by
    rw [LmtpClient.receive_reply job (waiting_fresh job .mail) (fun _ => nofun) (by decide) (by decide)]
    have positive : isPositive (statusCode "250 2.1.0 Ok") = true := by decide
    simp only [LmtpClient.respond, fresh, positive, if_true]
  have round := steps_round (f := LmtpClient.receive job) (g := LmtpSession.receive ctx)
    (fresh job .mail) greeted ["MAIL " ++ senderPath job]
  simp only [feed_cons, feed_nil, answer, read, List.append_nil] at round
  exact round

theorem talk_mail_refused {line : String} (refused : sentFrom ctx.config job = .error line)
    (fits : (bytes ("MAIL " ++ senderPath job)).length ≤ ctx.config.maxLine) :
    ∃ error, Talk ctx job ⟨fresh job .mail, greeted, [], ["MAIL " ++ senderPath job]⟩
      ⟨fresh job (.finished (.error error)), greeted, [], []⟩ := by
  have refusal := sentFrom_refusal refused
  have answer : (greeted : LmtpSession σ).receive ctx ("MAIL " ++ senderPath job) =
      (greeted, [line]) := by
    rw [LmtpSession.receive_mail rfl fits, LmtpSession.handleMail_sentFrom rfl, refused]
    rfl
  have read : ∃ error, (fresh job .mail).receive job line =
      (fresh job (.finished (.error error)), []) := by
    rw [LmtpClient.receive_reply job (waiting_fresh job .mail) (fun _ => nofun) refusal.reply
      refusal.fits]
    simp only [LmtpClient.respond, fresh, refusal.negative]
    exact ⟨_, rfl⟩
  obtain ⟨error, read⟩ := read
  have round := steps_round (f := LmtpClient.receive job) (g := LmtpSession.receive ctx)
    (fresh job .mail) greeted ["MAIL " ++ senderPath job]
  simp only [feed_cons, feed_nil, answer, read, List.append_nil] at round
  exact ⟨error, round⟩

/-- All recipients before the place `index` were answered with their own lines, and the server has
taken those that the client has counted. -/
structure Exact (ctx : LmtpContext σ) (job : Delivering) (index : Nat) (c : LmtpClient)
    (s : LmtpSession σ) : Prop where
  recipients : s.recipients = taken ctx (job.recipients.take index)
  slots : c.slots.length = job.recipients.length
  bound : ∀ j ∈ c.pending, j < index
  lines : c.pending.map (ownLine ctx job) = s.recipients.map (deliveredLine ctx job)
  refused : ∀ j < index, j ∉ c.pending → c.slots[j]? = some (some (ownResult ctx job j))

/-- A recipient was asked for that the server had, and the client counts more recipients than the
server. -/
structure Doubled (ctx : LmtpContext σ) (job : Delivering) (index : Nat) (c : LmtpClient)
    (s : LmtpSession σ) : Prop where
  some_taken : s.recipients ≠ []
  fewer : s.recipients.length < c.pending.length
  notApart : ¬Apart ctx (job.recipients.take index)

/-- What holds when the client asks for the recipient at the place `index`. -/
structure Asked (ctx : LmtpContext σ) (job : Delivering) (sender : String) (index : Nat)
    (c : LmtpClient) (s : LmtpSession σ) : Prop where
  reading : s.reading = .command
  mailFrom : s.mailFrom = some sender
  answered : s.answered = 0
  code : c.code = none
  lines : c.lines = []
  awaited : c.awaited = none
  seen : ∀ key, key ∈ s.seen ↔ key ∈ s.recipients.map fun r => LmtpSession.seenKey r.address
  distinct : (s.recipients.map fun r => LmtpSession.seenKey r.address).Nodup
  tally : Doubled ctx job index c s ∨ Exact ctx job index c s

theorem asked_start
    (sender : String) : Asked ctx job sender 0 (fresh job .mail) (ready sender) where
  reading := rfl
  mailFrom := rfl
  answered := rfl
  code := rfl
  lines := rfl
  awaited := rfl
  seen key := by simp [ready, greeted, LmtpSession.start]
  distinct := List.nodup_nil
  tally := .inr
    { recipients := by simp [taken, ready, greeted, LmtpSession.start]
      slots := by simp [fresh]
      bound := by simp [fresh]
      lines := rfl
      refused := nofun }

variable {sender : String} {index : Nat} {c : LmtpClient} {s : LmtpSession σ}

theorem Exact.length
    (exact : Exact ctx job index c s) : c.pending.length = s.recipients.length := by
  simpa using congrArg List.length exact.lines

theorem Exact.full_iff (exact : Exact ctx job index c s) :
    s.recipients.length ≥ ctx.config.maxRecipients ↔
      ((job.recipients.take index).filterMap (routed ctx)).length ≥ ctx.config.maxRecipients := by
  rw [exact.recipients, taken, List.length_take]
  omega

theorem Exact.ownLine_eq (exact : Exact ctx job index c s) :
    ownLine ctx job index =
      match verdict ctx (s.recipients.length ≥ ctx.config.maxRecipients)
          (job.recipients[index]?.getD "") with
      | .error line => line
      | .ok recipient => deliveredLine ctx job recipient := by
  have full : decide (s.recipients.length ≥ ctx.config.maxRecipients) =
      decide (((job.recipients.take index).filterMap (routed ctx)).length ≥
        ctx.config.maxRecipients) := decide_eq_decide.mpr exact.full_iff
  simp only [full]
  rfl

variable {recipient : String}

theorem take_next (here : job.recipients[index]? = some recipient) :
    job.recipients.take (index + 1) = job.recipients.take index ++ [recipient] := by
  rw [List.take_add_one, here]
  rfl

theorem Doubled.next (doubled : Doubled ctx job index c s)
    (here : job.recipients[index]? = some recipient) : Doubled ctx job (index + 1) c s :=
  { doubled with
    notApart := fun apart => by
      rw [take_next here] at apart
      exact doubled.notApart apart.of_concat }

variable {r : Recipient σ}

theorem Exact.found (exact : Exact ctx job index c s)
    (found : verdict ctx (s.recipients.length ≥ ctx.config.maxRecipients) recipient = .ok r) :
    ((job.recipients.take index).filterMap (routed ctx)).length < ctx.config.maxRecipients ∧
      routed ctx recipient = some r := by
  have routedHere := verdict_ok_iff.mp found
  have room := of_decide_eq_false routedHere.1
  rw [exact.full_iff] at room
  exact ⟨by omega, routedHere.2⟩

section

variable (asked : Asked ctx job sender index c s)

include asked

theorem Asked.refuse {recipient line : String}
    (here : job.recipients[index]? = some recipient)
    (refused : verdict ctx (s.recipients.length ≥ ctx.config.maxRecipients) recipient =
      .error line) :
    Asked ctx job sender (index + 1)
      ({ c with stage := .rcpt index }.note job index (statusCode line) line) s :=
  { asked with
    tally := asked.tally.imp (fun doubled => { doubled.next here with }) fun exact => by
      have bound : index < job.recipients.length := (List.getElem?_eq_some_iff.mp here).1
      have own : ownLine ctx job index = line := by
        rw [exact.ownLine_eq, here, Option.getD_some, refused]
      have passed : routed ctx recipient = none ∨
          ctx.config.maxRecipients ≤
            ((job.recipients.take index).filterMap (routed ctx)).length := by
        by_cases full : s.recipients.length ≥ ctx.config.maxRecipients
        · exact .inr (exact.full_iff.mp full)
        · rw [decide_eq_false full] at refused
          rw [routed, refused]
          exact .inl rfl
      exact
        { recipients := by rw [take_next here, taken_concat_none passed, exact.recipients]
          slots := by simpa [LmtpClient.note] using exact.slots
          bound := fun j mem => Nat.lt_succ_of_lt (exact.bound j mem)
          lines := exact.lines
          refused := by
            intro j before notPending
            show (c.slots.set index _)[j]? = _
            by_cases same : j = index
            · subst same
              rw [List.getElem?_set_self (by rw [exact.slots]; exact bound), ownResult, own]
              rfl
            · rw [List.getElem?_set_ne (Ne.symm same)]
              exact exact.refused j (by omega) notPending } }

theorem Asked.again
    (here : job.recipients[index]? = some recipient)
    (found : verdict ctx (s.recipients.length ≥ ctx.config.maxRecipients) recipient = .ok r)
    (known : LmtpSession.seenKey r.address ∈ s.seen) :
    Asked ctx job sender (index + 1)
      { c with stage := .rcpt index, pending := c.pending ++ [index] } s :=
  { asked with
    tally := .inl <| by
      rw [asked.seen] at known
      obtain doubled | exact := asked.tally
      · have next := doubled.next here
        exact { next with fewer := by simpa using Nat.lt_succ_of_lt doubled.fewer }
      · refine ⟨?_, ?_, fun apart => ?_⟩
        · rintro empty
          rw [empty] at known
          cases known
        · have length := exact.length
          rw [List.length_append]
          show s.recipients.length < c.pending.length + 1
          omega
        · obtain ⟨space, routedHere⟩ := exact.found found
          rw [Apart, take_next here, taken_concat_some routedHere space, ← exact.recipients,
            List.map_append, List.nodup_append] at apart
          exact apart.2.2 _ known _ (by simp) rfl }

theorem Asked.take
    (here : job.recipients[index]? = some recipient)
    (found : verdict ctx (s.recipients.length ≥ ctx.config.maxRecipients) recipient = .ok r)
    (new : LmtpSession.seenKey r.address ∉ s.seen) :
    Asked ctx job sender (index + 1)
      { c with stage := .rcpt index, pending := c.pending ++ [index] }
      { s with
        seen := LmtpSession.seenKey r.address :: s.seen, recipients := s.recipients ++ [r] } :=
  { asked with
    seen := by
      intro key
      simp [asked.seen, or_comm]
    distinct := by
      rw [asked.seen] at new
      rw [List.map_append, List.nodup_append]
      refine ⟨asked.distinct, List.nodup_singleton _, ?_⟩
      rintro key mem other last rfl
      rw [List.map_singleton, List.mem_singleton] at last
      exact new (last ▸ mem)
    tally := by
      obtain doubled | exact := asked.tally
      · have next := doubled.next here
        exact .inl ⟨by simp, by simpa using doubled.fewer, next.notApart⟩
      · refine .inr ?_
        obtain ⟨space, routedHere⟩ := exact.found found
        have own : ownLine ctx job index = deliveredLine ctx job r := by
          rw [exact.ownLine_eq, here, Option.getD_some, found]
        exact
          { recipients := by
              rw [take_next here, taken_concat_some routedHere space, exact.recipients]
            slots := exact.slots
            bound := by
              intro j mem
              obtain mem | last := List.mem_append.mp mem
              · exact Nat.lt_succ_of_lt (exact.bound j mem)
              · rw [List.mem_singleton.mp last]
                exact Nat.lt_succ_self index
            lines := by simp [exact.lines, own]
            refused := by
              intro j before notPending
              have other : j ∉ c.pending ∧ j ≠ index := by simpa using notPending
              exact exact.refused j (by omega) other.1 } }

theorem talk_rcpt
    (here : job.recipients[index]? = some recipient)
    (fits : (bytes ("RCPT " ++ recipientPath recipient)).length ≤ ctx.config.maxLine) :
    ∃ c' s', Asked ctx job sender (index + 1) c' s' ∧
      Talk ctx job ⟨(c.ask job index).1, s, [], (c.ask job index).2⟩
        ⟨(c'.ask job (index + 1)).1, s', [], (c'.ask job (index + 1)).2⟩ := by
  have ask : c.ask job index =
      ({ c with stage := .rcpt index }, ["RCPT " ++ recipientPath recipient]) := by
    simp only [LmtpClient.ask, here, rcpt_command]
  have waiting : Waiting { c with stage := .rcpt index } (.rcpt index) :=
    ⟨rfl, asked.code, asked.lines⟩
  have round := steps_round (f := LmtpClient.receive job) (g := LmtpSession.receive ctx)
    { c with stage := .rcpt index } s ["RCPT " ++ recipientPath recipient]
  have server : s.receive ctx ("RCPT " ++ recipientPath recipient) = _ :=
    (LmtpSession.receive_rcpt asked.reading fits).trans
      (LmtpSession.handleRcpt_verdict asked.mailFrom)
  have accepted : LmtpClient.receive job { c with stage := .rcpt index } "250 2.1.5 Ok" =
      LmtpClient.ask job { c with stage := .rcpt index, pending := c.pending ++ [index] }
        (index + 1) := by
    rw [LmtpClient.receive_reply job waiting (fun _ => nofun) (by decide) (by decide)]
    have positive : isPositive (statusCode "250 2.1.5 Ok") = true := by decide
    simp only [LmtpClient.respond, positive, if_true]
  rw [ask]
  cases found : verdict ctx (s.recipients.length ≥ ctx.config.maxRecipients) recipient with
  | error line =>
    have refusal := verdict_refusal found
    refine ⟨_, s, asked.refuse here found, ?_⟩
    have refused : LmtpClient.receive job { c with stage := .rcpt index } line =
        (({ c with stage := .rcpt index } : LmtpClient).note job index (statusCode line) line).ask job
          (index + 1) := by
      rw [LmtpClient.receive_reply job waiting (fun _ => nofun) refusal.reply refusal.fits]
      simp only [LmtpClient.respond, refusal.negative]
      rfl
    rw [found] at server
    simp only [feed_cons, feed_nil, server, refused, List.append_nil] at round
    exact round
  | ok r =>
    rw [found] at server
    by_cases known : LmtpSession.seenKey r.address ∈ s.seen
    · refine ⟨_, s, asked.again here found known, ?_⟩
      simp only [if_pos (List.contains_iff_mem.mpr known)] at server
      simp only [feed_cons, feed_nil, server, accepted, List.append_nil] at round
      exact round
    · refine ⟨_, _, asked.take here found known, ?_⟩
      simp only [if_neg (fun yes => known (List.contains_iff_mem.mp yes))] at server
      simp only [feed_cons, feed_nil, server, accepted, List.append_nil] at round
      exact round

theorem talk_recipients (within : index ≤ job.recipients.length)
    (fit : ∀ recipient ∈ job.recipients,
      (bytes ("RCPT " ++ recipientPath recipient)).length ≤ ctx.config.maxLine) :
    ∃ c' s', Asked ctx job sender job.recipients.length c' s' ∧
      Talk ctx job ⟨(c.ask job index).1, s, [], (c.ask job index).2⟩
        ⟨(c'.ask job job.recipients.length).1, s', [], (c'.ask job job.recipients.length).2⟩ := by
  induction left : job.recipients.length - index generalizing index c s with
  | zero =>
    have done : index = job.recipients.length := by omega
    subst done
    exact ⟨c, s, asked, .refl⟩
  | succ n ih =>
    have bound : index < job.recipients.length := by omega
    obtain ⟨next, after, askedNext, first⟩ := talk_rcpt asked (List.getElem?_eq_getElem bound)
      (fit _ (List.getElem_mem bound))
    obtain ⟨c', s', askedLast, later⟩ := ih askedNext bound (by omega)
    exact ⟨c', s', askedLast, first.trans later⟩

end

end MailStack.Lmtp
