import MailStack.Lmtp.Recipients

/-! Where the LMTP client and the LMTP server agree on what became of each recipient. -/

namespace MailStack.Lmtp

open Lib Maildir Sieve Smtp Duplex

variable {σ : Type} {ctx : LmtpContext σ} {job : Delivering} {sender : String} {c : LmtpClient}
  {s : LmtpSession σ}

/-- The server takes the sender, after a name that the client may give. -/
def Opened (ctx : LmtpContext σ) (job : Delivering) : Prop :=
  (LmtpClient.start job).toOption.isSome ∧
    (bytes ("LHLO " ++ trim job.heloName)).length ≤ ctx.config.maxLine ∧
    (sentFrom ctx.config job).toOption.isSome

/-- The client can read the answer for each of the recipients that are taken. -/
def RepliesFit (ctx : LmtpContext σ) (job : Delivering) : Prop :=
  ∀ r ∈ taken ctx job.recipients, Fits (deliveredLine ctx job r)

theorem collect_own {slots : List (Option RecipientResult)}
    (length : slots.length = job.recipients.length)
    (all : ∀ j < job.recipients.length, slots[j]? = some (some (ownResult ctx job j))) :
    collect slots = .ok (ownResults ctx job) := by
  have shape : slots = (ownResults ctx job).map some := by
    apply List.ext_getElem?
    intro j
    by_cases bound : j < job.recipients.length
    · rw [all j bound]
      simp [ownResults, bound]
    · rw [List.getElem?_eq_none (by omega), List.getElem?_eq_none (by simp [ownResults]; omega)]
  rw [collect, shape]
  simp

variable (ctx job) in
theorem talk_quit (reading : s.reading = .command) (wide : 4 ≤ ctx.config.maxLine)
    (code : c.code = none) (lines : c.lines = [])
    (result : Except StoreError (List RecipientResult)) :
    Talk ctx job ⟨(c.leave result).1, s, [], (c.leave result).2⟩
      ⟨{ c with stage := .finished result }, { s with reading := .closed }, [], []⟩ := by
  have waiting : Waiting { c with stage := .quit result } (.quit result) := ⟨rfl, code, lines⟩
  have read : LmtpClient.receive job { c with stage := .quit result } "221 2.0.0 Bye" =
      ({ c with stage := .finished result }, []) := by
    rw [LmtpClient.receive_reply job waiting (fun _ => nofun) (by decide) (by decide)]
    rfl
  have round := steps_round (f := LmtpClient.receive job) (g := LmtpSession.receive ctx)
    { c with stage := .quit result } s ["QUIT"]
  simp only [feed_cons, feed_nil, LmtpSession.receive_quit reading wide, read,
    List.append_nil] at round
  exact round

theorem talk_data (asked : Asked ctx job sender job.recipients.length c s)
    (wide : 4 ≤ ctx.config.maxLine) (some_taken : s.recipients ≠ []) :
    Talk ctx job ⟨{ c with stage := .data }, s, [], ["DATA"]⟩
      ⟨{ c with stage := .replies, awaited := some c.pending.length },
        { s with reading := .data "" 0 false }, [], sentLines job.data ++ ["."]⟩ := by
  have answer : s.receive ctx "DATA" =
      ({ s with reading := .data "" 0 false }, ["354 End data with <CR><LF>.<CR><LF>"]) := by
    have has_some : s.recipients.isEmpty = false := by simpa using some_taken
    rw [LmtpSession.receive_data asked.reading wide]
    simp [LmtpSession.handleData, asked.mailFrom, has_some]
  have waiting : Waiting { c with stage := .data } .data := ⟨rfl, asked.code, asked.lines⟩
  have read : LmtpClient.receive job { c with stage := .data }
      "354 End data with <CR><LF>.<CR><LF>" =
      ({ c with stage := .replies, awaited := some c.pending.length },
        sentLines job.data ++ ["."]) := by
    have code : statusCode "354 End data with <CR><LF>.<CR><LF>" = 354 := by decide
    rw [LmtpClient.receive_reply job waiting (fun _ => nofun) (by decide) (by decide)]
    simp only [LmtpClient.respond, code, if_true, wireLines_payload]
  have round := steps_round (f := LmtpClient.receive job) (g := LmtpSession.receive ctx)
    { c with stage := .data } s ["DATA"]
  simp only [feed_cons, feed_nil, answer, read, List.append_nil] at round
  exact round

theorem feed_answers (asked : Asked ctx job sender job.recipients.length c s)
    (sent : sentFrom ctx.config job = .ok sender) (fit : LinesFit ctx.config job.data)
    (wide : 4 ≤ ctx.config.maxLine) :
    feed (LmtpSession.receive ctx) { s with reading := .data "" 0 false }
        (sentLines job.data ++ ["."]) =
      ({ s.resetTransaction with reading := .command, answered := s.recipients.length },
        s.recipients.map (deliveredLine ctx job)) := by
  have from_sender : s.mailFrom.getD "" = (sentFrom ctx.config job).toOption.getD "" := by
    rw [asked.mailFrom, sent]
    rfl
  rw [feed_message rfl fit (by omega)]
  simp only [from_sender, asked.answered, Nat.zero_add]
  rfl

theorem agreed_unsent {n : Conversation σ} {message : StoreError} (unsent : n.left.awaited = none)
    (failed : outcome n = .error message) : Agreed ctx job n where
  counts awaited sent := by
    rw [unsent] at sent
    cases sent
  own results told := by
    rw [failed] at told
    cases told

theorem Exact.all (exact : Exact ctx job job.recipients.length c s) :
    s.recipients = taken ctx job.recipients := by
  rw [exact.recipients, List.take_length]

variable {begin : LmtpClient}

section Asked

variable (begun : LmtpClient.start job = .ok begin)
  (asked : Asked ctx job sender job.recipients.length c s)

include begun asked

/-- If no recipient is taken, the client has their refusals. -/
theorem agree_of_none_taken (talk : Talk ctx job (connected ctx begin)
      ⟨(c.ask job job.recipients.length).1, s, [], (c.ask job job.recipients.length).2⟩)
    (wide : 4 ≤ ctx.config.maxLine) (none_pending : c.pending = []) :
    taken ctx job.recipients = [] ∧ Agree ctx job := by
  have exact : Exact ctx job job.recipients.length c s := by
    obtain doubled | exact := asked.tally
    · have fewer := doubled.fewer
      simp [none_pending] at fewer
    · exact exact
  have none_taken : taken ctx job.recipients = [] := by
    have length := exact.length
    rw [none_pending, exact.all] at length
    exact List.length_eq_zero_iff.mp length.symm
  have told : collect c.slots = .ok (ownResults ctx job) :=
    collect_own exact.slots fun j bound => exact.refused j bound (by simp [none_pending])
  have ask : c.ask job job.recipients.length = c.leave (.ok (ownResults ctx job)) := by
    simp [LmtpClient.ask, none_pending, told]
  rw [ask] at talk
  have ended := talk.trans (talk_quit ctx job asked.reading wide asked.code asked.lines _)
  refine ⟨none_taken, (agree_iff begun ended ⟨rfl, rfl⟩).mpr ⟨?_, ?_⟩⟩
  · intro awaited sent
    rw [asked.awaited] at sent
    cases sent
  · intro results told
    cases told
    rfl

section Replies

variable (talk : Talk ctx job (connected ctx begin)
  ⟨{ c with stage := .replies, awaited := some c.pending.length },
    { s with reading := .data "" 0 false }, [], sentLines job.data ++ ["."]⟩)

include talk

/-- A message with a line that is too long for the server is answered by nobody. -/
theorem disagree_of_long_line (some_pending : c.pending ≠ [])
    (long : ¬LinesFit ctx.config job.data) : ¬Agree ctx job := by
  have start : Gathered ctx.config "" (.data "" 0 false) := ⟨"", rfl, fun _ => rfl⟩
  have tooLong : ∃ line ∈ Smtp.canonicalLines job.data,
      ctx.config.maxLine < (bytes (String.ofList (stuffLine line))).length := by
    simp only [LinesFit, not_forall, Nat.not_le] at long
    obtain ⟨line, mem, tooLong⟩ := long
    obtain ⟨chars, own, rfl⟩ := List.mem_map.mp mem
    exact ⟨chars, own, tooLong⟩
  have server : feed (LmtpSession.receive ctx) { s with reading := .data "" 0 false }
      (sentLines job.data ++ ["."]) = ({ s with reading := .closed }, []) :=
    feed_tooLong start tooLong ["."]
  have round := steps_round (f := LmtpClient.receive job) (g := LmtpSession.receive ctx)
    { c with stage := .replies, awaited := some c.pending.length }
    { s with reading := .data "" 0 false } (sentLines job.data ++ ["."])
  rw [server] at round
  rw [agree_iff begun (talk.trans round) ⟨rfl, rfl⟩]
  intro agreed
  obtain ⟨equal, -⟩ := agreed.counts c.pending.length rfl
  have zero : s.answered = c.pending.length := equal
  rw [asked.answered] at zero
  exact some_pending (List.length_eq_zero_iff.mp zero.symm)

theorem disagree_of_doubled (sent : sentFrom ctx.config job = .ok sender)
    (fit : LinesFit ctx.config job.data)
    (wide : 4 ≤ ctx.config.maxLine) (doubled : Doubled ctx job job.recipients.length c s) :
    ¬Agree ctx job := by
  have waiting : Waiting { c with stage := .replies, awaited := some c.pending.length } .replies :=
    ⟨rfl, asked.code, asked.lines⟩
  have replies : ∀ l ∈ s.recipients.map (deliveredLine ctx job), IsReply l :=
    List.forall_mem_map.mpr fun r _ => answerLine_isReply ctx _ _ r
  have fewer : (s.recipients.map (deliveredLine ctx job)).length < c.pending.length := by
    rw [List.length_map]
    exact doubled.fewer
  obtain ⟨last, read, awaited, -⟩ := LmtpClient.feed_replies_silent job waiting replies fewer.le
    (.inl fewer)
  have round := steps_round (f := LmtpClient.receive job) (g := LmtpSession.receive ctx)
    { c with stage := .replies, awaited := some c.pending.length }
    { s with reading := .data "" 0 false } (sentLines job.data ++ ["."])
  rw [feed_answers asked sent fit wide, read] at round
  rw [agree_iff begun (talk.trans round) ⟨rfl, rfl⟩]
  intro agreed
  obtain ⟨equal, -⟩ := agreed.counts c.pending.length awaited
  have same : s.recipients.length = c.pending.length := equal
  exact doubled.fewer.ne same

/-- If no recipient was doubled, all depends on the answers that the client can read. -/
theorem agree_iff_repliesFit (sent : sentFrom ctx.config job = .ok sender)
    (fit : LinesFit ctx.config job.data)
    (wide : 4 ≤ ctx.config.maxLine) (some_pending : c.pending ≠ [])
    (exact : Exact ctx job job.recipients.length c s) : Agree ctx job ↔ RepliesFit ctx job := by
  have waiting : Waiting { c with stage := .replies, awaited := some c.pending.length } .replies :=
    ⟨rfl, asked.code, asked.lines⟩
  have round := steps_round (f := LmtpClient.receive job) (g := LmtpSession.receive ctx)
    { c with stage := .replies, awaited := some c.pending.length }
    { s with reading := .data "" 0 false } (sentLines job.data ++ ["."])
  rw [feed_answers asked sent fit wide, ← exact.lines] at round
  have isReply : ∀ index ∈ c.pending, IsReply (ownLine ctx job index) := by
    intro index mem
    have line : ownLine ctx job index ∈ s.recipients.map (deliveredLine ctx job) :=
      exact.lines ▸ List.mem_map_of_mem mem
    obtain ⟨r, -, eq⟩ := List.mem_map.mp line
    exact eq ▸ answerLine_isReply ctx _ _ r
  have fits_iff : RepliesFit ctx job ↔ ∀ index ∈ c.pending, Fits (ownLine ctx job index) := by
    have lines : (∀ l ∈ c.pending.map (ownLine ctx job), Fits l) ↔
        ∀ l ∈ s.recipients.map (deliveredLine ctx job), Fits l := by rw [exact.lines]
    rw [RepliesFit, ← exact.all]
    simpa using lines.symm
  by_cases fits : RepliesFit ctx job
  · refine iff_of_true ?_ fits
    have read := LmtpClient.feed_replies job waiting rfl some_pending fun index mem =>
      ⟨isReply index mem, fits_iff.mp fits index mem⟩
    rw [read] at round
    have told : collect (LmtpClient.noted job (ownLine ctx job) c.slots c.pending) =
        .ok (ownResults ctx job) := by
      refine collect_own (by rw [LmtpClient.noted_length, exact.slots]) fun j bound => ?_
      rw [LmtpClient.noted_get job c.slots (by rw [exact.slots]; exact bound)]
      split
      · rfl
      · next refused => exact exact.refused j bound refused
    have quit := talk_quit ctx job
      (s := { s.resetTransaction with reading := .command, answered := s.recipients.length })
      (c := { c with
        stage := .replies, awaited := some c.pending.length, pending := [],
        slots := LmtpClient.noted job (ownLine ctx job) c.slots c.pending })
      rfl wide asked.code asked.lines
        (collect (LmtpClient.noted job (ownLine ctx job) c.slots c.pending))
    refine (agree_iff begun ((talk.trans round).trans quit) ⟨rfl, rfl⟩).mpr ⟨?_, ?_⟩
    · rintro awaited ⟨⟩
      exact ⟨exact.length.symm, _, told⟩
    · intro results eq
      have same : collect (LmtpClient.noted job (ownLine ctx job) c.slots c.pending) =
          .ok results := eq
      rw [told] at same
      cases same
      rfl
  · refine iff_of_false ?_ fits
    have long : ∃ l ∈ c.pending.map (ownLine ctx job), ¬Fits l := by
      rw [fits_iff] at fits
      simpa using fits
    obtain ⟨last, read, awaited, ended⟩ := LmtpClient.feed_replies_silent job waiting
      (by simpa using isReply) (by simp) (.inr long)
    obtain ⟨error, stage⟩ := ended long
    rw [read] at round
    rw [agree_iff begun (talk.trans round) ⟨rfl, rfl⟩]
    intro agreed
    obtain ⟨-, results, told⟩ := agreed.counts c.pending.length awaited
    simp only [outcome, stage] at told
    cases told

end Replies

/-- Once all recipients were asked for, three things decide. -/
theorem agree_iff_of_asked (talk : Talk ctx job (connected ctx begin)
      ⟨(c.ask job job.recipients.length).1, s, [], (c.ask job job.recipients.length).2⟩)
    (sent : sentFrom ctx.config job = .ok sender) (wide : 4 ≤ ctx.config.maxLine) :
    Agree ctx job ↔ (taken ctx job.recipients ≠ [] →
      Apart ctx job.recipients ∧ LinesFit ctx.config job.data ∧ RepliesFit ctx job) := by
  by_cases none_pending : c.pending = []
  · obtain ⟨none_taken, agree⟩ := agree_of_none_taken begun asked talk wide none_pending
    exact iff_of_true agree fun some_taken => absurd none_taken some_taken
  · have some_in_session : s.recipients ≠ [] := by
      obtain doubled | exact := asked.tally
      · exact doubled.some_taken
      · intro empty
        have length := exact.length
        rw [empty] at length
        exact none_pending (List.length_eq_zero_iff.mp length)
    have ask : c.ask job job.recipients.length = ({ c with stage := .data }, ["DATA"]) := by
      simp [LmtpClient.ask, none_pending]
    rw [ask] at talk
    have onward := talk.trans (talk_data asked wide some_in_session)
    have some_taken : taken ctx job.recipients ≠ [] := by
      obtain doubled | exact := asked.tally
      · have notApart := doubled.notApart
        rw [List.take_length] at notApart
        rintro empty
        rw [Apart, empty] at notApart
        exact notApart List.nodup_nil
      · rw [← exact.all]
        exact some_in_session
    by_cases fit : LinesFit ctx.config job.data
    · obtain doubled | exact := asked.tally
      · refine iff_of_false (disagree_of_doubled begun asked onward sent fit wide doubled) ?_
        intro all
        have notApart := doubled.notApart
        rw [List.take_length] at notApart
        exact notApart (all some_taken).1
      · have apart : Apart ctx job.recipients := by
          rw [Apart, ← exact.all]
          exact asked.distinct
        rw [agree_iff_repliesFit begun asked onward sent fit wide none_pending exact]
        exact ⟨fun replies _ => ⟨apart, fit, replies⟩, fun all => (all some_taken).2.2⟩
    · exact iff_of_false (disagree_of_long_line begun asked onward none_pending fit)
        fun all => fit (all some_taken).2.1

def handed (heloName : String) (entry : Queue.QueueEntry) (recipients : List String) : Delivering :=
  { heloName, mailFrom := entry.mailFrom, recipients, data := entry.data }

end Asked

theorem validateAddress_length {address : String} (valid : Queue.validateAddress address = .ok ()) :
    (bytes address).length ≤ Queue.maxAddressLen := by
  by_contra long
  rw [Queue.validateAddress, if_pos (by omega)] at valid
  cases valid

theorem path_length (address : String) :
    (bytes ("RCPT " ++ recipientPath address)).length = (bytes address).length + 10 := by
  simp only [recipientPath, bytes_append, List.length_append]
  have parts : (bytes "RCPT ").length = 5 ∧ (bytes "TO:<").length = 4 ∧ (bytes ">").length = 1 := by
    decide
  omega

theorem sender_length (job : Delivering) :
    (bytes ("MAIL " ++ senderPath job)).length = (bytes job.mailFrom).length + 12 := by
  simp only [senderPath, bytes_append, List.length_append]
  have parts : (bytes "MAIL ").length = 5 ∧ (bytes "FROM:<").length = 6 ∧
      (bytes ">").length = 1 := by
    decide
  omega

/-- For the recipients of an entry that the queue hands over, client and server agree exactly if the
server does not take two of them for one, it can read every line of the message, and the client can
read every answer. -/
theorem client_server_agree_iff (route : String → Option σ)
    (deliver : σ → String → String → String → Except MailError Delivery) (heloName : String)
    {entry : Queue.QueueEntry} {recipients : List String} (valid : entry.validate = .ok ())
    (some_of : recipients ⊆ entry.recipients) :
    Agree (buildServer route deliver) (handed heloName entry recipients) ↔
      (Opened (buildServer route deliver) (handed heloName entry recipients) →
        taken (buildServer route deliver) recipients ≠ [] →
        Apart (buildServer route deliver) recipients ∧
          LinesFit (buildServer route deliver).config entry.data ∧
          RepliesFit (buildServer route deliver) (handed heloName entry recipients)) := by
  obtain ⟨-, -, -, addresses, from_valid⟩ := Queue.QueueEntry.validate_iff.mp valid
  have wide : 4 ≤ (buildServer route deliver).config.maxLine := by
    show 4 ≤ LmtpConfig.default.maxLine
    decide
  have room : Queue.maxAddressLen + 12 ≤ (buildServer route deliver).config.maxLine := by
    show Queue.maxAddressLen + 12 ≤ LmtpConfig.default.maxLine
    decide
  have rcptFit : ∀ r ∈ (handed heloName entry recipients).recipients,
      (bytes ("RCPT " ++ recipientPath r)).length ≤ (buildServer route deliver).config.maxLine := by
    intro r mem
    have short := validateAddress_length (addresses r (some_of mem))
    rw [path_length]
    omega
  have mailFit : (bytes ("MAIL " ++ senderPath (handed heloName entry recipients))).length ≤
      (buildServer route deliver).config.maxLine := by
    have short := validateAddress_length from_valid
    rw [sender_length]
    show (bytes entry.mailFrom).length + 12 ≤ _
    omega
  cases begun : LmtpClient.start (handed heloName entry recipients) with
  | error message =>
    refine iff_of_true (fun c other => ?_) fun opened => ?_
    · cases begun.symm.trans other
    · have started := opened.1
      rw [begun] at started
      cases started
  | ok c =>
    obtain ⟨rfl, some_name⟩ := start_ok begun
    have greeting : Talk (buildServer route deliver) (handed heloName entry recipients)
        (connected (buildServer route deliver) (fresh (handed heloName entry recipients) .greeting))
        ⟨fresh (handed heloName entry recipients) .lhlo, .start, [], ["LHLO " ++ trim heloName]⟩ :=
      talk_greeting rfl
    by_cases named : (bytes ("LHLO " ++ trim heloName)).length ≤
        (buildServer route deliver).config.maxLine
    · have introduced := greeting.trans (talk_lhlo rfl some_name named)
      cases sent : sentFrom (buildServer route deliver).config
        (handed heloName entry recipients) with
      | error line =>
        obtain ⟨error, refused⟩ := talk_mail_refused sent mailFit
        refine iff_of_true ((agree_iff begun (introduced.trans refused) ⟨rfl, rfl⟩).mpr
          (agreed_unsent rfl rfl)) fun opened => ?_
        have taken_from := opened.2.2
        rw [sent] at taken_from
        cases taken_from
      | ok sender =>
        obtain ⟨c, s, asked, talk⟩ := talk_recipients (asked_start sender) (Nat.zero_le _) rcptFit
        have whole := (introduced.trans (talk_mail sent mailFit)).trans talk
        rw [agree_iff_of_asked begun asked whole sent wide]
        have opened : Opened (buildServer route deliver) (handed heloName entry recipients) :=
          ⟨by rw [begun]; rfl, named, by rw [sent]; rfl⟩
        exact ⟨fun decide _ => decide, fun all => all opened⟩
    · have ended : Talk (buildServer route deliver) (handed heloName entry recipients)
          ⟨fresh (handed heloName entry recipients) .lhlo, .start, [], ["LHLO " ++ trim heloName]⟩
          ⟨fresh (handed heloName entry recipients) .lhlo, { LmtpSession.start with reading := .closed },
            [], []⟩ := by
        have round := steps_round (f := LmtpClient.receive (handed heloName entry recipients))
          (g := LmtpSession.receive (buildServer route deliver))
          (fresh (handed heloName entry recipients) .lhlo) .start ["LHLO " ++ trim heloName]
        have closed : LmtpSession.receive (buildServer route deliver) .start
            ("LHLO " ++ trim heloName) =
            ({ LmtpSession.start with reading := .closed }, []) :=
          LmtpSession.receive_tooLong rfl named
        simp only [feed_cons, feed_nil, closed, List.append_nil] at round
        exact round
      refine iff_of_true ((agree_iff begun (greeting.trans ended) ⟨rfl, rfl⟩).mpr
        (agreed_unsent rfl rfl)) fun opened => absurd opened.2.1 named

def everyone (_ : String) : Option Unit := some ()

def welcome (_ : Unit) (_ _ _ : String) : Except MailError Delivery := .ok (.delivered ["INBOX"])

def queuedFor (recipients : List String) : Queue.QueueEntry :=
  .draft "Q1" "2024-01-01T00:00:00Z" .outbound "s@remote.net" recipients "Subject: a\r\n\r\n.hi\r\n" 0

theorem client_server_agree_two :
    Agree (buildServer everyone welcome)
      (handed "mx" (queuedFor ["a@x.org", "b@x.org"]) ["a@x.org", "b@x.org"]) := by
  apply (client_server_agree_iff everyone welcome "mx" ?_ ?_).mpr
  · intro _ _
    refine ⟨?_, ?_, ?_⟩
    · unfold Apart
      decide +kernel
    · decide +kernel
    · unfold RepliesFit
      decide +kernel
  · decide +kernel
  · exact List.Subset.refl _

def spellings : Delivering := handed "mx" (queuedFor ["A@x.org", "a@x.org"]) ["A@x.org", "a@x.org"]

def spellingsEnd : Conversation Unit :=
  rounds (LmtpClient.receive spellings) (LmtpSession.receive (buildServer everyone welcome)) 8
    (connected (buildServer everyone welcome) (fresh spellings .greeting))

/-- Both spellings are accepted, and the message is answered once. -/
theorem spellings_disagree :
    (queuedFor ["A@x.org", "a@x.org"]).validate = .ok () ∧
      ¬Agree (buildServer everyone welcome) spellings := by
  constructor
  · decide +kernel
  · have ran : (spellingsEnd.toLeft = [] ∧ spellingsEnd.toRight = []) ∧
        spellingsEnd.left.awaited = some 2 ∧ spellingsEnd.right.answered = 1 := by
      decide +kernel
    obtain ⟨atRest, awaited, answered⟩ := ran
    have begun : LmtpClient.start spellings = .ok (fresh spellings .greeting) := by rfl
    have talk : Talk (buildServer everyone welcome) spellings
        (connected (buildServer everyone welcome) (fresh spellings .greeting)) spellingsEnd :=
      steps_rounds _ _ _ _
    rw [agree_iff begun talk atRest]
    intro agreed
    obtain ⟨equal, -⟩ := agreed.counts 2 awaited
    rw [answered] at equal
    cases equal

end MailStack.Lmtp
