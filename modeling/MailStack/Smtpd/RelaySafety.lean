import MailStack.Smtpd.Connection

/-! No open relay: what an SMTP session has recorded, in every state that a client can bring it to,
and what is left of it after STARTTLS. -/

namespace MailStack.Smtpd

open Lib Smtp

/-- The user may send under the address: it is the user's own, or the user is a name without a
domain and it is the local part of the address. -/
def OwnedBy (user sender : String) : Prop :=
  let user := toAsciiLowercase (trim user)
  let sender := toAsciiLowercase (trim sender)
  user ≠ "" ∧
    (sender = user ∨
      '@' ∉ user.toList ∧ ((rsplitOnce '@' sender).map (·.1)).getD sender = user)

theorem ownedBy_of_senderOwnedBy {user sender : String} (h : senderOwnedBy user sender = true) :
    sender = "" ∨ OwnedBy user sender := by
  unfold senderOwnedBy at h
  simp only at h
  split at h
  · rename_i null
    exact .inl (by simpa using null)
  split at h
  · cases h
  rename_i named
  split at h
  · rename_i same
    exact .inr ⟨by simpa using named, .inl same⟩
  split at h
  · rename_i bare
    exact .inr ⟨by simpa using named, .inr ⟨by simpa [contains] using bare, by simpa using h⟩⟩
  · cases h

def LocalRecipient (config : SessionConfig) (relay : RelayPolicy) (recipient : String) : Prop :=
  relay.isManaged (domainOf recipient) = true ∨ config.postmaster = some recipient

structure Session.Safe (config : SessionConfig) (relay : RelayPolicy) (s : Session) : Prop where
  recipients : s.authenticated = false → ∀ r ∈ s.recipients, LocalRecipient config relay r
  secured : s.authenticated = true → s.tlsActive = true
  sender : s.authenticated = true → s.role = .submission → ∀ sender, s.mailFrom = some sender →
    sender = "" ∨ ∃ user, s.authUser = some user ∧ OwnedBy user sender

/-- What every step of a session keeps. -/
structure Session.Sound (config : SessionConfig) (relay : RelayPolicy) (s : Session) : Prop where
  configured : s.config = config
  policy : s.relay = relay
  role : s.role = (Session.new config relay).role
  started : s.tlsActive = false → config.tlsActive = false
  recipients : s.authenticated = false → ∀ r ∈ s.recipients, LocalRecipient config relay r
  secured : s.authenticated = true → s.tlsActive = true
  user : s.authenticated = s.authUser.isSome
  pending : s.pendingAuth.isSome → s.mailFrom = none ∧ s.tlsActive = true
  sender : ∀ user, s.authUser = some user → s.role = .submission → ∀ sender,
    s.mailFrom = some sender → senderOwnedBy user sender = true

/-- What an action finds: an answer is checked only on TLS and outside a transaction, and TLS starts
on a session that is as new. -/
def Action.Ready (config : SessionConfig) (relay : RelayPolicy) (s : Session) : Action → Prop
  | .authVerify _ _ => s.mailFrom = none ∧ s.tlsActive = true
  | .startTls _ => s = Session.new config relay
  | _ => True

section Commands

variable {config : SessionConfig} {relay : RelayPolicy} {s : Session}

theorem Session.Sound.safe (h : s.Sound config relay) : s.Safe config relay := by
  refine ⟨h.recipients, h.secured, fun authenticated role sender mail => ?_⟩
  obtain ⟨user, some⟩ := Option.isSome_iff_exists.mp (h.user.symm.trans authenticated)
  exact (ownedBy_of_senderOwnedBy (h.sender user some role sender mail)).imp_right
    fun owned => ⟨user, some, owned⟩

theorem Session.Sound.new (config : SessionConfig) (relay : RelayPolicy) :
    (Session.new config relay).Sound config relay := by
  refine ⟨rfl, rfl, rfl, id, ?_, ?_, rfl, ?_, ?_⟩ <;> simp [Session.new]

section

variable (h : s.Sound config relay)

include h

theorem Session.Sound.dropped (phase : Phase) (helo : Option String)
    (esmtp : Bool) :
    ({ s with mailFrom := none, recipients := [], phase, helo, esmtp } : Session).Sound
      config relay :=
  ⟨h.configured, h.policy, h.role, h.started, by simp, h.secured, h.user,
    fun pending => ⟨rfl, (h.pending pending).2⟩, by simp⟩

theorem Session.Sound.mail (idle : s.pendingAuth = none)
    (sender : String) (params : MailParams) : (s.mail sender params).1.Sound config relay := by
  unfold Session.mail
  split_ifs with _ _ _ _ owned
  iterate 5 exact h
  refine ⟨h.configured, h.policy, h.role, h.started, by simp, h.secured, h.user, ?_, ?_⟩
  · simp [idle]
  · intro user some role sender' mail
    obtain rfl : sender = sender' := by simpa using mail
    simpa [Session.ownsSender, show s.role = .submission from role,
      show s.authUser = Option.some user from some] using owned

theorem Session.Sound.acceptRecipient {recipient : String}
    (here : s.authenticated = false → LocalRecipient config relay recipient) :
    (s.acceptRecipient recipient).1.Sound config relay := by
  unfold Session.acceptRecipient
  split_ifs
  · exact h
  · refine ⟨h.configured, h.policy, h.role, h.started, fun anonymous r mem => ?_, h.secured, h.user,
      h.pending, h.sender⟩
    rcases List.mem_append.mp mem with old | new
    · exact h.recipients anonymous r old
    · rw [List.mem_singleton.mp new]
      exact here anonymous

theorem Session.Sound.rcpt (lookup : String → Except String Bool)
    (recipient : String) : (s.rcpt lookup recipient).1.Sound config relay := by
  unfold Session.rcpt
  split_ifs
  · exact h
  · exact h
  · -- the postmaster's mail goes to the address that is configured for it
    split
    · rename_i address set
      exact h.acceptRecipient fun _ => .inr (h.configured ▸ set)
    · exact h
  · exact h
  · split
    · rename_i relayed
      exact h.acceptRecipient fun anonymous =>
        absurd (RelayPolicy.evaluate_relay relayed) (by simp [anonymous])
    · exact h
    · rename_i managed
      have here : LocalRecipient config relay recipient :=
        .inl (h.policy ▸ RelayPolicy.evaluate_deliverLocal managed)
      split
      · exact h
      · exact h.acceptRecipient fun _ => here
      · exact h.acceptRecipient fun _ => here

theorem Session.Sound.startTls :
    s.startTls.1.Sound config relay ∧ s.startTls.2.Ready config relay s.startTls.1 := by
  unfold Session.startTls
  split_ifs with active _ _
  · exact ⟨h, trivial⟩
  · exact ⟨h, trivial⟩
  · exact ⟨h, trivial⟩
  · refine ⟨h.dropped _ _ _, ?_⟩
    -- without TLS nobody has logged in or is about to
    have plain : s.tlsActive = false := by simpa using active
    have anonymous : s.authenticated = false := by
      by_contra some
      exact active (h.secured (by simpa using some))
    have nobody : s.authUser = none := by
      have := h.user
      rw [anonymous] at this
      simpa using this.symm
    have idle : s.pendingAuth = none := by
      by_contra some
      exact active (h.pending (Option.isSome_iff_ne_none.mpr some)).2
    have same : s.tlsActive = config.tlsActive := plain.trans (h.started plain).symm
    simp only [Action.Ready, Session.resetTransaction, h.configured, h.policy, anonymous, nobody,
      idle, same, h.role]
    rfl

end

theorem requestVerification_ready (secured : s.mailFrom = none ∧ s.tlsActive = true)
    (mechanism response : String) :
    (Session.requestVerification mechanism response).Ready config relay s := by
  unfold Session.requestVerification
  split_ifs
  · exact secured
  · trivial

theorem Session.Sound.auth (h : s.Sound config relay) (mechanism : String)
    (initial : Option String) :
    (s.auth mechanism initial).1.Sound config relay ∧
      (s.auth mechanism initial).2.Ready config relay (s.auth mechanism initial).1 := by
  unfold Session.auth
  split_ifs with _ plain busy
  iterate 3 exact ⟨h, trivial⟩
  iterate 3 exact ⟨h, trivial⟩
  have secured : s.mailFrom = none ∧ s.tlsActive = true := by
    simp only [Bool.or_eq_true, not_or, Bool.not_eq_true, Option.isSome_eq_false_iff,
      Option.isNone_iff_eq_none] at busy
    exact ⟨busy.2, by simpa using plain⟩
  split
  · exact ⟨h, requestVerification_ready secured _ _⟩
  · exact ⟨⟨h.configured, h.policy, h.role, h.started, h.recipients, h.secured, h.user,
      fun _ => secured, h.sender⟩, trivial⟩

theorem Session.Sound.answered (h : s.Sound config relay) :
    ({ s with pendingAuth := none } : Session).Sound config relay :=
  ⟨h.configured, h.policy, h.role, h.started, h.recipients, h.secured, h.user, by simp, h.sender⟩

theorem Session.Sound.continueAuth (h : s.Sound config relay) (line : List UInt8) :
    (s.continueAuth line).1.Sound config relay ∧
      (s.continueAuth line).2.Ready config relay (s.continueAuth line).1 := by
  unfold Session.continueAuth
  split
  · exact ⟨h, trivial⟩
  rename_i mechanism pending
  have secured := h.pending (by rw [pending]; rfl)
  simp only
  split
  · exact ⟨h.answered, trivial⟩
  split
  · exact ⟨h.answered, trivial⟩
  · refine ⟨h.answered, requestVerification_ready ?_ _ _⟩
    exact secured

theorem Session.Sound.completeAuth (h : s.Sound config relay) (idle : s.mailFrom = none)
    (secured : s.tlsActive = true) (outcome : AuthOutcome) :
    (s.completeAuth outcome).1.Sound config relay := by
  cases outcome with
  | success user =>
    refine ⟨h.configured, h.policy, h.role, h.started, nofun, fun _ => secured, rfl, by simp
      [Session.completeAuth], ?_⟩
    intro user' _ _ sender mail
    simp [Session.completeAuth, idle] at mail
  | invalidCredentials => exact h.answered
  | temporaryFailure reason => exact h.answered

theorem Session.Sound.handle (h : s.Sound config relay) (idle : s.pendingAuth = none)
    (lookup : String → Except String Bool) (command : Command) :
    (s.handle lookup command).1.Sound config relay ∧
      (s.handle lookup command).2.Ready config relay (s.handle lookup command).1 := by
  cases command with
  | ehlo name => exact ⟨h.dropped _ _ _, trivial⟩
  | helo name => exact ⟨h.dropped _ _ _, trivial⟩
  | mail sender params =>
    refine ⟨h.mail idle sender params, ?_⟩
    simp only [Session.handle, Session.mail]
    split_ifs <;> trivial
  | rcpt recipient =>
    refine ⟨h.rcpt lookup recipient, ?_⟩
    simp only [Session.handle, Session.rcpt, Session.acceptRecipient]
    split_ifs <;> (try split) <;> (try split) <;> trivial
  | data =>
    simp only [Session.handle, Session.data]
    split_ifs <;> exact ⟨h, trivial⟩
  | rset => exact ⟨h.dropped _ _ _, trivial⟩
  | noop => exact ⟨h, trivial⟩
  | quit => exact ⟨h.dropped _ _ _, trivial⟩
  | vrfy argument => exact ⟨h, trivial⟩
  | help topic => exact ⟨h, trivial⟩
  | startTls => exact h.startTls
  | auth mechanism initial => exact h.auth mechanism initial
  | unknown verb => exact ⟨h, trivial⟩

end Commands

structure Connection.Sound (config : SessionConfig) (relay : RelayPolicy) (c : Connection) :
    Prop where
  session : c.session.Sound config relay
  startTls : c.stage = .finished .startTls → c.session = Session.new config relay

section Connections

variable {config : SessionConfig} {relay : RelayPolicy} {c : Connection} (env : Environment)

theorem Connection.Sound.of_session {c : Connection} (h : c.session.Sound config relay)
    (other : c.stage ≠ .finished .startTls) : c.Sound config relay :=
  ⟨h, fun stage => absurd stage other⟩

theorem Connection.verify_sound (h : c.session.Sound config relay)
    (serving : c.stage = .commands) (idle : c.session.mailFrom = none)
    (secured : c.session.tlsActive = true) (mechanism response : String) :
    (c.verify env mechanism response).Sound config relay := by
  unfold Connection.verify
  simp only
  split_ifs
  · exact .of_session (h.completeAuth idle secured _) nofun
  · exact .of_session (h.completeAuth idle secured _) (by simp [Connection.send, serving])

theorem Connection.perform_sound (h : c.session.Sound config relay)
    (serving : c.stage = .commands) {action : Action}
    (ready : action.Ready config relay c.session) : (c.perform env action).Sound config relay := by
  cases action with
  | reply reply => exact .of_session h (by simp [Connection.perform, Connection.send, serving])
  | close reply => exact .of_session h (by simp [Connection.perform, Connection.finish])
  | startTls reply => exact ⟨h, fun _ => ready⟩
  | authChallenge reply =>
    exact .of_session h (by simp [Connection.perform, Connection.send, serving])
  | authVerify mechanism response =>
    exact Connection.verify_sound env h serving ready.1 ready.2 mechanism response
  | enterData reply =>
    simp only [Connection.perform, Connection.enterData]
    split_ifs
    · exact .of_session h (by simp)
    · exact .of_session h (by simp [Connection.send, serving])

theorem Connection.interpret_sound (h : c.session.Sound config relay) (line : List UInt8) :
    (c.interpret env line).1.Sound config relay ∧
      (c.interpret env line).2.Ready config relay (c.interpret env line).1 := by
  unfold Connection.interpret
  split_ifs with awaiting
  · exact h.continueAuth line
  · split
    · refine h.handle ?_ _ _
      simpa [Session.awaitingAuthResponse] using awaiting
    · exact ⟨h, trivial⟩

theorem Connection.handleLine_sound (h : c.session.Sound config relay)
    (serving : c.stage = .commands) (line : List UInt8) :
    (c.handleLine env line).Sound config relay := by
  obtain ⟨session, ready⟩ := Connection.interpret_sound env h line
  unfold Connection.handleLine
  refine Connection.perform_sound env ?_ ?_ ?_
  · exact session
  · exact serving
  · exact ready

theorem Connection.advanceCommands_sound (h : c.session.Sound config relay)
    (serving : c.stage = .commands) : (c.advanceCommands env).Sound config relay := by
  unfold Connection.advanceCommands
  split
  · refine Connection.handleLine_sound env ?_ ?_ _
    · exact h
    · exact serving
  · exact .of_session h (by simp [serving])
  · exact .of_session h nofun
  · exact .of_session h nofun

theorem Session.Sound.discardData {s : Session} (h : s.Sound config relay) :
    s.discardData.Sound config relay := h.dropped _ _ _

theorem finishData_session (s : Session) (data : List UInt8) :
    (s.finishData data).1 = s.discardData := by
  unfold Session.finishData
  split
  · rfl
  · split_ifs <;> rfl

theorem Connection.received_sound (h : c.session.Sound config relay) (data : List UInt8) :
    (c.received env data).Sound config relay := by
  have session := h.discardData
  rw [← finishData_session c.session data] at session
  unfold Connection.received
  simp only
  split
  · exact .of_session session nofun
  · split
    · exact .of_session session nofun
    · exact .of_session session nofun

theorem Connection.advanceData_sound (h : c.Sound config relay) (sink : DataSink) (told : Bool) :
    (c.advanceData env sink told).Sound config relay := by
  unfold Connection.advanceData
  split
  · exact h
  simp only
  split
  · exact .of_session h.session nofun
  · refine Connection.received_sound env ?_ _
    exact h.session
  · exact .of_session h.session.discardData nofun
  · split <;> exact .of_session h.session nofun
  · exact .of_session h.session nofun

theorem Connection.Sound.upgrade (h : c.Sound config relay)
    (started : c.stage = .finished .startTls) : c.upgrade.Sound config relay := by
  refine .of_session ?_ nofun
  have new := Session.Sound.new config relay
  simp only [Connection.upgrade, h.startTls started]
  exact ⟨rfl, rfl, rfl, nofun, new.recipients, nofun, new.user, nofun, nofun⟩

theorem Connection.Sound.step (h : c.Sound config relay) (event : Event) :
    (c.step env event).Sound config relay := by
  cases event with
  | receive chunk =>
    simp only [Connection.step]
    split
    · exact h
    · exact ⟨h.session, h.startTls⟩
  | advance =>
    simp only [Connection.step]
    split
    · exact Connection.advanceCommands_sound env h.session ‹_›
    · exact Connection.advanceData_sound env h _ _
    · exact h
  | hangUp =>
    simp only [Connection.step]
    split
    · exact h
    · exact .of_session h.session nofun
  | handshake ok =>
    simp only [Connection.step]
    split
    · split_ifs
      · exact h.upgrade ‹_›
      · exact .of_session h.session nofun
    · exact h

theorem Connection.Sound.run (config : SessionConfig) (relay : RelayPolicy)
    (events : List Event) :
    ((Connection.new config relay).run env events).Sound config relay := by
  have keep : ∀ c : Connection, c.Sound config relay → (c.run env events).Sound config relay := by
    induction events with
    | nil => exact fun _ h => h
    | cons event rest ih => exact fun c h => ih _ (h.step env event)
  exact keep _ (.of_session (Session.Sound.new config relay) nofun)

/-- What a connection that has done STARTTLS keeps of the time before: nothing but its
configuration. -/
structure Connection.Renewed (config : SessionConfig) (relay : RelayPolicy) (c : Connection) :
    Prop where
  session : c.session = { Session.new config relay with tlsActive := true }
  buffer : c.buffer = []

/-- Nothing is relayed for a client that has not logged in, a login is on TLS and binds the sender,
and once the handshake after STARTTLS is done the session is as new. -/
structure Connection.RelaySafe (config : SessionConfig) (relay : RelayPolicy) (c : Connection) :
    Prop where
  session : c.session.Safe config relay
  startTls : c.stage = .finished .startTls → (c.step env (.handshake true)).Renewed config relay

/-- In every state that a client can bring a connection to, under any configuration and whatever the
services answer. -/
theorem no_open_relay (config : SessionConfig) (relay : RelayPolicy) (events : List Event) :
    ((Connection.new config relay).run env events).RelaySafe env config relay := by
  have sound := Connection.Sound.run env config relay events
  refine ⟨sound.session.safe, fun started => ?_⟩
  rw [Connection.step, started]
  refine ⟨?_, rfl⟩
  rw [← sound.startTls started]
  rfl

end Connections

end MailStack.Smtpd
