import MailStack.Imap.Conduct

/-! Authentication and the store that it opens: what holds of the own store of a session along its
runs, and the mechanism that does not ask the resolver for it. -/

namespace MailStack.Imap

open Lib Maildir Handler

variable {S : Type} [DecidableEq S] {ctx : Context S} {ch : Choices} {c : Conn S}
  {user password : String}

/-- The user as whom an exchange logs in, if it comes to that. -/
def ScramExchange.completes (exchange : ScramExchange) : Option String :=
  match exchange.first, exchange.acknowledgement with
  | .ok (some username), some line =>
    if exchange.verified && line.isEmpty then some (toAsciiLowercase username) else none
  | _, _ => none

/-- A session that is of nobody is in the store that it was made with, and one of a user has the
store that the resolver knows for that user as its own. -/
structure Anchored (ctx : Context S) (s : Session S) : Prop where
  fresh : s.user = none → s.store = ctx.store ∧ s.ownStore = ctx.store ∧ s.selectedOwner = none
  bound : ∀ resolver, ctx.resolver = some resolver → ∀ user, s.user = some user →
    resolver.resolve user = some s.ownStore

/-- What an attempt to authenticate leaves: an anchored session that sits in its own store. -/
structure Entered (ctx : Context S) (c t : Conn S) : Prop where
  accesses : t.accesses = c.accesses
  anchored : Anchored ctx t.session
  home : t.session.store = t.session.ownStore
  unowned : t.session.selectedOwner = none

section Attempts

omit [DecidableEq S]

variable {s : Session S}

theorem Entered.of_fresh (a : Anchored ctx c.session) (nobody : c.session.user = none)
    (user : s.user = none) (store : s.store = c.session.store)
    (own : s.ownStore = c.session.ownStore) (owner : s.selectedOwner = c.session.selectedOwner) :
    Entered ctx c { c with session := s } := by
  obtain ⟨hstore, hown, howner⟩ := a.fresh nobody
  refine ⟨rfl, ⟨fun _ => ⟨store.trans hstore, own.trans hown, owner.trans howner⟩,
    fun _ _ u known => ?_⟩, ?_, owner.trans howner⟩
  · rw [user] at known
    cases known
  · exact (store.trans hstore).trans (own.trans hown).symm

theorem countFailure_enters {completion : Completion} (a : Anchored ctx c.session)
    (nobody : c.session.user = none) :
    wp (countFailure ctx completion) (fun _ => Entered ctx c) (Entered ctx c) c := by
  simp only [countFailure, wp_bind, wp_change, wp_current]
  rw [wp_ite]
  refine ⟨fun _ => ?_, fun _ => ?_⟩
  · exact .of_fresh a nobody nobody rfl rfl rfl
  · exact .of_fresh a nobody nobody rfl rfl rfl

theorem finishAuthentication_enters (a : Anchored ctx c.session)
    (nobody : c.session.user = none) :
    wp (finishAuthentication ctx ch user password) (fun _ => Entered ctx c) (Entered ctx c) c := by
  obtain ⟨hstore, hown, howner⟩ := a.fresh nobody
  unfold finishAuthentication
  split
  · rename_i me _
    simp only [wp_bind, wp_change, bindStore]
    split
    · rename_i unconfigured
      refine ⟨rfl, ⟨(fun out => by cases out), fun resolver configured => ?_⟩,
        hstore.trans hown.symm, howner⟩
      rw [unconfigured] at configured
      cases configured
    · rename_i resolver configured
      split
      · exact .of_fresh a nobody nobody rfl rfl rfl
      · rename_i store known
        refine ⟨rfl, ⟨(fun out => by cases out), fun r hr u hu => ?_⟩, rfl, howner⟩
        obtain rfl : resolver = r := Option.some.inj (configured.symm.trans hr)
        obtain rfl : me = u := Option.some.inj hu
        exact known
  · exact countFailure_enters a nobody
  · exact .of_fresh a nobody nobody rfl rfl rfl

/-- SCRAM does not, and leaves the session in the store that it was made with. -/
theorem handleScram_enters {exchange : ScramExchange} (a : Anchored ctx c.session)
    (nobody : c.session.user = none)
    (known : ∀ me, exchange.completes = some me → ∀ resolver, ctx.resolver = some resolver →
      resolver.resolve me = some ctx.store) :
    wp (handleScram ctx exchange) (fun _ => Entered ctx c) (Entered ctx c) c := by
  obtain ⟨hstore, hown, howner⟩ := a.fresh nobody
  unfold handleScram
  split
  · exact countFailure_enters a nobody
  · exact countFailure_enters a nobody
  rename_i username first
  rw [wp_ite]
  refine ⟨fun _ => countFailure_enters a nobody, fun verified => ?_⟩
  split
  · exact .of_fresh a nobody nobody rfl rfl rfl
  rename_i line acknowledged
  rw [wp_ite]
  refine ⟨fun _ => countFailure_enters a nobody, fun ended => ?_⟩
  have completes : exchange.completes = some (toAsciiLowercase username) := by
    simp_all [ScramExchange.completes]
  simp only [wp_bind, wp_change, authenticationCompleted, wp_current, wp_pure]
  refine ⟨rfl, ⟨(fun out => by cases out), fun resolver configured u hu => ?_⟩,
    hstore.trans hown.symm, howner⟩
  obtain rfl : toAsciiLowercase username = u := Option.some.inj hu
  rw [show c.session.ownStore = ctx.store from hown]
  exact known _ completes resolver configured

theorem user_eq_none_iff : s.user = none ↔ s.state = .notAuthenticated := by
  unfold Session.user
  cases s.state <;> simp

end Attempts

/-- What a command that authenticates leaves: nothing is done for a session that has a user. -/
def Attempted (ctx : Context S) (c t : Conn S) : Prop :=
  c.session.user ≠ none ∧ t = c ∨ c.session.user = none ∧ Entered ctx c t

section Commands

omit [DecidableEq S]

theorem attempted_of_entered {α : Type} {h : Handler S α}
    (run : c.session.user = none → wp h (fun _ => Entered ctx c) (Entered ctx c) c) :
    wp (do requireNotAuthenticated; h) (fun _ => Attempted ctx c) (Attempted ctx c) c := by
  simp only [requireNotAuthenticated, wp_bind, wp_current]
  by_cases nobody : c.session.user = none
  · simp only [user_eq_none_iff.mp nobody, stopIf, ne_eq, not_true_eq_false, decide_false,
      Bool.false_eq_true, if_false, wp_pure]
    exact wp_mono (run nobody) (fun _ _ e => .inr ⟨nobody, e⟩) fun _ e => .inr ⟨nobody, e⟩
  · exact wp_stopIf (fun passes => absurd (user_eq_none_iff.mpr (by simpa using passes)) nobody)
      (.inl ⟨nobody, rfl⟩)

theorem handleLogin_attempted (a : Anchored ctx c.session) :
    wp (handleLogin ctx ch user password) (fun _ => Attempted ctx c) (Attempted ctx c) c := by
  refine attempted_of_entered fun nobody => ?_
  simp only [wp_bind, wp_current]
  exact wp_stopIf (fun _ => finishAuthentication_enters a nobody)
    (.of_fresh a nobody nobody rfl rfl rfl)

/-- The user of a SCRAM exchange that logs somebody in has the store that sessions are made with. -/
def ScramKnown (ctx : Context S) (s : Session S) (exchange : Exchange) : Prop :=
  s.state = .notAuthenticated → s.canAuthenticate ctx = true →
    ∀ scram, exchange = .scram scram → ∀ me, scram.completes = some me →
      ∀ resolver, ctx.resolver = some resolver → resolver.resolve me = some ctx.store

theorem handleAuthenticate_attempted {exchange : Exchange} (a : Anchored ctx c.session)
    (known : ScramKnown ctx c.session exchange) :
    wp (handleAuthenticate ctx ch exchange) (fun _ => Attempted ctx c) (Attempted ctx c) c := by
  refine attempted_of_entered fun nobody => ?_
  have untouched : Entered ctx c c := .of_fresh a nobody nobody rfl rfl rfl
  simp only [wp_bind, wp_current]
  refine wp_stopIf (fun can => ?_) untouched
  split
  · -- PLAIN
    unfold handlePlain
    split
    · exact countFailure_enters a nobody
    · simp only [wp_ite]
      refine ⟨fun _ => countFailure_enters a nobody, fun _ => ⟨fun _ => untouched, fun _ => ?_⟩⟩
      exact finishAuthentication_enters a nobody
    · exact countFailure_enters a nobody
  · exact countFailure_enters a nobody
  · exact countFailure_enters a nobody
  · exact finishAuthentication_enters a nobody
  · rename_i scram
    refine handleScram_enters a nobody ?_
    exact known (user_eq_none_iff.mp nobody) (by simpa using can) scram rfl
  · exact untouched
  · exact untouched

end Commands

/-- Each exchange that logs in by SCRAM is of a user whose store is the one that sessions are made
with. -/
def ScramBound (ctx : Context S) (w : World S) : Event S → Prop
  | .command (.authenticate exchange) _ => ScramKnown ctx w.session exchange
  | _ => True

/-- The terms under which nothing but the place of a session without a user matters. -/
def anchorTerms (ctx : Context S) (s : Session S) : Terms S where
  lawful := fun _ => True
  seat := fun store owner => s.user = none → store = ctx.store ∧ owner = none

omit [DecidableEq S] in
theorem Anchored.of_kept (a : Anchored ctx s)
    (k : Kept (anchorTerms ctx s) s.user s.ownStore c) : Anchored ctx c.session := by
  refine ⟨fun nobody => ?_, fun resolver configured user known => ?_⟩
  · rw [k.user] at nobody
    obtain ⟨store, owner⟩ := k.seat nobody
    exact ⟨store, k.own.trans (a.fresh nobody).2.1, owner⟩
  · rw [k.own]
    exact a.bound resolver configured user (k.user ▸ known)

omit [DecidableEq S] in
theorem Anchored.kept (a : Anchored ctx s) (realm : Realm S) :
    Kept (anchorTerms ctx s) s.user s.ownStore { session := s, realm, accesses := [] } :=
  ⟨rfl, rfl, fun nobody => ⟨(a.fresh nobody).1, (a.fresh nobody).2.2⟩, by simp⟩

omit [DecidableEq S] in
theorem licensed_anchorTerms (s : Session S) (realm : Realm S) (command : Command) :
    Licensed ctx (anchorTerms ctx s) s realm command := by
  cases command with
  | select =>
    exact fun known _ _ _ => ⟨trivial, fun nobody => absurd nobody known⟩
  | _ =>
    simp [Licensed, OnSelected, OnChecked, OnNamed, OnStore, OnListing, anchorTerms]

omit [DecidableEq S] in
theorem Anchored.run {w : World S} {α : Type} {h : Handler S α} {P : Conn S → Prop}
    (run : wp h (fun _ => P) P { session := w.session, realm := w.realm, accesses := [] })
    (anchored : ∀ t, P t → Anchored ctx t.session) : Anchored ctx (w.run h).session :=
  anchored _ (finalState_of_wp run)

/-- An event keeps a session anchored, if it is no SCRAM login of somebody else. -/
theorem Anchored.step {w w' : World S} {event : Event S} (a : Anchored ctx w.session)
    (bound : ScramBound ctx w event) (h : step ctx w event = some w') :
    Anchored ctx w'.session := by
  have home : (anchorTerms ctx w.session).seat w.session.ownStore none :=
    fun nobody => ⟨(a.fresh nobody).2.1, rfl⟩
  have plain : ∀ {α : Type} {h : Handler S α},
      Keeps (anchorTerms ctx w.session) w.session.user w.session.ownStore h
        { session := w.session, realm := w.realm, accesses := [] } →
      Anchored ctx (w.run h).session :=
    fun kept => Anchored.run kept fun _ k => a.of_kept k
  have attempt : ∀ {h : Handler S Completion},
      wp h (fun _ => Attempted ctx { session := w.session, realm := w.realm, accesses := [] })
        (Attempted ctx { session := w.session, realm := w.realm, accesses := [] })
        { session := w.session, realm := w.realm, accesses := [] } →
      Anchored ctx (w.run h).session := by
    refine fun run => Anchored.run run fun t attempted => ?_
    rcases attempted with ⟨-, rfl⟩ | ⟨-, entered⟩
    · exact a
    · exact entered.anchored
  cases event with
  | command command ch =>
    simp only [Imap.step] at h
    split at h
    · cases h
    cases h
    cases command with
    | login => exact attempt (handleLogin_attempted a)
    | authenticate => exact attempt (handleAuthenticate_attempted a bound)
    | _ => exact plain (dispatch_keeps (a.kept _) home rfl (licensed_anchorTerms _ _ _))
  | poll ch =>
    simp only [Imap.step] at h
    split at h
    · cases h
    cases h
    exact plain (pollIdle_keeps (a.kept _) fun _ _ => trivial)
  | line text =>
    simp only [Imap.step] at h
    split at h
    · cases h
    cases h
    exact ⟨a.fresh, a.bound⟩
  | hangUp =>
    simp only [Imap.step] at h
    split at h
    · cases h
    cases h
    exact ⟨a.fresh, a.bound⟩
  | outside change =>
    cases h
    exact a

omit [DecidableEq S] in
theorem anchored_start (secured starttlsAvailable : Bool) :
    Anchored ctx (Session.start ctx secured starttlsAvailable) :=
  ⟨fun _ => ⟨rfl, rfl, rfl⟩, nofun⟩

/-- The own store of every session of a user is the one that the resolver knows for the user, along
every run whose SCRAM logins are of users with the store that sessions are made with. -/
theorem authentication_binds_store {resolver : Resolver S} {secured starttlsAvailable : Bool}
    {realm : Realm S} {events : List (Event S)} {w : World S}
    (configured : ctx.resolver = some resolver)
    (h : Runs (step ctx) (ScramBound ctx) (.start ctx secured starttlsAvailable realm) events w) :
    ∀ user, w.session.user = some user → resolver.resolve user = some w.session.ownStore := by
  have anchored : Anchored ctx w.session :=
    @Runs.invariant _ _ _ _ (fun w => Anchored ctx w.session) _ _ _ h
      (anchored_start secured starttlsAvailable) fun _ _ _ a bound run => a.step bound run
  exact anchored.bound resolver configured

/-- A server with a store 0 of nobody in particular and the stores 1 and 2 of two users. -/
def exampleContext : Context Nat where
  store := 0
  resolver := some
    { resolve := fun user =>
        if toAsciiLowercase user = "alice" then some 1
        else if toAsciiLowercase user = "bob" then some 2 else none
      users := ["alice", "bob"]
      ignoresCase := fun u v same => by rw [same] }
  requireTls := true
  maxAuthFailures := 5
  maxMessageSize := 67108864
  allowSetquota := false
  matchesPattern := fun pattern name => pattern = name

def exampleChoices : Choices where
  drawn := fun i => "1.M" ++ toString i ++ "P1Q1.host"
  fresh := 7
  stamp := 1
  sameArc := true
  authenticate := fun user _ => .success user

def exampleRealm : Realm Nat := fun _ =>
  { folders := [(inbox, Folder.empty)], quota := none, usage := none }

def login (user : String) : Event Nat := .command (.login user "secret") exampleChoices

def scramLogin (user : String) : Event Nat :=
  .command (.authenticate (.scram
    { first := .ok (some user), verified := true, acknowledgement := some "" })) exampleChoices

theorem authentication_binds_store_login :
    ∃ w, Runs (step exampleContext) (ScramBound exampleContext)
        (.start exampleContext true false exampleRealm) [login "bob"] w ∧
      w.session.user = some "bob" ∧
      ∀ resolver, exampleContext.resolver = some resolver →
        resolver.resolve "bob" = some w.session.ownStore := by
  have run : Runs (step exampleContext) (ScramBound exampleContext)
      (.start exampleContext true false exampleRealm) ([] ++ [login "bob"]) _ :=
    Runs.snoc (.nil _) trivial rfl
  exact ⟨_, run, rfl, fun resolver configured =>
    authentication_binds_store configured run "bob" rfl⟩

/-- After a SCRAM login the session of a user is in the store that it was made with, which is not
the user's, and so is one of a user whom the resolver does not know. -/
theorem scram_login_keeps_initial_store :
    (∃ w, Reaches (step exampleContext) (.start exampleContext true false exampleRealm)
        [scramLogin "alice"] w ∧ w.session.user = some "alice" ∧
      ∀ resolver, exampleContext.resolver = some resolver →
        resolver.resolve "alice" ≠ some w.session.ownStore) ∧
    ∃ w, Reaches (step exampleContext) (.start exampleContext true false exampleRealm)
        [scramLogin "mallory"] w ∧ w.session.user = some "mallory" ∧
      ∀ resolver, exampleContext.resolver = some resolver →
        resolver.resolve "mallory" = none := by
  refine ⟨⟨_, reaches_of_exec rfl, by decide, ?_⟩, ⟨_, reaches_of_exec rfl, by decide, ?_⟩⟩
  · rintro _ ⟨⟩
    decide
  · rintro _ ⟨⟩
    decide

end MailStack.Imap
