import MailStack.Imap.Authentication

/-! The isolation of the stores: which accesses a user may make, the invariant of a session that
keeps them apart, and the commands that break it while a folder of somebody else is selected. -/

namespace MailStack.Imap

open Lib Maildir Handler

variable {S : Type} [DecidableEq S] {ctx : Context S} {ch : Choices} {resolver : Resolver S}
  {realm : Realm S} {s : Session S} {me : String} {w : World S}

/-- The access is one to the user's own store, or the ACL of the folder gives the user the rights
that it takes. -/
def Permitted (resolver : Resolver S) (realm : Realm S) (user : Option String) (a : Access S) :
    Prop :=
  ∃ me, user = some me ∧
    (resolver.resolve me = some a.store ∨
      ∃ folder rights acl, a.folder = some folder ∧ a.rights = some rights ∧
        readAcl (realm a.store) folder = .ok acl ∧
        grants acl (toAsciiLowercase me) rights = true)

/-- Where a session may sit: in its own store, or in the store of the owner whose folder is
selected. -/
def Placed (resolver : Resolver S) (own store : S) (owner : Option String) : Prop :=
  (owner = none → store = own) ∧ ∀ o, owner = some o → resolver.resolve o = some store

/-- What keeps the stores apart. -/
structure Isolated (ctx : Context S) (resolver : Resolver S) (s : Session S) : Prop where
  anchored : Anchored ctx s
  placed : Placed resolver s.ownStore s.store s.selectedOwner

def Session.foreign (s : Session S) : Bool :=
  match s.selectedOwner with
  | none => false
  | some owner => s.user.map toAsciiLowercase ≠ some owner

def Holds (s : Session S) (realm : Realm S) (rights : String) : Prop :=
  ∀ view, s.view = some view →
    checkSharedRights (realm s.store) view.folder s.selectedOwner s.user rights = .ok ()

/-- A command that is safe while a folder of another user is selected: it names shared mailboxes
only, it does nothing to the current store as a whole, and the user still has the rights on the
selected folder that it takes without a check. -/
def Discreet (s : Session S) (realm : Realm S) : Command → Prop
  | .select mailbox _ _ | .status mailbox | .getAcl mailbox | .setAcl mailbox _ _
  | .deleteAcl mailbox _ | .listRights mailbox _ | .myRights mailbox
  | .create mailbox | .delete mailbox | .subscribe mailbox _ => isShared mailbox = true
  | .rename source target => isShared source = true ∨ isShared target = true
  | .list lsub reference pattern =>
    lsub = false ∧ isShared (resolvePattern reference pattern) = true
  | .getQuota _ | .getQuotaRoot _ | .setQuota _ _ => False
  | .getMetadata mailbox | .setMetadata mailbox =>
    ∃ name, mailbox = some name ∧ isShared name = true
  | .append mailbox _ | .copy _ _ mailbox => isShared mailbox = true ∧ Holds s realm "r"
  | .move _ _ mailbox => isShared mailbox = true ∧ Holds s realm "r" ∧ Holds s realm "t"
  | .noop | .search _ _ _ | .sort _ _ _ | .thread _ _ => Holds s realm "r"
  | .fetch _ _ items _ => Holds s realm "r" ∧ (marksSeen items = true → Holds s realm "w")
  | _ => True

/-- The condition on the events of a session: SCRAM logs in only users with the store that sessions
are made with, and commands are discreet while a folder of another user is selected. -/
def Careful (ctx : Context S) (w : World S) : Event S → Prop
  | .command command _ =>
    (∀ exchange, command = .authenticate exchange → ScramKnown ctx w.session exchange) ∧
      (w.session.foreign = true → Discreet w.session w.realm command)
  | .poll _ => w.session.foreign = true → Holds w.session w.realm "r"
  | _ => True

section Permissions

omit [DecidableEq S]

theorem Permitted.own {a : Access S} (user : s.user = some me)
    (own : resolver.resolve me = some a.store) : Permitted resolver realm s.user a :=
  ⟨me, user, .inl own⟩

theorem permitted_of_check {store : S} {folder owner rights : String} (user : s.user = some me)
    (found : resolver.resolve owner = some store)
    (allowed : checkSharedRights (realm store) folder (some (toAsciiLowercase owner)) s.user rights =
      .ok ()) :
    Permitted resolver realm s.user { store, folder := some folder, rights := some rights } := by
  have passed := checkSharedRights_ok allowed
  simp only [user, Option.getD_some] at passed
  rcases passed with same | ⟨acl, read, granted⟩
  · exact .own user ((resolver.ignoresCase me owner same).trans found)
  · exact ⟨me, user, .inr ⟨folder, rights, acl, rfl, rfl, read, granted⟩⟩

theorem Isolated.current (i : Isolated ctx resolver s) (configured : ctx.resolver = some resolver)
    (user : s.user = some me) (domestic : s.foreign = false) :
    resolver.resolve me = some s.store := by
  have own := i.anchored.bound resolver configured me user
  unfold Session.foreign at domestic
  split at domestic
  · rename_i unowned
    rw [own, i.placed.1 unowned]
  · rename_i owner owned
    have same : toAsciiLowercase me = owner := by simpa [user] using domestic
    rw [← i.placed.2 owner owned, ← same]
    exact resolver.ignoresCase _ _ (toAsciiLowercase_toAsciiLowercase me).symm

/-- A mailbox that passed its check is permitted, and a place to be in. -/
theorem Isolated.named (i : Isolated ctx resolver s) (configured : ctx.resolver = some resolver)
    (user : s.user = some me) {name rights : String} {m : ResolvedMailbox S}
    (safe : s.foreign = true → isShared name = true)
    (found : resolveMailbox ctx.resolver s.store name = .ok m)
    (allowed : checkSharedRights (realm m.store) m.folder m.owner s.user rights = .ok ()) :
    Permitted resolver realm s.user
        { store := m.store, folder := some m.folder, rights := some rights } ∧
      Placed resolver s.ownStore m.store m.owner := by
  cases shared : isShared name with
  | false =>
    have domestic : s.foreign = false := by
      by_contra foreign
      rw [safe (Bool.eq_true_of_not_eq_false foreign)] at shared
      cases shared
    have current := i.current configured user domestic
    rw [resolveMailbox_own shared] at found
    cases found
    have own := i.anchored.bound resolver configured me user
    exact ⟨.own user current, fun _ => Option.some.inj (current.symm.trans own), nofun⟩
  | true =>
    obtain ⟨r, owner, hr, owned, store⟩ := resolveMailbox_shared shared found
    obtain rfl : resolver = r := Option.some.inj (configured.symm.trans hr)
    rw [owned] at allowed ⊢
    refine ⟨permitted_of_check user store allowed, nofun, ?_⟩
    rintro _ ⟨⟩
    rw [← store]
    exact resolver.ignoresCase _ _ (toAsciiLowercase_toAsciiLowercase owner)

variable {rights : String}

theorem Isolated.selected (i : Isolated ctx resolver s) (configured : ctx.resolver = some resolver)
    {view : View} (shown : s.view = some view) (allowed : s.foreign = true →
      checkSharedRights (realm s.store) view.folder s.selectedOwner s.user rights = .ok ()) :
    Permitted resolver realm s.user
      { store := s.store, folder := some view.folder, rights := some rights } := by
  obtain ⟨me, user⟩ := Option.ne_none_iff_exists'.mp (user_ne_none_of_view shown)
  cases foreign : s.foreign with
  | false => exact .own user (i.current configured user foreign)
  | true =>
    have passed := allowed foreign
    unfold Session.foreign at foreign
    split at foreign
    · cases foreign
    · rename_i owner owned
      rw [owned] at passed
      have outcome := checkSharedRights_ok passed
      simp only [user, Option.getD_some] at outcome
      rcases outcome with same | ⟨acl, read, granted⟩
      · simp [user, same] at foreign
      · exact ⟨me, user, .inr ⟨view.folder, rights, acl, rfl, rfl, read, granted⟩⟩

end Permissions

def isolationTerms (resolver : Resolver S) (s : Session S) (realm : Realm S) : Terms S where
  lawful := Permitted resolver realm s.user
  seat := Placed resolver s.ownStore

section Licences

omit [DecidableEq S]

section

variable (configured : ctx.resolver = some resolver)

include configured

section

variable (i : Isolated ctx resolver s)

include i

theorem Isolated.onSelected
    (holds : s.foreign = true → Holds s realm rights) :
    OnSelected (isolationTerms resolver s realm) s rights :=
  fun view shown => i.selected configured shown fun foreign => holds foreign view shown

theorem Isolated.onChecked :
    OnChecked (isolationTerms resolver s realm) s realm rights :=
  fun _ shown allowed => i.selected configured shown fun _ => allowed

theorem Isolated.onNamed
    {name rights : String}
    (safe : s.foreign = true → isShared name = true) :
    OnNamed ctx (isolationTerms resolver s realm) s realm name rights := by
  intro known m found allowed
  obtain ⟨me, user⟩ := Option.ne_none_iff_exists'.mp known
  exact (i.named configured user safe found allowed).1

theorem Isolated.maySelect
    {name : String}
    (safe : s.foreign = true → isShared name = true) :
    MaySelect ctx (isolationTerms resolver s realm) s realm name := by
  intro known m found allowed
  obtain ⟨me, user⟩ := Option.ne_none_iff_exists'.mp known
  exact i.named configured user safe found allowed

theorem Isolated.onStore
    (domestic : s.foreign = false) :
    OnStore (isolationTerms resolver s realm) s := by
  intro known folder
  obtain ⟨me, user⟩ := Option.ne_none_iff_exists'.mp known
  exact .own user (i.current configured user domestic)

end

theorem onListing_isolated :
    OnListing ctx (isolationTerms resolver s realm) s realm := by
  intro known r owner store folder hr found allowed
  obtain ⟨me, user⟩ := Option.ne_none_iff_exists'.mp known
  obtain rfl : resolver = r := Option.some.inj (configured.symm.trans hr)
  have passed := checkSharedRights_ok allowed
  simp only [user, Option.getD_some, toAsciiLowercase_toAsciiLowercase] at passed
  rcases passed with same | ⟨acl, read, granted⟩
  · exact .own user ((resolver.ignoresCase me owner same).trans found)
  · exact ⟨me, user, .inr ⟨folder, "l", acl, rfl, rfl, read, granted⟩⟩

/-- A command that is discreet where it has to be is licensed. -/
theorem Isolated.licensed (i : Isolated ctx resolver s)
    {command : Command} (discreet : s.foreign = true → Discreet s realm command) :
    Licensed ctx (isolationTerms resolver s realm) s realm command := by
  -- what only the owner may do is refused or ruled out while the folder of another is selected
  have domestic : ∀ {P : Prop}, (s.foreign = true → ¬P) → P → s.foreign = false :=
    fun refused p => Bool.eq_false_of_not_eq_true fun foreign => refused foreign p
  cases command with
  | noop | search | sort | thread => exact i.onSelected configured discreet
  | fetch =>
    exact ⟨i.onSelected configured fun foreign => (discreet foreign).1,
      fun marked => i.onSelected configured fun foreign => (discreet foreign).2 marked⟩
  | store | close | expunge => exact i.onChecked configured
  | select => exact i.maySelect configured discreet
  | create | delete | subscribe =>
    refine fun unshared => i.onStore configured (domestic (fun foreign => ?_) unshared)
    simp [show isShared _ = true from discreet foreign]
  | rename source target =>
    intro plain unshared
    have home : s.foreign = false := by
      refine domestic (fun foreign => ?_) (And.intro plain unshared)
      rintro ⟨h, h'⟩
      rcases discreet foreign with shared | shared
      · rw [h] at shared
        cases shared
      · rw [h'] at shared
        cases shared
    refine ⟨i.onStore configured home, fun known folder => ?_⟩
    obtain ⟨me, user⟩ := Option.ne_none_iff_exists'.mp known
    exact .own user (i.current configured user home)
  | list lsub reference pattern =>
    refine ⟨onListing_isolated configured, fun unshared => i.onStore configured ?_⟩
    refine domestic (fun foreign => ?_) unshared
    obtain ⟨rfl, shared⟩ := discreet foreign
    simp [shared]
  | getQuota | getQuotaRoot | setQuota =>
    exact i.onStore configured (Bool.eq_false_of_not_eq_true fun foreign => discreet foreign)
  | getMetadata mailbox | setMetadata mailbox =>
    refine fun unshared => i.onStore configured (domestic (fun foreign => ?_) unshared)
    obtain ⟨name, rfl, shared⟩ := discreet foreign
    intro h
    rw [h name rfl] at shared
    cases shared
  | status | getAcl | listRights | myRights | setAcl | deleteAcl =>
    exact i.onNamed configured discreet
  | append | copy =>
    exact ⟨i.onNamed configured fun foreign => (discreet foreign).1,
      i.onSelected configured fun foreign => (discreet foreign).2⟩
  | move =>
    exact ⟨i.onNamed configured fun foreign => (discreet foreign).1,
      i.onSelected configured fun foreign => (discreet foreign).2.1,
      i.onSelected configured fun foreign => (discreet foreign).2.2⟩
  | _ => trivial

end

end Licences

/-- The session is isolated, and every access so far was permitted. -/
structure World.Isolated (ctx : Context S) (resolver : Resolver S) (w : World S) : Prop where
  session : Imap.Isolated ctx resolver w.session
  permitted : ∀ entry ∈ w.log, Permitted resolver entry.realm entry.user entry.access

omit [DecidableEq S] in
theorem Careful.scramBound {event : Event S} (careful : Careful ctx w event) :
    ScramBound ctx w event := by
  unfold ScramBound
  split
  · exact careful.1 _ rfl
  · trivial

omit [DecidableEq S] in
theorem Isolated.kept (i : Isolated ctx resolver s) (realm : Realm S) :
    Kept (isolationTerms resolver s realm) s.user s.ownStore
      { session := s, realm, accesses := [] } :=
  ⟨rfl, rfl, i.placed, by simp⟩

omit [DecidableEq S] in
theorem World.Isolated.run (i : w.Isolated ctx resolver) {α : Type}
    {h : Handler S α}
    (anchored : Anchored ctx (w.run h).session)
    (kept : Keeps (isolationTerms resolver w.session w.realm) w.session.user w.session.ownStore h
      { session := w.session, realm := w.realm, accesses := [] }) :
    (w.run h).Isolated ctx resolver := by
  have k := finalState_of_wp kept
  refine ⟨⟨anchored, ?_⟩, fun entry mem => ?_⟩
  · have seat : Placed resolver w.session.ownStore _ _ := k.seat
    rw [← k.own] at seat
    exact seat
  · rcases List.mem_append.mp mem with old | new
    · exact i.permitted entry old
    · obtain ⟨a, made, rfl⟩ := List.mem_map.mp new
      exact k.lawful a made

omit [DecidableEq S] in
theorem World.Isolated.attempt {w : World S} (i : w.Isolated ctx resolver)
    {h : Handler S Completion} (anchored : Anchored ctx (w.run h).session)
    (run : wp h (fun _ => Attempted ctx { session := w.session, realm := w.realm, accesses := [] })
      (Attempted ctx { session := w.session, realm := w.realm, accesses := [] })
      { session := w.session, realm := w.realm, accesses := [] }) :
    (w.run h).Isolated ctx resolver := by
  have attempted := finalState_of_wp run
  generalize final : finalState h _ = t at attempted
  have session : (w.run h).session = t.session := by simp [World.run, final]
  have log : (w.run h).log = w.log := by
    rcases attempted with ⟨-, rfl⟩ | ⟨-, entered⟩
    · simp [World.run, final]
    · simp [World.run, final, entered.accesses]
  refine ⟨⟨anchored, ?_⟩, by rw [log]; exact i.permitted⟩
  rw [session]
  rcases attempted with ⟨-, rfl⟩ | ⟨-, entered⟩
  · exact i.session.placed
  · refine ⟨fun _ => entered.home, fun o owned => ?_⟩
    rw [entered.unowned] at owned
    cases owned

/-- A careful event keeps the stores apart. -/
theorem World.Isolated.step {w w' : World S} {event : Event S} (i : w.Isolated ctx resolver)
    (configured : ctx.resolver = some resolver) (careful : Careful ctx w event)
    (h : step ctx w event = some w') : w'.Isolated ctx resolver := by
  have anchored := i.session.anchored.step careful.scramBound h
  have home : (isolationTerms resolver w.session w.realm).seat w.session.ownStore none :=
    ⟨fun _ => rfl, nofun⟩
  have kept := i.session.kept w.realm
  cases event with
  | command command ch =>
    simp only [Imap.step] at h
    split at h
    · cases h
    cases h
    cases command with
    | login => exact i.attempt anchored (handleLogin_attempted i.session.anchored)
    | authenticate =>
      exact i.attempt anchored
        (handleAuthenticate_attempted i.session.anchored (careful.1 _ rfl))
    | _ =>
      exact i.run anchored
        (dispatch_keeps kept home rfl (i.session.licensed configured careful.2))
  | poll ch =>
    simp only [Imap.step] at h
    split at h
    · cases h
    cases h
    exact i.run anchored (pollIdle_keeps kept (i.session.onSelected configured careful))
  | line text =>
    simp only [Imap.step] at h
    split at h
    · cases h
    cases h
    exact i.run anchored ⟨rfl, rfl, i.session.placed, by simp⟩
  | hangUp =>
    simp only [Imap.step] at h
    split at h
    · cases h
    cases h
    exact ⟨⟨anchored, i.session.placed⟩, i.permitted⟩
  | outside change =>
    cases h
    exact ⟨i.session, i.permitted⟩

/-- Along every run of careful events, every access is to the user's own store or permitted by the
ACL of the folder, whatever others do to the stores and their ACLs. -/
theorem store_isolation {secured starttlsAvailable : Bool} {realm : Realm S}
    {events : List (Event S)} {w : World S} (configured : ctx.resolver = some resolver)
    (h : Runs (step ctx) (Careful ctx) (.start ctx secured starttlsAvailable realm) events w) :
    ∀ entry ∈ w.log, Permitted resolver entry.realm entry.user entry.access := by
  have start : (World.start ctx secured starttlsAvailable realm).Isolated ctx resolver :=
    ⟨⟨anchored_start secured starttlsAvailable, fun _ => rfl, nofun⟩, by simp [World.start]⟩
  have isolated : w.Isolated ctx resolver :=
    h.invariant start fun _ _ _ i careful run => i.step configured careful run
  exact isolated.permitted

/-- Alice lets Bob read one folder; nobody else has anything but an empty inbox. -/
def sharingRealm : Realm Nat := fun store =>
  if store = 1 then
    { folders := [(inbox, Folder.empty), ("Team", { Folder.empty with acl := [("bob", "lr")] })]
      quota := none
      usage := none }
  else exampleRealm store

def select (mailbox : String) : Event Nat := .command (.select mailbox [] true) exampleChoices

/-- Logins by password and the selection of shared folders are careful. -/
def isDiscreet : Event Nat → Bool
  | .command (.login _ _) _ => true
  | .command (.select mailbox _ _) _ => isShared mailbox
  | _ => false

theorem careful_of_isDiscreet {ctx : Context Nat} (w : World Nat) (event : Event Nat)
    (h : isDiscreet event = true) : Careful ctx w event := by
  unfold isDiscreet at h
  split at h
  · exact ⟨nofun, fun _ => trivial⟩
  · exact ⟨nofun, fun _ => h⟩
  · cases h

theorem store_isolation_shared :
    ∃ w, Runs (step exampleContext) (Careful exampleContext)
        (.start exampleContext true false sharingRealm)
        [login "bob", select "shared/alice/Team", select "shared/alice/Team"] w ∧
      w.session.foreign = true ∧ w.log.length = 2 ∧
      ∀ resolver, exampleContext.resolver = some resolver →
        ∀ entry ∈ w.log, Permitted resolver entry.realm entry.user entry.access := by
  have run : (checkedExec (step exampleContext) (fun _ => isDiscreet)
      (.start exampleContext true false sharingRealm)
      [login "bob", select "shared/alice/Team", select "shared/alice/Team"]).any
        (fun w => w.session.foreign && w.log.length = 2) = true := by
    decide +kernel
  obtain ⟨w, exec, facts⟩ := (Option.any_eq_true _ _).mp run
  have runs : Runs (step exampleContext) (Careful exampleContext) _ _ w :=
    runs_of_checkedExec careful_of_isDiscreet exec
  obtain ⟨foreign, length⟩ := (Bool.and_eq_true _ _).mp facts
  exact ⟨w, runs, foreign, of_decide_eq_true length,
    fun resolver configured => store_isolation configured runs⟩

/-- The access is made by the user on a folder of another store whose ACL is silent about the
user. -/
def isForbidden (resolver : Resolver Nat) (entry : Entry Nat) (me folder : String) : Bool :=
  entry.user = some me && resolver.resolve me ≠ some entry.access.store &&
    entry.access.folder = some folder &&
    match readAcl (entry.realm entry.access.store) folder with
    | .ok acl => (aclEntry acl (toAsciiLowercase me)).isNone
    | .error _ => true

theorem not_permitted_of_isForbidden {resolver : Resolver Nat} {entry : Entry Nat}
    {me folder : String} (h : isForbidden resolver entry me folder = true) :
    ¬Permitted resolver entry.realm entry.user entry.access := by
  rintro ⟨me', user, own | ⟨folder', rights, acl, named, -, read, granted⟩⟩
  all_goals
    simp only [isForbidden, user, Bool.and_eq_true, decide_eq_true_eq, Option.some.injEq] at h
    obtain ⟨⟨⟨rfl, other⟩, same⟩, silent⟩ := h
  · exact other own
  · obtain rfl : folder' = folder := Option.some.inj (named.symm.trans same)
    rw [read] at silent
    simp [grants, Option.isNone_iff_eq_none.mp silent] at granted

/-- Once Bob has selected the folder that Alice shares, a name without owner is one of Alice's: he
opens her inbox, which is not shared. -/
theorem selecting_shared_folder_opens_the_others :
    ∃ w, Reaches (step exampleContext) (.start exampleContext true false sharingRealm)
        [login "bob", select "shared/alice/Team", select "INBOX"] w ∧
      ∃ entry ∈ w.log, ∀ resolver, exampleContext.resolver = some resolver →
        ¬Permitted resolver entry.realm entry.user entry.access := by
  have run : (exec (step exampleContext) (.start exampleContext true false sharingRealm)
      [login "bob", select "shared/alice/Team", select "INBOX"]).any (fun w =>
        w.log.any fun entry => exampleContext.resolver.all fun resolver =>
          isForbidden resolver entry "bob" "INBOX") = true := by
    decide +kernel
  obtain ⟨w, exec, forbidden⟩ := (Option.any_eq_true _ _).mp run
  obtain ⟨entry, mem, all⟩ := List.any_eq_true.mp forbidden
  refine ⟨w, reaches_of_exec exec, entry, mem, fun resolver configured => ?_⟩
  rw [configured] at all
  exact not_permitted_of_isForbidden (by simpa using all)

end MailStack.Imap
