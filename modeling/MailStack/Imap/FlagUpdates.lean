import MailStack.Imap.Terms
import MailStack.Maildir.StoredFlags

/-! Sessions that have one folder selected and change flags in it at the same time. Each change of
the flags of one message is one step; a STORE goes on from what its session shows. -/

namespace MailStack.Imap

open Lib Maildir Handler

/-- What became of a message that a STORE with UNCHANGEDSINCE came to. The number is the one under
which the message would be reported. -/
structure Ruling where
  number : Nat
  limit : Nat
  before : Option (FlagSet × Nat)
  after : Option (FlagSet × Nat)
deriving DecidableEq

structure StoreRun where
  job : StoreJob
  rest : List (Nat × Nat)
  modified : List Nat
  rulings : List Ruling

structure StoreEnd where
  completion : Completion
  rulings : List Ruling

/-- `owed` are, for each UID, the flags that were added since flags of the message were last removed
or replaced. -/
structure Sessions (P S : Type) where
  realm : Realm S
  sessions : P → Session S
  running : P → Option StoreRun
  owed : Nat → FlagSet
  ended : List StoreEnd

inductive FlagStep (P : Type)
  | begin (p : P) (uidMode : Bool) (set : String) (mode : StoreMode) (flags : FlagSet)
      (unchangedSince : Option Nat)
  | target (p : P)
  | finish (p : P)
  | noop (p : P) (choices : Choices)

namespace Sessions

variable {P S : Type} [DecidableEq P] [DecidableEq S] (seat : S) (name : String)

def conn (w : Sessions P S) (p : P) : Conn S :=
  { session := w.sessions p, realm := w.realm, accesses := [] }

def stored (w : Sessions P S) (uid : Nat) : Option (FlagSet × Nat) :=
  (w.realm seat).stored name uid

def leave (w : Sessions P S) (p : P) (c : Conn S) (run : Option StoreRun) : Sessions P S :=
  { w with
    realm := c.realm
    sessions := Function.update w.sessions p c.session
    running := Function.update w.running p run }

def owedAfter (job : StoreJob) (owed : FlagSet) : FlagSet :=
  match job.mode with
  | .add => owed ∪ job.flags
  | _ => ∅

/-- A STORE has treated one of its targets. The flags were written if the store was accessed. -/
def treated (w : Sessions P S) (p : P) (run : StoreRun) (number uid : Nat)
    (rest : List (Nat × Nat)) (reported : Option Nat) (c : Conn S) : Sessions P S :=
  let ruling (limit : Nat) : Ruling :=
    { number := run.job.report number uid
      limit
      before := w.stored seat name uid
      after := (c.realm seat).stored name uid }
  let run' :=
    { run with
      rest
      modified := run.modified ++ reported.toList
      rulings := run.rulings ++ (run.job.unchangedSince.map ruling).toList }
  { w.leave p c (some run') with
    owed :=
      if c.accesses.isEmpty then w.owed
      else Function.update w.owed uid (owedAfter run.job (w.owed uid)) }

def step (w : Sessions P S) : FlagStep P → Option (Sessions P S)
  | .begin p uidMode set mode flags unchangedSince =>
    match w.running p with
    | some _ => none
    | none =>
      match beginStore uidMode set mode flags unchangedSince (w.conn p) with
      | .ok (job, targets) c =>
        some (w.leave p c (some { job, rest := targets, modified := [], rulings := [] }))
      | .error _ c => some (w.leave p c none)
  | .target p =>
    match w.running p with
    | none => none
    | some run =>
      match run.rest with
      | [] => none
      | (number, uid) :: rest =>
        match storeTarget run.job number uid (w.conn p) with
        | .ok reported c => some (w.treated seat name p run number uid rest reported c)
        | .error _ c => some (w.leave p c none)
  | .finish p =>
    match w.running p with
    | none => none
    | some run =>
      if run.rest = [] then
        let answer := { completion := storeCompleted run.modified, rulings := run.rulings }
        some { w.leave p (w.conn p) none with ended := w.ended ++ [answer] }
      else none
  | .noop p ch =>
    match w.running p with
    | some _ => none
    | none => some (w.leave p (finalState (handleNoop ch) (w.conn p)) none)

end Sessions

/-! ### What is claimed -/

/-- A message was changed only under the limit, and is reported when it was modified since. -/
def Ruling.Just (r : Ruling) (modified : List Nat) : Prop :=
  (r.after ≠ r.before → ∃ flags modseq, r.before = some (flags, modseq) ∧ modseq ≤ r.limit) ∧
    ∀ flags modseq, r.before = some (flags, modseq) → r.limit < modseq → r.number ∈ modified

namespace Sessions

variable {P S : Type} [DecidableEq P] [DecidableEq S] (seat : S) (name : String)

/-- The flags that are owed to the clients are stored. -/
def NothingLost (w : Sessions P S) : Prop :=
  ∀ uid, w.owed uid = ∅ ∨
    ∃ flags modseq, w.stored seat name uid = some (flags, modseq) ∧ w.owed uid ⊆ flags

/-- Every STORE with UNCHANGEDSINCE that was answered kept to it. -/
def Guarded (w : Sessions P S) : Prop :=
  ∀ e ∈ w.ended, ∃ modified, e.completion = storeCompleted modified ∧
    ∀ r ∈ e.rulings, r.Just modified

/-- All sessions have the folder selected, and no STORE was made yet. -/
structure Start (w : Sessions P S) : Prop where
  seated : ∀ p, (w.sessions p).store = seat ∧
    ∃ view, (w.sessions p).view = some view ∧ view.folder = name
  idle : ∀ p, w.running p = none
  owed : ∀ uid, w.owed uid = ∅
  ended : w.ended = []

def shown (w : Sessions P S) (p : P) (number : Nat) : Option MessageMeta :=
  (w.sessions p).view.bind fun view => view.messages[number - 1]?

/-- What the session shows of the message that a STORE comes to is good enough: it is on the same
side of the limit as what is stored, and when flags are added it has all flags that are stored. -/
def Current (w : Sessions P S) (p : P) (job : StoreJob) (number uid : Nat) : Prop :=
  ∀ message flags modseq, w.shown p number = some message →
    w.stored seat name uid = some (flags, modseq) →
    (∀ limit, job.unchangedSince = some limit → (message.modseq ≤ limit ↔ modseq ≤ limit)) ∧
    (job.mode = .add → (∀ limit, job.unchangedSince = some limit → message.modseq ≤ limit) →
      flags ⊆ message.flags)

/-- What a STORE comes to is shown as it is stored. -/
def Timely (w : Sessions P S) : FlagStep P → Prop
  | .target p => ∀ run number uid rest, w.running p = some run →
      run.rest = (number, uid) :: rest → w.Current seat name p run.job number uid
  | _ => True

end Sessions

/-! ### The parts of a STORE -/

section Parts

variable {S : Type} [DecidableEq S] {c : Conn S} {folder : String}

/-- What a STORE does to one of its targets. -/
inductive Treats (job : StoreJob) (number uid : Nat) (c : Conn S) :
    EStateM.Result Completion (Conn S) (Option Nat) → Prop
  | absent (h : (c.session.view.bind fun view => view.messages[number - 1]?) = none) :
      Treats job number uid c (.ok none c)
  | modified {message : MessageMeta} {limit : Nat}
      (h : (c.session.view.bind fun view => view.messages[number - 1]?) = some message)
      (limited : job.unchangedSince = some limit) (larger : limit < message.modseq) :
      Treats job number uid c (.ok (some (job.report number uid)) c)
  | failed {message : MessageMeta} {m : MailStore} {error : MailError} {access : Access S}
      (h : (c.session.view.bind fun view => view.messages[number - 1]?) = some message)
      (write : (c.realm c.session.store).setFlags job.folder uid (job.apply message.flags) =
        (m, .error error)) :
      Treats job number uid c (.error (failure error)
        { c with
          realm := Function.update c.realm c.session.store m
          accesses := c.accesses ++ [access] })
  | wrote {message updated : MessageMeta} {m : MailStore} {access : Access S}
      (h : (c.session.view.bind fun view => view.messages[number - 1]?) = some message)
      (under : ∀ limit, job.unchangedSince = some limit → message.modseq ≤ limit)
      (write : (c.realm c.session.store).setFlags job.folder uid (job.apply message.flags) =
        (m, .ok updated)) :
      Treats job number uid c (.ok none
        { session := c.session.updateViewMessage uid updated.flags updated.modseq
          realm := Function.update c.realm c.session.store m
          accesses := c.accesses ++ [access] })

def flagAccess (c : Conn S) (folder : String) : Access S :=
  { store := c.session.store, folder := some folder, rights := some "w" }

variable {flags : FlagSet} {m : MailStore} {uid : Nat}

theorem writeFlags_bind_error {error : MailError}
    (write : (c.realm c.session.store).setFlags folder uid flags = (m, .error error)) :
    (do writeFlags folder uid flags; pure none : Handler S (Option Nat)) c =
      .error (failure error)
        { c with
          realm := Function.update c.realm c.session.store m
          accesses := c.accesses ++ [flagAccess c folder] } := by
  simp [writeFlags, current, attempt, demand, bind, EStateM.bind, run_throw,
    flagAccess, write]

theorem writeFlags_bind_ok {updated : MessageMeta}
    (write : (c.realm c.session.store).setFlags folder uid flags = (m, .ok updated)) :
    (do writeFlags folder uid flags; pure none : Handler S (Option Nat)) c =
      .ok none
        { session := c.session.updateViewMessage uid updated.flags updated.modseq
          realm := Function.update c.realm c.session.store m
          accesses := c.accesses ++ [flagAccess c folder] } := by
  simp [writeFlags, current, attempt, demand, change, bind, EStateM.bind, pure, EStateM.pure,
    flagAccess, write]

theorem storeTarget_treats (job : StoreJob) (number uid : Nat) (c : Conn S) :
    Treats job number uid c (storeTarget job number uid c) := by
  have now : (current : Handler S (Session S)) c = .ok c.session c := rfl
  rw [storeTarget, run_bind now]
  cases shown : c.session.view.bind fun view => view.messages[number - 1]? with
  | none => exact .absent shown
  | some message =>
    simp only
    split
    · rename_i larger
      obtain ⟨limit, limited, more⟩ := Option.any_eq_true _ _ |>.mp larger
      exact .modified shown limited (of_decide_eq_true more)
    · rename_i under
      have below : ∀ limit, job.unchangedSince = some limit → message.modseq ≤ limit := by
        intro limit limited
        simpa [limited] using under
      rcases write : (c.realm c.session.store).setFlags job.folder uid (job.apply message.flags)
        with ⟨m, error | updated⟩
      · rw [writeFlags_bind_error write]
        exact .failed shown write
      · rw [writeFlags_bind_ok write]
        exact .wrote shown below write

/-- The targets of a STORE are messages that the session shows. -/
def Shows (view : View) (targets : List (Nat × Nat)) : Prop :=
  ∀ t ∈ targets, ∃ message, view.messages[t.1 - 1]? = some message ∧ message.uid = t.2

theorem shows_targets (view : View) (set : SequenceSet) (uidMode : Bool) :
    Shows view ((view.targets set uidMode).map fun (number, m) => (number, m.uid)) := by
  intro t mem
  obtain ⟨⟨number, m⟩, chosen, rfl⟩ := List.mem_map.mp mem
  obtain ⟨⟨m', number'⟩, inside, eq⟩ := List.mem_map.mp chosen
  obtain ⟨rfl, rfl⟩ := Prod.mk.inj eq
  obtain ⟨-, at'⟩ := List.mem_zipIdx_iff_le_and_getElem?_sub.mp (List.mem_of_mem_filter inside)
  exact ⟨m', at', rfl⟩

omit [DecidableEq S] in
theorem beginStore_spec (uidMode : Bool) (set : String) (mode : StoreMode) (flags : FlagSet)
    (unchangedSince : Option Nat) :
    wp (beginStore uidMode set mode flags unchangedSince)
      (fun r t => t = c ∧ ∃ view, c.session.view = some view ∧ r.1.folder = view.folder ∧
        Shows view r.2)
      (fun t => t = c) c := by
  simp only [beginStore, wp_bind]
  refine wp_requireSelected (fun _ view selected => ?_) rfl
  refine wp_stopIf (fun _ => ?_) rfl
  refine wp_requireSelectedRights (fun _ => ?_) rfl
  simp only [wp_current]
  refine wp_demand (fun set' _ => ?_) rfl
  refine wp_stopIf (fun _ => ?_) rfl
  exact ⟨rfl, view, selected, rfl, shows_targets view set' uidMode⟩

/-- What NOOP leaves of a session that has the folder selected. -/
structure Refreshed (name : String) (c t : Conn S) : Prop where
  store : t.session.store = c.session.store
  view : ∃ view, t.session.view = some view ∧ view.folder = name
  stored : ∀ uid flags modseq, (c.realm c.session.store).stored name uid = some (flags, modseq) →
    ∃ modseq', (t.realm c.session.store).stored name uid = some (flags, modseq')

omit [DecidableEq S] in
theorem Refreshed.mapView {name : String} {t : Conn S} (h : Refreshed name c t) {f : View → View}
    (folder : ∀ view, (f view).folder = view.folder) :
    Refreshed name c { t with session := t.session.mapView f } := by
  obtain ⟨view, selected, rfl⟩ := h.view
  exact ⟨h.store, ⟨f view, by simp [selected], folder view⟩, h.stored⟩

theorem handleNoop_refreshes {ch : Choices} {view : View} (selected : c.session.view = some view) :
    Refreshed view.folder c (finalState (handleNoop ch) c) := by
  have same : Refreshed view.folder c c := ⟨rfl, ⟨view, selected, rfl⟩, fun _ _ _ h => ⟨_, h⟩⟩
  refine finalState_of_wp ?_
  simp only [handleNoop, refreshSelected, wp_bind, wp_current, selected, wp_ite, wp_change, wp_pure,
    wp_attempt]
  refine ⟨fun _ => same.mapView fun _ => rfl, fun _ => ?_⟩
  have opened : Refreshed view.folder c
      { c with
        realm := Function.update c.realm c.session.store
          ((c.realm c.session.store).openFolder view.folder false ch.fresh).1
        accesses := c.accesses ++
          [{ store := c.session.store, folder := some view.folder, rights := some "r" }] } := by
    refine ⟨rfl, same.view, fun uid flags modseq h => ?_⟩
    simp only [Function.update_self]
    exact MailStore.openFolder_stored rfl h
  exact wp_demand (fun state _ => opened.mapView fun _ => rfl) opened

omit [DecidableEq S] in
theorem updateMessage_getElem? {messages : List MessageMeta}
    {modseq i : Nat} {message : MessageMeta} (h : messages[i]? = some message) :
    ∃ message', (updateMessage uid flags modseq messages)[i]? = some message' ∧
      message'.uid = message.uid := by
  induction messages generalizing i with
  | nil => simp at h
  | cons m rest ih =>
    unfold updateMessage
    split
    · cases i with
      | zero =>
        obtain rfl : m = message := by simpa using h
        exact ⟨_, rfl, rfl⟩
      | succ i => exact ⟨message, by simpa using h, rfl⟩
    · cases i with
      | zero => exact ⟨message, by simpa using h, rfl⟩
      | succ i => simpa using ih (by simpa using h)

omit [DecidableEq S] in
theorem Shows.updated {s : Session S} {view : View} {targets : List (Nat × Nat)} {uid : Nat}
    {flags : FlagSet} {modseq : Nat} (selected : s.view = some view) (h : Shows view targets) :
    ∃ view', (s.updateViewMessage uid flags modseq).view = some view' ∧
      view'.folder = view.folder ∧ Shows view' targets := by
  let view' : View :=
    { view with
      messages := updateMessage uid flags modseq view.messages
      highestModseq := max view.highestModseq modseq }
  have selected' : (s.updateViewMessage uid flags modseq).view = some view' := by
    rw [Session.updateViewMessage, Session.view_mapView, selected, Option.map_some]
  refine ⟨view', selected', rfl, fun t mem => ?_⟩
  obtain ⟨message, there, own⟩ := h t mem
  obtain ⟨message', there', same⟩ := updateMessage_getElem? there
  exact ⟨message', there', same.trans own⟩

end Parts

theorem Ruling.Just.mono {r : Ruling} {modified modified' : List Nat} (h : r.Just modified)
    (sub : modified ⊆ modified') : r.Just modified' :=
  ⟨h.1, fun flags modseq before larger => sub (h.2 flags modseq before larger)⟩

/-! ### Runs -/

namespace Sessions

variable {P S : Type} [DecidableEq P] [DecidableEq S] {seat : S} {name : String}
  {w : Sessions P S} {p : P} {message updated : MessageMeta} {run : Option StoreRun}
  {job : StoreJob}

structure Sound (seat : S) (name : String) (w : Sessions P S) : Prop where
  seated : ∀ p, (w.sessions p).store = seat ∧
    ∃ view, (w.sessions p).view = some view ∧ view.folder = name
  under : ∀ p run, w.running p = some run → run.job.folder = name ∧
    ∃ view, (w.sessions p).view = some view ∧ Shows view run.rest
  rulings : ∀ p run, w.running p = some run → ∀ r ∈ run.rulings, r.Just run.modified
  kept : w.NothingLost seat name
  ended : w.Guarded

omit [DecidableEq P] [DecidableEq S] in
theorem Start.sound (h : w.Start seat name) : w.Sound seat name := by
  have idle : ∀ p run, w.running p ≠ some run := fun p run => by simp [h.idle p]
  refine ⟨h.seated, fun p run running => absurd running (idle p run),
    fun p run running => absurd running (idle p run), fun uid => .inl (h.owed uid), ?_⟩
  simp [Guarded, h.ended]

omit [DecidableEq S] in
theorem Sound.moved (h : w.Sound seat name) {c : Conn S}
    {owed : Nat → FlagSet} (store : c.session.store = seat)
    (view : ∃ view, c.session.view = some view ∧ view.folder = name)
    (under : ∀ r, run = some r → r.job.folder = name ∧
      ∃ view, c.session.view = some view ∧ Shows view r.rest)
    (rulings : ∀ r, run = some r → ∀ x ∈ r.rulings, x.Just r.modified)
    (kept : ∀ uid, owed uid = ∅ ∨
      ∃ flags modseq, (c.realm seat).stored name uid = some (flags, modseq) ∧ owed uid ⊆ flags) :
    ({ w.leave p c run with owed } : Sessions P S).Sound seat name := by
  refine ⟨fun q => ?_, fun q r running => ?_, fun q r running => ?_, kept, h.ended⟩
  · by_cases same : q = p
    · subst same
      simpa [leave] using ⟨store, view⟩
    · simpa [leave, same] using h.seated q
  · by_cases same : q = p
    · subst same
      simpa [leave] using under r (by simpa [leave] using running)
    · simpa [leave, same] using h.under q r (by simpa [leave, same] using running)
  · by_cases same : q = p
    · subst same
      exact rulings r (by simpa [leave] using running)
    · exact h.rulings q r (by simpa [leave, same] using running)

omit [DecidableEq S] in
theorem Sound.left (h : w.Sound seat name) {c : Conn S}
    (store : c.session.store = seat)
    (view : ∃ view, c.session.view = some view ∧ view.folder = name)
    (under : ∀ r, run = some r → r.job.folder = name ∧
      ∃ view, c.session.view = some view ∧ Shows view r.rest)
    (rulings : ∀ r, run = some r → ∀ x ∈ r.rulings, x.Just r.modified)
    (kept : ∀ uid, w.owed uid = ∅ ∨
      ∃ flags modseq, (c.realm seat).stored name uid = some (flags, modseq) ∧
        w.owed uid ⊆ flags) :
    (w.leave p c run).Sound seat name :=
  h.moved store view under rulings kept

omit [DecidableEq P] [DecidableEq S] in
theorem kept_of_write {number uid : Nat}
    (h : w.NothingLost seat name)
    (shown : w.shown p number = some message) (current : w.Current seat name p job number uid)
    (under : ∀ limit, job.unchangedSince = some limit → message.modseq ≤ limit)
    (write : (w.realm seat).setFlags name uid (job.apply message.flags) = (m, .ok updated))
    (u : Nat) :
    Function.update w.owed uid (owedAfter job (w.owed uid)) u = ∅ ∨
      ∃ flags modseq, m.stored name u = some (flags, modseq) ∧
        Function.update w.owed uid (owedAfter job (w.owed uid)) u ⊆ flags := by
  obtain ⟨-, own, others⟩ := MailStore.setFlags_stored write
  by_cases same : u = uid
  · subst same
    rw [Function.update_self, own]
    cases mode : job.mode with
    | add =>
      refine .inr ⟨_, _, rfl, ?_⟩
      simp only [owedAfter, StoreJob.apply, mode]
      refine Finset.union_subset_union ?_ (Finset.Subset.refl _)
      rcases h u with nothing | ⟨flags, modseq, stored, owed⟩
      · rw [nothing]
        exact Finset.empty_subset _
      · exact owed.trans ((current message flags modseq shown stored).2 mode under)
    | remove => exact .inl (by simp [owedAfter, mode])
    | replace => exact .inl (by simp [owedAfter, mode])
  · rw [Function.update_of_ne same, others u same]
    exact h u

omit [DecidableEq P] [DecidableEq S] in
theorem just_of_write {number uid limit : Nat}
    {after : Option (FlagSet × Nat)}
    {modified : List Nat} (shown : w.shown p number = some message)
    (current : w.Current seat name p job number uid)
    (limited : job.unchangedSince = some limit) (under : message.modseq ≤ limit)
    (write : (w.realm seat).setFlags name uid flags = (m, .ok updated)) :
    Ruling.Just { number := job.report number uid, limit, before := w.stored seat name uid, after }
      modified := by
  obtain ⟨was, -, -⟩ := MailStore.setFlags_stored write
  obtain ⟨⟨old, modseq⟩, before⟩ := Option.isSome_iff_exists.mp was
  have below : modseq ≤ limit :=
    ((current message old modseq shown before).1 limit limited).mp under
  refine ⟨fun _ => ⟨old, modseq, before, below⟩, fun old' modseq' before' larger => ?_⟩
  obtain ⟨-, rfl⟩ := Prod.mk.inj (Option.some.inj (before.symm.trans before'))
  exact absurd below (Nat.not_le.mpr larger)

theorem Sound.target (h : w.Sound seat name) {run : StoreRun} {number uid : Nat}
    {rest : List (Nat × Nat)} (running : w.running p = some run)
    (targets : run.rest = (number, uid) :: rest)
    (current : w.Current seat name p run.job number uid)
    {result : EStateM.Result Completion (Conn S) (Option Nat)}
    (treats : Treats run.job number uid (w.conn p) result) :
    (match result with
      | .ok reported c => w.treated seat name p run number uid rest reported c
      | .error _ c => w.leave p c none).Sound seat name := by
  obtain ⟨at', view, selected, shows⟩ := h.under p run running
  obtain ⟨seated, inFolder⟩ := h.seated p
  rw [targets] at shows
  have later : Shows view rest := fun t mem => shows t (List.mem_cons_of_mem _ mem)
  have earlier := h.rulings p run running
  cases treats with
  | absent none =>
    obtain ⟨message, found, -⟩ := shows _ List.mem_cons_self
    simp only [conn, selected, Option.bind_some, found] at none
    cases none
  | @modified message limit shown limited larger =>
    simp only [treated]
    refine h.moved seated inFolder ?_ ?_ ?_
    · intro r eq
      cases eq
      exact ⟨at', view, selected, later⟩
    · intro r eq x mem
      cases eq
      simp only [limited, Option.map_some, Option.toList_some, List.mem_append,
        List.mem_singleton] at mem
      rcases mem with old | rfl
      · exact (earlier x old).mono (List.subset_append_left _ _)
      · exact ⟨fun changed => absurd rfl changed, fun _ _ _ _ => by simp⟩
    · exact h.kept
  | @failed message m error access shown write =>
    simp only [conn, seated, at'] at write ⊢
    obtain rfl := MailStore.setFlags_error write
    refine h.left seated inFolder nofun nofun ?_
    simp only [Function.update_eq_self]
    exact h.kept
  | @wrote message updated m access shown under write =>
    simp only [conn, seated, at'] at write shown ⊢
    obtain ⟨view', selected', folder, shows'⟩ :=
      @Shows.updated _ _ _ _ uid updated.flags updated.modseq selected later
    simp only [treated]
    refine h.moved seated ⟨view', selected', ?_⟩ ?_ ?_ ?_
    · obtain ⟨v, sel, inF⟩ := inFolder
      obtain rfl : view = v := Option.some.inj (selected.symm.trans sel)
      exact folder.trans inF
    · intro r eq
      cases eq
      exact ⟨at', view', selected', shows'⟩
    · intro r eq x mem
      cases eq
      rcases List.mem_append.mp mem with old | new
      · exact (earlier x old).mono (List.subset_append_left _ _)
      · obtain ⟨limit, limited, rfl⟩ := Option.map_eq_some_iff.mp (Option.mem_toList.mp new)
        exact just_of_write shown current limited (under limit limited) write
    · intro u
      simpa [seated] using kept_of_write h.kept shown current under write u

omit [DecidableEq P] [DecidableEq S] in
/-- Nothing is lost when a folder is opened anew. -/
theorem NothingLost.refreshed {c : Conn S} (h : w.NothingLost seat name)
    (stored : ∀ uid flags modseq, w.stored seat name uid = some (flags, modseq) →
      ∃ modseq', (c.realm seat).stored name uid = some (flags, modseq')) (uid : Nat) :
    w.owed uid = ∅ ∨
      ∃ flags modseq, (c.realm seat).stored name uid = some (flags, modseq) ∧
        w.owed uid ⊆ flags := by
  refine (h uid).imp_right fun ⟨flags, modseq, found, owed⟩ => ?_
  obtain ⟨modseq', found'⟩ := stored uid flags modseq found
  exact ⟨flags, modseq', found', owed⟩

theorem Sound.step {t : Sessions P S} {l : FlagStep P} (h : w.Sound seat name)
    (timely : w.Timely seat name l) (move : w.step seat name l = some t) : t.Sound seat name := by
  cases l with
  | begin p uidMode set mode flags unchangedSince =>
    simp only [Sessions.step] at move
    split at move
    · cases move
    obtain ⟨seated, inFolder⟩ := h.seated p
    have spec := @beginStore_spec S (w.conn p) uidMode set mode flags unchangedSince
    unfold wp at spec
    split at move
    · rename_i job targets c run
      cases move
      rw [run] at spec
      obtain ⟨rfl, view, selected, folder, shows⟩ := spec
      refine h.left seated inFolder ?_ ?_ h.kept
      · intro r eq
        cases eq
        obtain ⟨v, sel, inF⟩ := inFolder
        obtain rfl : view = v := Option.some.inj (selected.symm.trans sel)
        exact ⟨folder.trans inF, view, selected, shows⟩
      · intro r eq
        cases eq
        simp
    · rename_i completion c run
      cases move
      rw [run] at spec
      subst spec
      exact h.left seated inFolder nofun nofun h.kept
  | target p =>
    simp only [Sessions.step] at move
    split at move
    · cases move
    rename_i run running
    split at move
    · cases move
    rename_i number uid rest targets
    have sound := h.target running targets (timely run number uid rest running targets)
      (storeTarget_treats run.job number uid (w.conn p))
    split at move
    · rename_i reported c result
      cases move
      rwa [result] at sound
    · rename_i completion c result
      cases move
      rwa [result] at sound
  | finish p =>
    simp only [Sessions.step] at move
    split at move
    · cases move
    rename_i run running
    split at move
    · obtain ⟨seated, inFolder⟩ := h.seated p
      cases move
      have left : (w.leave p (w.conn p) none).Sound seat name :=
        h.left seated inFolder nofun nofun h.kept
      refine ⟨left.seated, left.under, left.rulings, left.kept, fun e mem => ?_⟩
      rcases List.mem_append.mp mem with old | new
      · exact h.ended e old
      · rw [List.mem_singleton.mp new]
        exact ⟨run.modified, rfl, h.rulings p run running⟩
    · cases move
  | noop p ch =>
    simp only [Sessions.step] at move
    split at move
    · cases move
    cases move
    obtain ⟨seated, view, selected, folder⟩ := h.seated p
    have refreshed := @handleNoop_refreshes S _ (w.conn p) ch view selected
    rw [folder] at refreshed
    refine h.left (refreshed.store.trans seated) refreshed.view nofun nofun ?_
    refine NothingLost.refreshed h.kept fun uid flags modseq found => ?_
    have := refreshed.stored uid flags modseq
    simp only [conn, seated] at this
    exact this found

end Sessions

/-- In every run in which each STORE goes on from what is current, no flag that was added is lost,
and STORE with UNCHANGEDSINCE changes only what was not modified since and reports the rest. -/
theorem flag_updates_kept_and_guarded {P S : Type} [DecidableEq P] [DecidableEq S] {seat : S}
    {name : String} {w t : Sessions P S} {steps : List (FlagStep P)}
    (start : w.Start seat name)
    (run : Runs (Sessions.step seat name) (Sessions.Timely seat name) w steps t) :
    t.NothingLost seat name ∧ t.Guarded := by
  have sound : t.Sound seat name :=
    run.invariant start.sound fun _ _ _ sound timely move => sound.step timely move
  exact ⟨sound.kept, sound.ended⟩

/-! ### Two sessions -/

namespace Sessions

variable {P S : Type} [DecidableEq P] [DecidableEq S] (seat : S) (name : String)

/-- `Timely`, as a check. -/
def isTimely (w : Sessions P S) : FlagStep P → Bool
  | .target p =>
    match w.running p with
    | none => true
    | some run =>
      match run.rest with
      | [] => true
      | (number, uid) :: _ =>
        match w.shown p number, w.stored seat name uid with
        | some message, some (flags, modseq) =>
          (run.job.unchangedSince.all fun limit =>
            decide (message.modseq ≤ limit ↔ modseq ≤ limit)) &&
            (run.job.mode != .add || run.job.unchangedSince.any (· < message.modseq) ||
              decide (flags ⊆ message.flags))
        | _, _ => true
  | _ => true

omit [DecidableEq P] [DecidableEq S] in
theorem timely_of_isTimely {w : Sessions P S} {l : FlagStep P}
    (h : w.isTimely seat name l = true) : w.Timely seat name l := by
  cases l with
  | target p =>
    intro run number uid rest running targets message flags modseq shown stored
    simp only [isTimely, running, targets, shown, stored, Bool.and_eq_true] at h
    obtain ⟨limits, flagsKnown⟩ := h
    refine ⟨fun limit limited => by simpa [limited] using limits, fun add under => ?_⟩
    simp only [add, bne_self_eq_false, Bool.false_or, Bool.or_eq_true,
      decide_eq_true_eq] at flagsKnown
    refine flagsKnown.resolve_left fun larger => ?_
    obtain ⟨limit, limited, more⟩ := Option.any_eq_true _ _ |>.mp larger
    exact absurd (under limit limited) (Nat.not_le.mpr (of_decide_eq_true more))
  | begin p uidMode set mode flags unchangedSince => exact trivial
  | finish p => exact trivial
  | noop p ch => exact trivial

end Sessions

/-- A folder with one message that has no flags. -/
def oneMessage : MailStore :=
  { folders :=
      [("INBOX",
        { files := [{ base := "1.M2P3Q1.host", directory := .cur, flags := ∅, size := 5 }]
          uidFile := some
            { uidvalidity := 7
              uidnext := 2
              highestModseq := 1
              byUid := [{ uid := 1, base := "1.M2P3Q1.host", modseq := 1 }] }
          expunged := []
          acl := [] })]
    quota := none
    usage := none }

def oneMessageView : View :=
  { folder := "INBOX"
    writable := true
    uidvalidity := 7
    uidnext := 2
    highestModseq := 1
    messages :=
      [{ uid := 1, base := "1.M2P3Q1.host", size := 5, modseq := 1, flags := ∅, recent := false }]
    stamp := none
    skippedStamps := 0 }

/-- Two sessions that show the message. -/
def twoSessions : Sessions Bool Unit :=
  { realm := fun _ => oneMessage
    sessions := fun _ =>
      { store := ()
        ownStore := ()
        selectedOwner := none
        secured := true
        starttls := false
        state := .selected "alice" oneMessageView
        failures := 0
        condstore := true
        qresync := false
        savedSearch := none
        compressed := false
        idling := false
        closed := false }
    running := fun _ => none
    owed := fun _ => ∅
    ended := [] }

theorem twoSessions_start : twoSessions.Start () "INBOX" :=
  ⟨fun _ => ⟨rfl, oneMessageView, rfl, rfl⟩, fun _ => rfl, fun _ => rfl, rfl⟩

def storeSteps (p : Bool) (flag : SystemFlag) (unchangedSince : Option Nat) :
    List (FlagStep Bool) :=
  [.begin p false "1" .add {.system flag} unchangedSince, .target p, .finish p]

def someChoices : Choices :=
  { drawn := fun _ => "", fresh := 1, stamp := 1, sameArc := true,
    authenticate := fun _ _ => .invalidCredentials }

/-- The second session looks again before it stores, and both flags are there. -/
theorem flags_kept_after_noop :
    ∃ t, twoSessions.Start () "INBOX" ∧
      Runs (Sessions.step () "INBOX") (Sessions.Timely () "INBOX") twoSessions
        (storeSteps false .seen none ++ [.noop true someChoices] ++
          storeSteps true .flagged (some 2)) t ∧
      (t.NothingLost () "INBOX" ∧ t.Guarded) ∧
      t.stored () "INBOX" 1 = some ({.system .seen, .system .flagged}, 3) := by
  obtain ⟨t, run, flags⟩ : ∃ t,
      checkedExec (Sessions.step () "INBOX") (Sessions.isTimely () "INBOX") twoSessions
        (storeSteps false .seen none ++ [.noop true someChoices] ++
          storeSteps true .flagged (some 2)) = some t ∧
        t.stored () "INBOX" 1 = some ({.system .seen, .system .flagged}, 3) := by
    refine Option.map_eq_some_iff.mp ?_
    decide +kernel
  have runs := runs_of_checkedExec (fun w l => Sessions.timely_of_isTimely () "INBOX") run
  exact ⟨t, twoSessions_start, runs, flag_updates_kept_and_guarded twoSessions_start runs, flags⟩

/-- The second session stores from what it showed before: the flag of the first one is lost, and the
message is changed although it was modified since. -/
theorem stale_store_loses_flag :
    ∃ t, twoSessions.Start () "INBOX" ∧
      Reaches (Sessions.step () "INBOX") twoSessions
        (storeSteps false .seen none ++ storeSteps true .flagged (some 1)) t ∧
      t.stored () "INBOX" 1 = some ({.system .flagged}, 3) ∧
      ¬t.NothingLost () "INBOX" ∧ ¬t.Guarded := by
  obtain ⟨t, run, facts⟩ : ∃ t,
      exec (Sessions.step () "INBOX") twoSessions
        (storeSteps false .seen none ++ storeSteps true .flagged (some 1)) = some t ∧
        (t.stored () "INBOX" 1, t.owed 1, t.ended.map (·.rulings)) =
          (some ({.system .flagged}, 3), {.system .seen, .system .flagged},
            [[],
              [{ number := 1
                 limit := 1
                 before := some ({.system .seen}, 2)
                 after := some ({.system .flagged}, 3) }]]) := by
    refine Option.map_eq_some_iff.mp ?_
    decide +kernel
  simp only [Prod.mk.injEq] at facts
  obtain ⟨stored, owed, rulings⟩ := facts
  refine ⟨t, twoSessions_start, reaches_of_exec run, stored, fun kept => ?_, fun guarded => ?_⟩
  · rcases kept 1 with nothing | ⟨flags, modseq, found, sub⟩
    · rw [owed] at nothing
      exact absurd nothing (by decide)
    · rw [stored] at found
      cases found
      rw [owed] at sub
      exact absurd sub (by decide)
  · obtain ⟨e, mem, same⟩ := List.mem_map.mp (rulings ▸ List.mem_cons_of_mem _ List.mem_cons_self)
    obtain ⟨modified, -, just⟩ := guarded e mem
    obtain ⟨flags, modseq, before, low⟩ :=
      (just _ (same ▸ List.mem_cons_self)).1 (by decide)
    cases before
    exact absurd low (by decide)

end MailStack.Imap
