import MailStack.Imap.Authentication
import MailStack.Maildir.Frame

/-! What a session does to a folder that it may only read: one that was opened by EXAMINE, or a
shared one on which the user may neither set flags nor delete. -/

namespace MailStack.Imap

open Lib Maildir Handler

variable {S α β : Type} {ctx : Context S} {ch : Choices} {view : View}
  {before c : Conn S} {parameters : List SelectParameter} {E : Conn S → Prop} {f : View → View}
  {set : SequenceSet} {op : MailStore → Maildir.Outcome α} {folder rights : Option String}
  {writable : Bool} {text : String}

/-! ### What is left alone -/

/-- The session has not turned to another folder since, and the selected one is the same. -/
structure Untouched (view : View) (before c : Conn S) : Prop where
  store : c.session.store = before.session.store
  owner : c.session.selectedOwner = before.session.selectedOwner
  shown : ∃ view', c.session.view = some view' ∧ view'.folder = view.folder ∧
    view'.writable = view.writable
  spared : (before.realm before.session.store).Spares view.folder (c.realm before.session.store)

/-- The handler leaves the selected folder alone, however it ends. -/
abbrev Leaves (view : View) (before : Conn S) (h : Handler S α) : Prop :=
  Lib.Keeps (Untouched view before) h

namespace Untouched

theorem refl (selected : c.session.view = some view) : Untouched view c c :=
  ⟨rfl, rfl, ⟨view, selected, rfl, rfl⟩, .refl _ _⟩

theorem session (u : Untouched view before c) {s : Session S} (store : s.store = c.session.store)
    (owner : s.selectedOwner = c.session.selectedOwner) (shown : s.view = c.session.view) :
    Untouched view before { c with session := s } :=
  ⟨store.trans u.store, owner.trans u.owner, shown ▸ u.shown, u.spared⟩

theorem mapView (u : Untouched view before c)
    (same : ∀ v, (f v).folder = v.folder ∧ (f v).writable = v.writable) :
    Untouched view before { c with session := c.session.mapView f } := by
  obtain ⟨view', shown, folder, writable⟩ := u.shown
  refine ⟨u.store, u.owner, ⟨f view', by simp [shown], ?_, ?_⟩, u.spared⟩
  · exact (same view').1.trans folder
  · exact (same view').2.trans writable

theorem attempt [DecidableEq S] (u : Untouched view before c) {store : S} {m : MailStore}
    {accesses : List (Access S)}
    (spares : store = before.session.store → (c.realm store).Spares view.folder m) :
    Untouched view before { c with realm := Function.update c.realm store m, accesses } := by
  refine ⟨u.store, u.owner, u.shown, ?_⟩
  by_cases here : before.session.store = store
  · subst here
    simpa using u.spared.trans (spares rfl)
  · simpa [Function.update_of_ne here] using u.spared

end Untouched

/-! ### Parts of handlers -/

namespace Leaves

theorem current : Leaves view before (current : Handler S (Session S)) := fun _ u => u

theorem inspect (store : S) (f : MailStore → α) : Leaves view before (inspect store f) :=
  fun _ u => u

theorem demand (result : Except MailError α) :
    Leaves view before (demand result : Handler S α) := by
  intro c u
  cases result <;> exact u

theorem stopIf (condition : Bool) (completion : Completion) :
    Leaves view before (stopIf condition completion : Handler S Unit) := by
  intro c u
  cases condition <;> exact u

theorem requireAuthenticated : Leaves view before (requireAuthenticated : Handler S String) :=
  fun _ u => wp_requireAuthenticated (fun _ _ _ => u) u

theorem requireSelected (message : String) :
    Leaves view before (requireSelected message : Handler S View) :=
  fun _ u => wp_requireSelected (fun _ _ _ => u) u

theorem resolved (name rights : String) : Leaves view before (resolved ctx name rights) :=
  fun _ u => wp_resolved (fun _ _ _ => u) u

theorem change {f : Session S → Session S} (store : ∀ s, (f s).store = s.store)
    (owner : ∀ s, (f s).selectedOwner = s.selectedOwner) (shown : ∀ s, (f s).view = s.view) :
    Leaves view before (change f) :=
  fun _ u => u.session (store _) (owner _) (shown _)

theorem changeView
    (same : ∀ v, (f v).folder = v.folder ∧ (f v).writable = v.writable) :
    Leaves view before (Handler.change (Session.mapView f) : Handler S Unit) :=
  fun _ u => u.mapView same

variable [DecidableEq S]

theorem attempt {store : S}
    (spares : ∀ m : MailStore, m.Spares view.folder (op m).1) :
    Leaves view before (attempt store folder rights op) :=
  fun _ u => u.attempt fun _ => spares _

theorem attemptRead {store : S}
    {f : MailStore → Except MailError α} :
    Leaves view before (Handler.attempt store folder rights fun m => (m, f m)) :=
  Leaves.attempt fun m => .refl view.folder m

end Leaves

/-! ### Reading -/

variable [DecidableEq S]

theorem refreshSelected_leaves : Leaves view before (refreshSelected ch : Handler S Unit) := by
  refine .bind Leaves.current fun s => ?_
  split
  · exact .pure _
  refine .ite (Leaves.changeView fun _ => ⟨rfl, rfl⟩) ?_
  refine .bind (Leaves.attempt fun m => MailStore.openFolder_spares m _ _ _) fun result => ?_
  exact .bind (Leaves.demand result) fun state => Leaves.changeView fun _ => ⟨rfl, rfl⟩

theorem refreshIfSelected_leaves (folder : String) :
    Leaves view before (refreshIfSelected ch folder : Handler S Unit) := by
  refine .bind Leaves.current fun s => ?_
  split
  · refine .ite (.bind (Leaves.changeView fun _ => ⟨rfl, rfl⟩) fun _ => ?_) (.pure _)
    exact refreshSelected_leaves
  · exact .pure _

theorem readSelected_leaves (folder : String) (message : MessageMeta) :
    Leaves view before (readSelected folder message : Handler S Unit) :=
  .bind Leaves.current fun _ => .bind Leaves.attemptRead fun result => Leaves.demand result

theorem readEach_leaves (folder : String) (messages : List MessageMeta) :
    Leaves view before (readEach folder messages : Handler S Unit) := by
  induction messages with
  | nil => exact .pure _
  | cons message rest ih => exact .bind (readSelected_leaves folder message) fun _ => ih

theorem queryMessages_leaves (shown : View) (key : SearchKey) (mustFit : Bool)
    (pending : Option Bool → Bool) (tooLarge : String) :
    Leaves view before (queryMessages ctx shown key mustFit pending tooLarge) :=
  .bind (Leaves.stopIf _ _) fun _ => readEach_leaves _ _

theorem handleSearch_leaves (key : SearchKey) (save : Bool) :
    Leaves view before (handleSearch ctx key save) := by
  refine .bind (Leaves.requireSelected _) fun shown => .bind Leaves.current fun s => ?_
  refine .bind (Leaves.stopIf _ _) fun _ => .bind (queryMessages_leaves _ _ _ _ _) fun _ => ?_
  refine .bind (Leaves.change (fun s => ?_) (fun s => ?_) fun s => ?_) fun _ => .pure _
  all_goals split <;> rfl

theorem handleSort_leaves (key : SearchKey) (needsHeaders : Bool) :
    Leaves view before (handleSort ctx key needsHeaders) :=
  .bind (Leaves.requireSelected _) fun _ => .bind (queryMessages_leaves _ _ _ _ _) fun _ => .pure _

theorem handleThread_leaves (key : SearchKey) : Leaves view before (handleThread ctx key) :=
  .bind (Leaves.requireSelected _) fun _ => .bind (queryMessages_leaves _ _ _ _ _) fun _ => .pure _

/-! ### Folders and quota -/

theorem eqIgnoreAsciiCase_of_normal {name normalized : String}
    (h : normalizeFolderName name = .ok normalized) : eqIgnoreAsciiCase normalized name = true := by
  rcases normalizeFolderName_ok h with rfl | ⟨spelled, rfl⟩
  · exact beq_self_eq_true _
  · exact beq_iff_eq.mpr (beq_iff_eq.mp spelled).symm

theorem ownStoreOp_leaves {name : String}
    (spares : ∀ m : MailStore, m.Spares view.folder (op m).1) :
    Leaves view before (ownStoreOp name op : Handler S α) :=
  .bind (Leaves.demand _) fun _ => .bind Leaves.current fun _ => .bind (Leaves.attempt spares) fun result =>
    Leaves.demand result

theorem handleCreate_leaves (name : String) :
    Leaves view before (handleCreate name : Handler S Completion) :=
  .bind Leaves.requireAuthenticated fun _ =>
    .bind (ownStoreOp_leaves fun m => MailStore.create_spares m _ name) fun _ => .pure _

theorem handleDelete_leaves (name : String) :
    Leaves view before (handleDelete name : Handler S Completion) := by
  refine .bind Leaves.requireAuthenticated fun _ => .bind (Leaves.demand _) fun _ => fun c u => ?_
  simp only [wp_bind, wp_current]
  refine wp_stopIf (fun other => ?_) u
  obtain ⟨view', shown, folder, -⟩ := u.shown
  have away : normalizeFolderName name ≠ .ok view.folder := fun same => by
    have := eqIgnoreAsciiCase_of_normal same
    simp [shown, folder, this] at other
  exact wp_mono (ownStoreOp_leaves (fun m => MailStore.delete_spares away) c u) (fun _ _ u => u)
    fun _ u => u

theorem handleRename_leaves {source target : String}
    (other : eqIgnoreAsciiCase view.folder source = false)
    (apart : ∀ old, normalizeFolderName source = .ok old → old ≠ inbox →
      ¬MailStore.Below view.folder old) :
    Leaves view before (handleRename ch source target : Handler S Completion) := by
  refine .bind Leaves.requireAuthenticated fun _ => .bind (Leaves.demand _) fun _ => ?_
  have away : normalizeFolderName source ≠ .ok view.folder := fun same => by
    rw [eqIgnoreAsciiCase_of_normal same] at other
    cases other
  refine .bind (ownStoreOp_leaves fun m => MailStore.rename_spares away apart) fun _ => ?_
  refine .bind (fun c u => ?_) fun _ => .pure _
  obtain ⟨view', shown, folder, -⟩ := u.shown
  have stays : (c.session.view.any fun view => eqIgnoreAsciiCase view.folder source) = false := by
    rw [shown, Option.any_some, folder, other]
  simp only [followRename, wp_bind, wp_current, stays, wp_ite]
  exact ⟨(fun h => by cases h), fun _ => u⟩

theorem handleSubscribe_leaves (name : String) (subscribe : Bool) :
    Leaves view before (handleSubscribe name subscribe : Handler S Completion) :=
  .bind Leaves.requireAuthenticated fun _ =>
    .bind (ownStoreOp_leaves fun m => .refl view.folder m) fun _ => .pure _

theorem showShared_leaves (store : S) (owner folder : String) :
    Leaves view before (showShared store owner folder) := by
  refine .bind Leaves.current fun _ => .bind (Leaves.inspect _ _) fun allowed => ?_
  split
  · exact .pure _
  · exact .bind Leaves.attemptRead fun _ => .pure _

theorem showFolders_leaves (store : S) (owner : String) (folders : List String) :
    Leaves view before (showFolders store owner folders) := by
  induction folders with
  | nil => exact .pure _
  | cons folder rest ih => exact .bind (showShared_leaves store owner folder) fun _ => ih

theorem showUsers_leaves (resolver : Resolver S) (users : List String) :
    Leaves view before (showUsers resolver users) := by
  induction users with
  | nil => exact .pure _
  | cons user rest ih =>
    unfold showUsers
    split
    · exact ih
    · exact .bind (showShared_leaves _ _ _) fun _ => ih

theorem sharedMailboxListing_leaves (pattern : String) :
    Leaves view before (sharedMailboxListing ctx pattern) := by
  unfold sharedMailboxListing
  split
  · exact .pure _
  simp only
  split
  · split
    · exact .pure _
    · exact .bind (Leaves.inspect _ _) fun _ => showFolders_leaves _ _ _
  · exact showUsers_leaves _ _

theorem handleList_leaves (lsub : Bool) (reference pattern : String) :
    Leaves view before (handleList ctx lsub reference pattern) := by
  refine .bind Leaves.requireAuthenticated fun _ => .ite (.pure _) (.ite (.throw _) (.ite ?_ ?_))
  · exact .bind (sharedMailboxListing_leaves _) fun _ => .pure _
  · exact .bind Leaves.current fun _ => .bind Leaves.attemptRead fun _ => .pure _

theorem readQuota_leaves : Leaves view before (readQuota : Handler S Unit) :=
  .bind Leaves.current fun _ => .bind (Leaves.attempt fun m => MailStore.quotaStatus_spares m _) fun _ =>
    .pure _

theorem handleGetQuota_leaves (root : String) :
    Leaves view before (handleGetQuota root : Handler S Completion) :=
  .bind Leaves.requireAuthenticated fun _ => .bind (Leaves.stopIf _ _) fun _ =>
    .bind readQuota_leaves fun _ => .pure _

theorem handleGetQuotaRoot_leaves (mailbox : String) :
    Leaves view before (handleGetQuotaRoot mailbox : Handler S Completion) :=
  .bind Leaves.requireAuthenticated fun _ => .bind Leaves.current fun _ => .bind Leaves.attemptRead fun result =>
    .bind (Leaves.demand result) fun _ => .bind (Leaves.stopIf _ _) fun _ =>
      .bind readQuota_leaves fun _ => .pure _

theorem handleSetQuota_leaves (root : String) (resources : List (String × Nat)) :
    Leaves view before (handleSetQuota ctx root resources) := by
  refine .bind Leaves.requireAuthenticated fun _ => .bind (Leaves.stopIf _ _) fun _ =>
    .bind (Leaves.stopIf _ _) fun _ => .bind (Leaves.stopIf _ _) fun _ => ?_
  split
  · exact .throw _
  · exact .bind Leaves.current fun _ =>
      .bind (Leaves.attempt fun m => MailStore.setQuota_spares m _ _ _) fun _ => .pure _

theorem handleStatus_leaves (mailbox : String) :
    Leaves view before (handleStatus ctx ch mailbox) :=
  .bind Leaves.requireAuthenticated fun _ => .bind (Leaves.resolved _ _) fun _ =>
    .bind (Leaves.attempt fun m => MailStore.openFolder_spares m _ _ _) fun result =>
      .bind (Leaves.demand result) fun _ => .pure _

theorem readAclOf_leaves (m : ResolvedMailbox S) (rights : String) :
    Leaves view before (readAclOf m rights) :=
  .bind Leaves.attemptRead fun result => Leaves.demand result

theorem writeAcl_spares (m : MailStore) (name folder : String) (acl : List (String × String)) :
    m.Spares name (writeAcl m folder acl).1 := by
  unfold writeAcl
  split
  · exact .refl name m
  · exact .modify rfl fun _ f _ => .acl f acl

theorem changeAcl_leaves (mailbox identifier : String) (rights : Option String)
    (refusal : String) : Leaves view before (changeAcl ctx mailbox identifier rights refusal) := by
  refine .bind (Leaves.resolved _ _) fun m => .bind Leaves.current fun s => .bind (Leaves.stopIf _ _) fun _ => ?_
  refine .bind (Leaves.attempt fun store => ?_) fun result => Leaves.demand result
  split
  · exact .refl _ store
  · exact writeAcl_spares store _ _ _

theorem handleSetAcl_leaves (mailbox identifier rights : String) :
    Leaves view before (handleSetAcl ctx mailbox identifier rights) :=
  .bind Leaves.requireAuthenticated fun _ => .bind (Leaves.stopIf _ _) fun _ => .bind (Leaves.demand _) fun _ =>
    .bind (changeAcl_leaves _ _ _ _) fun _ => .pure _

theorem handleDeleteAcl_leaves (mailbox identifier : String) :
    Leaves view before (handleDeleteAcl ctx mailbox identifier) :=
  .bind Leaves.requireAuthenticated fun _ => .bind (Leaves.stopIf _ _) fun _ =>
    .bind (changeAcl_leaves _ _ _ _) fun _ => .pure _

theorem handleGetAcl_leaves (mailbox : String) : Leaves view before (handleGetAcl ctx mailbox) :=
  .bind Leaves.requireAuthenticated fun _ => .bind (Leaves.resolved _ _) fun _ =>
    .bind (readAclOf_leaves _ _) fun _ => .pure _

theorem handleListRights_leaves (mailbox identifier : String) :
    Leaves view before (handleListRights ctx mailbox identifier) :=
  .bind Leaves.requireAuthenticated fun _ => .bind (Leaves.stopIf _ _) fun _ => .bind (Leaves.resolved _ _) fun _ =>
    .bind (readAclOf_leaves _ _) fun _ => .pure _

theorem handleMyRights_leaves (mailbox : String) :
    Leaves view before (handleMyRights ctx mailbox) :=
  .bind Leaves.requireAuthenticated fun _ => .bind (Leaves.resolved _ _) fun _ =>
    .bind (readAclOf_leaves _ _) fun _ => .pure _

theorem handleMetadata_leaves (mailbox : Option String) (completed : String) :
    Leaves view before (handleMetadata mailbox completed : Handler S Completion) := by
  refine .bind Leaves.requireAuthenticated fun _ => .bind ?_ fun scope => .bind ?_ fun _ => .pure _
  · unfold metadataScope
    split
    · refine .bind Leaves.current fun s => ?_
      split
      · exact .pure _
      · exact .throw _
    · exact .bind (Leaves.demand _) fun _ => .pure _
  · exact .bind Leaves.current fun _ => .bind Leaves.attemptRead fun result => Leaves.demand result

/-! ### Commands that could write -/

/-- The command on the named mailbox would get at the selected folder. -/
def NamesSelected (ctx : Context S) (view : View) (c : Conn S) (mailbox : String) : Prop :=
  ∃ m, resolveMailbox ctx.resolver c.session.store mailbox = .ok m ∧
    m.store = c.session.store ∧ normalizeFolderName m.folder = .ok view.folder ∧
    checkSharedRights (c.realm m.store) m.folder m.owner c.session.user "i" = .ok ()

/-- FETCH gets to a message that is shown without the flag for seen ones: this and those before it
can be read. -/
def ReachesUnseen (maxSize : Nat) (m : MailStore) (folder : String) : List MessageMeta → Prop
  | [] => False
  | message :: rest =>
    message.size ≤ maxSize ∧ readMessage m folder message.base = .ok () ∧
      (isSeen message = false ∨ ReachesUnseen maxSize m folder rest)

def View.chosen (view : View) (set : SequenceSet) (uidMode : Bool) (changedSince : Option Nat) :
    List (Nat × MessageMeta) :=
  (view.targets set uidMode).filter fun (_, m) => changedSince.all fun limit => m.modseq > limit

/-- The command does not come to a change of the selected folder that nothing checks: FETCH sets no
flag, no mailbox that APPEND or COPY names is the selected folder (APPEND is refused when it names
it plainly), RENAME moves neither it nor a folder above it, and MOVE is refused or finds no
destination. -/
def Harmless (ctx : Context S) (view : View) (c : Conn S) : Command → Prop
  | .append mailbox _ =>
    view.writable = false ∧ eqIgnoreAsciiCase view.folder mailbox = true ∨
      ¬NamesSelected ctx view c mailbox
  | .copy _ _ mailbox => ¬NamesSelected ctx view c mailbox
  | .move _ _ mailbox =>
    view.writable = false ∨ ∀ m, resolveMailbox ctx.resolver c.session.store mailbox = .ok m →
      checkSharedRights (c.realm m.store) m.folder m.owner c.session.user "i" ≠ .ok ()
  | .rename source _ =>
    eqIgnoreAsciiCase view.folder source = false ∧
      ∀ old, normalizeFolderName source = .ok old → old ≠ inbox → ¬MailStore.Below view.folder old
  | .fetch uidMode text items changedSince =>
    marksSeen items = true → ∀ set, c.session.parseSequenceSet text uidMode = .ok set →
      ¬ReachesUnseen ctx.maxMessageSize (c.realm c.session.store) view.folder
        ((view.chosen set uidMode changedSince).map (·.2))
  | _ => True

/-- The user has neither the right to set flags in the selected folder nor the one to delete. -/
def LacksRights (view : View) (c : Conn S) : Prop :=
  ∀ rights ∈ ["w", "t"],
    checkSharedRights (c.realm c.session.store) view.folder c.session.selectedOwner
      c.session.user rights ≠ .ok ()

/-- The selected folder may only be read: EXAMINE has opened it, or the rights are missing. -/
def MayOnlyRead (view : View) (c : Conn S) : Prop := view.writable = false ∨ LacksRights view c

def Command.endsSelection : Command → Bool
  | .select _ _ _ | .close | .unselect => true
  | _ => false

section Commands

variable (selected : c.session.view = some view)

include selected

variable {mailbox : String}

theorem handleAppend_leaves {messages : List NewMessage}
    (harmless : Harmless ctx view c (.append mailbox messages)) :
    wp (handleAppend ctx ch mailbox messages) (fun _ => Untouched view c) (Untouched view c) c := by
  have u := Untouched.refl selected
  simp only [handleAppend, wp_bind, wp_current]
  refine wp_requireAuthenticated (fun _ _ _ => wp_stopIf (fun free => ?_) u) u
  refine wp_stopIf (fun _ => wp_stopIf (fun _ => ?_) u) u
  refine wp_resolved (fun m found allowed => ?_) u
  have away : m.store = c.session.store → normalizeFolderName m.folder ≠ .ok view.folder := by
    intro here named
    rcases harmless with ⟨closed, same⟩ | other
    · simp [selected, closed, same] at free
    · exact other ⟨m, found, here, named, allowed⟩
  simp only [wp_attempt]
  have u' := fun accesses => @Untouched.attempt _ _ _ _ _ u m.store _ accesses fun here =>
    MailStore.appendMany_spares (s := c.realm m.store) (away here)
      (messages.zipIdx.map fun message => (ch.drawn message.2, message.1)) ch.fresh
  split
  · exact u' _
  · exact u' _
  · rw [wp_bind]
    exact wp_mono (refreshIfSelected_leaves m.folder _ (u' _)) (fun _ _ u => u) fun _ u => u

omit selected in
theorem destination_leaves {mailbox name : String} {Q : ResolvedMailbox S → Conn S → Prop}
    (ok : ∀ m, resolveMailbox ctx.resolver c.session.store mailbox = .ok m →
      m.store = c.session.store →
      checkSharedRights (c.realm m.store) m.folder m.owner c.session.user "i" = .ok () → Q m c)
    (stopped : E c) : wp (destination ctx ch mailbox name) Q E c := by
  simp only [destination, wp_bind, wp_current]
  refine wp_resolved (fun m found allowed => wp_stopIf (fun current => ?_) stopped) stopped
  refine ok m found ?_ allowed
  cases owner : m.owner with
  | none => exact resolveMailbox_unowned found owner
  | some owner => simp_all [isCurrentStore]

variable {uidMode : Bool}

theorem handleCopy_leaves {text mailbox : String}
    (harmless : Harmless ctx view c (.copy uidMode text mailbox)) :
    wp (handleCopy ctx ch uidMode text mailbox) (fun _ => Untouched view c) (Untouched view c)
      c := by
  have u := Untouched.refl selected
  simp only [handleCopy, wp_bind, wp_current]
  refine wp_requireSelected_self selected (wp_demand (fun set _ => ?_) u)
  refine destination_leaves (fun m found here allowed => ?_) u
  have away : normalizeFolderName m.folder ≠ .ok view.folder := fun named =>
    harmless ⟨m, found, here, named, allowed⟩
  have copied : ∀ uids, Leaves view c (copySelected ch view.folder uids m.folder) := by
    intro uids
    refine .bind Leaves.current fun _ => .bind Leaves.attemptRead fun _ => ?_
    exact .bind (Leaves.attempt fun store => MailStore.copyMany_spares away _ _ _ _) fun result =>
      Leaves.demand result
  have existing : Leaves view c (requireExisting m) :=
    .bind Leaves.current fun _ => .bind Leaves.attemptRead fun result =>
      .bind (Leaves.demand result) fun _ => Leaves.stopIf _ _
  refine wp_mono (existing c u) (fun _ t u => ?_) fun _ u => u
  rw [wp_ite]
  refine ⟨fun _ => u, fun _ => ?_⟩
  simp only [wp_bind]
  refine wp_mono (copied _ t u) (fun _ t u => ?_) fun _ u => u
  exact wp_mono (refreshIfSelected_leaves _ t u) (fun _ _ u => u) fun _ u => u

theorem handleMove_leaves {text mailbox : String}
    (harmless : Harmless ctx view c (.move uidMode text mailbox)) :
    wp (handleMove ctx ch uidMode text mailbox) (fun _ => Untouched view c) (Untouched view c)
      c := by
  have u := Untouched.refl selected
  simp only [handleMove, wp_bind, wp_current]
  refine wp_requireSelected_self selected (wp_stopIf (fun writable => ?_) u)
  refine wp_demand (fun set _ => ?_) u
  refine destination_leaves (fun m found _ allowed => ?_) u
  rcases harmless with closed | none
  · simp [closed] at writable
  · exact absurd allowed (none m found)

theorem handleStore_leaves {mode : StoreMode} {flags : FlagSet}
    {unchangedSince : Option Nat} (reads : MayOnlyRead view c) :
    wp (handleStore uidMode text mode flags unchangedSince) (fun _ => Untouched view c)
      (Untouched view c) c := by
  have u := Untouched.refl selected
  simp only [handleStore, beginStore, wp_bind]
  refine wp_requireSelected_self selected (wp_stopIf (fun writable => ?_) u)
  refine wp_requireSelectedRights (fun allowed => ?_) u
  rcases reads with closed | lacking
  · simp [closed] at writable
  · exact absurd allowed (lacking "w" (by simp))

theorem handleExpunge_leaves (reads : MayOnlyRead view c) :
    wp (handleExpunge set) (fun _ => Untouched view c) (Untouched view c) c := by
  have u := Untouched.refl selected
  simp only [handleExpunge, wp_bind]
  refine wp_requireSelected_self selected (wp_stopIf (fun writable => ?_) u)
  refine wp_requireSelectedRights (fun allowed => ?_) u
  rcases reads with closed | lacking
  · simp [closed] at writable
  · exact absurd allowed (lacking "t" (by simp))

theorem handleExpungeText_leaves {restrict : Option String} (reads : MayOnlyRead view c) :
    wp (handleExpungeText restrict) (fun _ => Untouched view c) (Untouched view c) c := by
  unfold handleExpungeText
  split
  · exact handleExpunge_leaves selected reads
  · simp only [wp_bind, wp_current]
    exact wp_demand (fun set _ => handleExpunge_leaves selected reads) (Untouched.refl selected)

omit [DecidableEq S] in
theorem requireNotAuthenticated_stops {Q : Unit → Conn S → Prop}
    (stopped : E c) : wp (requireNotAuthenticated : Handler S Unit) Q E c := by
  simp only [requireNotAuthenticated, wp_bind, wp_current]
  refine wp_stopIf (fun anonymous => ?_) stopped
  have known : c.session.state = .notAuthenticated := by simpa using anonymous
  simp [Session.view, known] at selected

end Commands

/-! ### FETCH -/

omit [DecidableEq S] in
theorem Untouched.congr {start t : Conn S} (u : Untouched view start c)
    (session : t.session = c.session) (realm : t.realm = c.realm) : Untouched view start t :=
  ⟨session ▸ u.store, session ▸ u.owner, session ▸ u.shown, realm ▸ u.spared⟩

variable {items : List FetchItem}

theorem needsMessage_of_marksSeen (marks : marksSeen items = true) :
    needsMessage items = true := by
  obtain ⟨item, mem, marks⟩ := List.any_eq_true.mp marks
  refine List.any_eq_true.mpr ⟨item, mem, ?_⟩
  cases item <;> first | rfl | cases marks

theorem fetchContent_spec {folder : String} {message : MessageMeta} :
    wp (fetchContent ctx folder items message)
      (fun _ t => (t.session = c.session ∧ t.realm = c.realm) ∧ (needsMessage items = true →
        message.size ≤ ctx.maxMessageSize ∧
          readMessage (c.realm c.session.store) folder message.base = .ok ()))
      (fun t => t.session = c.session ∧ t.realm = c.realm) c := by
  unfold fetchContent
  rw [wp_ite]
  refine ⟨fun _ => ?_, fun without => ⟨⟨rfl, rfl⟩, fun needs => absurd needs without⟩⟩
  simp only [readSelected, wp_bind]
  refine wp_stopIf (fun fits => ?_) ⟨rfl, rfl⟩
  simp only [wp_current, wp_attempt, Function.update_eq_self]
  refine wp_demand (fun _ read => ⟨⟨rfl, rfl⟩, fun _ => ⟨?_, read⟩⟩) ⟨rfl, rfl⟩
  exact not_lt.mp (of_decide_eq_false fits)

/-- FETCH reads the messages, as long as none is to be marked. -/
theorem fetchEach_leaves {chosen : List (Nat × MessageMeta)}
    {start : Conn S} (selected : c.session.view = some view) (u : Untouched view start c)
    (shown : ∀ p ∈ chosen, view.messages[p.1 - 1]? = some p.2) (unmarked : marksSeen items = true →
      ¬ReachesUnseen ctx.maxMessageSize (c.realm c.session.store) view.folder (chosen.map (·.2))) :
    wp (fetchEach ctx view.folder items (chosen.map (·.1))) (fun _ => Untouched view start)
      (Untouched view start) c := by
  induction chosen generalizing c with
  | nil => exact u
  | cons first rest ih =>
    obtain ⟨number, message⟩ := first
    have here : view.messages[number - 1]? = some message := shown _ List.mem_cons_self
    simp only [List.map_cons, fetchEach, fetchOne, wp_bind, wp_current, selected, Option.bind_some,
      here]
    refine wp_mono fetchContent_spec (fun _ t read => ?_) fun t same => u.congr same.1 same.2
    obtain ⟨⟨session, realm⟩, read⟩ := read
    have seen : (marksSeen items && !isSeen message) = false := by
      cases marks : marksSeen items with
      | false => rfl
      | true =>
        have read := read (needsMessage_of_marksSeen marks)
        cases seen : isSeen message with
        | true => rfl
        | false => exact absurd ⟨read.1, read.2, .inl seen⟩ (unmarked marks)
    rw [seen]
    refine ih (session ▸ selected) (u.congr session realm)
      (fun p mem => shown p (List.mem_cons_of_mem _ mem)) fun marks reaches => ?_
    have read := read (needsMessage_of_marksSeen marks)
    rw [session, realm] at reaches
    exact unmarked marks ⟨read.1, read.2, .inr reaches⟩

theorem targets_getElem? {view : View} {p : Nat × MessageMeta}
    (mem : p ∈ view.targets set uidMode) : view.messages[p.1 - 1]? = some p.2 := by
  obtain ⟨⟨m, number⟩, inside, rfl⟩ := List.mem_map.mp mem
  exact (List.mem_zipIdx_iff_le_and_getElem?_sub.mp (List.mem_of_mem_filter inside)).2

theorem handleFetch_leaves (selected : c.session.view = some view)
    {changedSince : Option Nat}
    (harmless : Harmless ctx view c (.fetch uidMode text items changedSince)) :
    wp (handleFetch ctx uidMode text items changedSince) (fun _ => Untouched view c)
      (Untouched view c) c := by
  have u := Untouched.refl selected
  simp only [handleFetch, wp_bind]
  refine wp_requireSelected_self selected ?_
  simp only [wp_current]
  refine wp_stopIf (fun _ => wp_demand (fun set parsed => wp_stopIf (fun _ => ?_) u) u) u
  refine wp_mono (fetchEach_leaves selected u (fun p mem => ?_) fun marks => ?_) (fun _ _ u => u)
    fun _ u => u
  · exact targets_getElem? (List.mem_of_mem_filter mem)
  · exact harmless marks set parsed

/-! ### Commands that touch no folder -/

omit [DecidableEq S] in
theorem enableEach_leaves (names : List String) :
    Leaves view before (enableEach names : Handler S Unit) := by
  induction names with
  | nil => exact .pure _
  | cons name rest ih =>
    exact .bind (Leaves.stopIf _ _) fun _ =>
      .bind (Leaves.change (fun _ => rfl) (fun _ => rfl) fun _ => rfl) fun _ => ih

omit [DecidableEq S] in
theorem handleEnable_leaves (names : List String) :
    Leaves view before (handleEnable names : Handler S Completion) :=
  .bind Leaves.requireAuthenticated fun _ => .bind (Leaves.stopIf _ _) fun _ =>
    .bind (enableEach_leaves names) fun _ => .pure _

omit [DecidableEq S] in
theorem handleCompress_leaves (method : String) :
    Leaves view before (handleCompress method : Handler S Completion) :=
  .bind Leaves.requireAuthenticated fun _ => .bind (Leaves.stopIf _ _) fun _ =>
    .bind Leaves.current fun _ => .bind (Leaves.stopIf _ _) fun _ =>
      .bind (Leaves.change (fun _ => rfl) (fun _ => rfl) fun _ => rfl) fun _ => .pure _

omit [DecidableEq S] in
theorem handleStartTls_leaves : Leaves view before (handleStartTls : Handler S Completion) :=
  .bind Leaves.current fun _ => .bind (Leaves.stopIf _ _) fun _ => .bind (Leaves.stopIf _ _) fun _ =>
    .bind (Leaves.stopIf _ _) fun _ =>
      .bind (Leaves.change (fun _ => rfl) (fun _ => rfl) fun _ => rfl) fun _ => .pure _

/-! ### All commands -/

/-- A harmless command of a session that may only read leaves the selected folder alone, unless it
ends the selection. -/
theorem dispatch_leaves {command : Command} (selected : c.session.view = some view)
    (reads : MayOnlyRead view c) (stays : command.endsSelection = false)
    (harmless : Harmless ctx view c command) :
    wp (dispatch ctx ch command) (fun _ => Untouched view c) (Untouched view c) c := by
  have u := Untouched.refl selected
  cases command with
  | select | close | unselect => cases stays
  | capability | id | malformed => exact u
  | logout => exact u.session rfl rfl rfl
  | compress method => exact handleCompress_leaves method c u
  | enable names => exact handleEnable_leaves names c u
  | startTls => exact handleStartTls_leaves c u
  | login | authenticate =>
    simp only [dispatch, handleLogin, handleAuthenticate, wp_bind]
    exact requireNotAuthenticated_stops selected u
  | noop => exact Lib.Keeps.bind refreshSelected_leaves (fun _ => .pure _) c u
  | create name => exact handleCreate_leaves name c u
  | delete name => exact handleDelete_leaves name c u
  | rename => exact handleRename_leaves harmless.1 harmless.2 c u
  | subscribe name subscribe => exact handleSubscribe_leaves name subscribe c u
  | list => exact handleList_leaves _ _ _ c u
  | status => exact handleStatus_leaves _ c u
  | getQuota => exact handleGetQuota_leaves _ c u
  | getQuotaRoot => exact handleGetQuotaRoot_leaves _ c u
  | setQuota => exact handleSetQuota_leaves _ _ c u
  | append => exact handleAppend_leaves selected harmless
  | check =>
    simp only [dispatch, wp_bind]
    exact wp_requireSelected_self selected u
  | expunge => exact handleExpungeText_leaves selected reads
  | search => exact handleSearch_leaves _ _ c u
  | sort => exact handleSort_leaves _ _ c u
  | thread => exact handleThread_leaves _ c u
  | fetch => exact handleFetch_leaves selected harmless
  | store => exact handleStore_leaves selected reads
  | copy => exact handleCopy_leaves selected harmless
  | move => exact handleMove_leaves selected harmless
  | idle =>
    simp only [dispatch, wp_bind]
    exact wp_requireSelected_self selected (u.session rfl rfl rfl)
  | namespaces =>
    exact Lib.Keeps.bind Leaves.requireAuthenticated (fun _ => .pure _) c u
  | getMetadata => exact handleMetadata_leaves _ _ c u
  | setMetadata => exact handleMetadata_leaves _ _ c u
  | getAcl => exact handleGetAcl_leaves _ c u
  | setAcl => exact handleSetAcl_leaves _ _ _ c u
  | deleteAcl => exact handleDeleteAcl_leaves _ _ c u
  | listRights => exact handleListRights_leaves _ _ c u
  | myRights => exact handleMyRights_leaves _ c u

theorem pollIdle_leaves : Leaves view before (pollIdle ch : Handler S Unit) := by
  intro c u
  have run : wp (refreshSelected ch) (fun _ => Untouched view before) (Untouched view before) c :=
    refreshSelected_leaves c u
  unfold wp at *
  unfold pollIdle
  generalize refreshSelected ch c = result at *
  cases result with
  | ok a t => exact run
  | error completion t => exact run.session rfl rfl rfl

/-! ### Runs -/

def World.conn (w : World S) : Conn S := { session := w.session, realm := w.realm, accesses := [] }

/-- SELECT opens a folder, or EXAMINE where it is not `writable`. -/
structure Opens (ctx : Context S) (ch : Choices) (mailbox : String)
    (parameters : List SelectParameter) (writable : Bool) (w w' : World S) : Prop where
  taken : step ctx w (.command (.select mailbox parameters writable) ch) = some w'
  answered : ∃ text c,
    dispatch ctx ch (.select mailbox parameters writable) w.conn = .ok (.ok text) c

/-- What may happen while the folder is selected. On a folder that SELECT has opened the user lacks
the rights when a command comes; others may do anything to the stores. -/
def Reading (ctx : Context S) (writable : Bool) (w : World S) : Event S → Prop
  | .command command _ => command.endsSelection = false ∧
      ∀ view, w.session.view = some view →
        (writable = true → LacksRights view w.conn) ∧ Harmless ctx view w.conn command
  | _ => True

def Event.isOwn : Event S → Bool
  | .outside _ => false
  | _ => true

/-- The session shows the folder of the view, in the store. -/
structure World.Shows (store : S) (view : View) (w : World S) : Prop where
  store : w.session.store = store
  shown : ∃ view', w.session.view = some view' ∧ view'.folder = view.folder ∧
    view'.writable = view.writable

omit [DecidableEq S] in
/-- A handler that leaves the folder alone also leaves it selected. -/
theorem World.Shows.run {store : S} {view view' : View} {w : World S} {h : Handler S α}
    (shows_ : w.Shows store view) (folder : view'.folder = view.folder)
    (writable : view'.writable = view.writable)
    (leaves : wp h (fun _ => Untouched view' w.conn) (Untouched view' w.conn) w.conn) :
    (w.run h).Shows store view ∧
      (w.realm store).Spares view.folder ((w.run h).realm store) := by
  have u := finalState_of_wp leaves
  obtain ⟨view'', selected, same, same'⟩ := u.shown
  refine ⟨⟨u.store.trans shows_.store, view'', selected, same.trans folder,
    same'.trans writable⟩, ?_⟩
  have spared := u.spared
  rw [show w.conn.session.store = store from shows_.store, folder] at spared
  exact spared

/-- One event keeps the folder selected, and unless it is one of others the folder stays the
same. -/
theorem World.Shows.step {store : S} {view : View} {w w' : World S} {event : Event S}
    (shows_ : w.Shows store view) (reading : Reading ctx view.writable w event)
    (taken : Imap.step ctx w event = some w') :
    w'.Shows store view ∧
      (event.isOwn = true → (w.realm store).Spares view.folder (w'.realm store)) := by
  obtain ⟨view', selected, folder, writable⟩ := shows_.shown
  have u : Untouched view' w.conn w.conn := .refl selected
  cases event with
  | command command ch =>
    obtain ⟨stays, reading⟩ := reading
    simp only [Imap.step] at taken
    split at taken
    · cases taken
    cases taken
    obtain ⟨lacks, harmless⟩ := reading view' selected
    have reads : MayOnlyRead view' w.conn := by
      cases mode : view.writable with
      | true => exact .inr (lacks mode)
      | false => exact .inl (writable.trans mode)
    have spared : wp (dispatch ctx ch command) (fun _ => Untouched view' w.conn)
        (Untouched view' w.conn) w.conn :=
      dispatch_leaves selected reads stays harmless
    have ran := shows_.run folder writable spared
    exact ⟨ran.1, fun _ => ran.2⟩
  | poll ch =>
    simp only [Imap.step] at taken
    split at taken
    · cases taken
    cases taken
    have spared : wp (pollIdle ch) (fun _ => Untouched view' w.conn) (Untouched view' w.conn)
        w.conn :=
      pollIdle_leaves _ u
    have ran := shows_.run folder writable spared
    exact ⟨ran.1, fun _ => ran.2⟩
  | line text =>
    simp only [Imap.step] at taken
    split at taken
    · cases taken
    cases taken
    have ended : Leaves view' w.conn (endIdle : Handler S Completion) :=
      .bind (Leaves.change (fun _ => rfl) (fun _ => rfl) fun _ => rfl) fun _ => .pure _
    have ran := shows_.run folder writable (ended _ u)
    exact ⟨ran.1, fun _ => ran.2⟩
  | hangUp =>
    simp only [Imap.step] at taken
    split at taken
    · cases taken
    cases taken
    exact ⟨⟨shows_.store, shows_.shown⟩, fun _ => .refl _ _⟩
  | outside change =>
    cases taken
    exact ⟨⟨shows_.store, shows_.shown⟩, fun own => by cases own⟩

theorem handleSelect_shows :
    wp (handleSelect ctx ch mailbox parameters writable)
      (fun _ t => ∃ view, t.session.view = some view ∧ view.writable = writable) (fun _ => True)
      c := by
  have anything : ∀ {α : Type} {h : Handler S α} {c : Conn S},
      wp h (fun _ _ => True) (fun _ => True) c := by
    intro α h c
    unfold wp
    cases h c <;> trivial
  simp only [handleSelect, wp_bind]
  refine wp_mono anything (fun user _ _ => ?_) fun _ _ => trivial
  refine wp_mono anything (fun request _ _ => ?_) fun _ _ => trivial
  refine wp_mono anything (fun opened _ _ => ?_) fun _ _ => trivial
  simp only [wp_change]
  refine wp_mono anything (fun _ _ _ => ?_) fun _ _ => trivial
  exact ⟨_, rfl, rfl⟩

theorem Opens.shows
    {w w' : World S} (h : Opens ctx ch mailbox parameters writable w w') :
    ∃ view, w'.session.view = some view ∧ view.writable = writable := by
  obtain ⟨text, c, answered⟩ := h.answered
  have taken := h.taken
  simp only [Imap.step] at taken
  split at taken
  · cases taken
  cases taken
  have shown := (wp_of_ok answered).mp handleSelect_shows
  have final : finalState (dispatch ctx ch (.select mailbox parameters writable)) w.conn = c := by
    rw [finalState, answered]
  rw [← final] at shown
  exact shown

/-- While a folder is selected that may only be read, no command of the session changes its
messages, their flags or their modification numbers, whatever others do to the stores in between. -/
theorem read_only_selection_changes_nothing {mailbox : String} {parameters : List SelectParameter}
    {writable : Bool} {w w1 w2 w3 : World S} {events : List (Event S)} {event : Event S}
    (opened : Opens ctx ch mailbox parameters writable w w1)
    (run : Runs (step ctx) (Reading ctx writable) w1 events w2)
    (reading : Reading ctx writable w2 event)
    (taken : step ctx w2 event = some w3) (own : event.isOwn = true) :
    ∃ view, w1.session.view = some view ∧ view.writable = writable ∧
      (w2.realm w1.session.store).Spares view.folder (w3.realm w1.session.store) := by
  obtain ⟨view, selected, rfl⟩ := opened.shows
  have start : w1.Shows w1.session.store view := ⟨rfl, view, selected, rfl, rfl⟩
  have shows_ : w2.Shows w1.session.store view :=
    run.invariant start fun _ _ _ shows_ reading taken => (shows_.step reading taken).1
  exact ⟨view, selected, rfl, (shows_.step reading taken).2 own⟩

/-- Everybody's inbox has one message, which nobody has seen. -/
def unseenRealm : Realm Nat := fun _ =>
  { folders :=
      [(inbox,
        { files := [{ base := "1.M2P3Q1.host", directory := .cur, flags := ∅, size := 5 }]
          uidFile := some
            { uidvalidity := 7
              uidnext := 2
              highestModseq := 1
              byUid := [{ uid := 1, base := "1.M2P3Q1.host", modseq := 1 }] }
          expunged := []
          acl := [] })]
    quota := none
    usage := none }

/-- Commands that are harmless after EXAMINE whatever the state. -/
def isHarmless : Event Nat → Bool
  | .command (.store _ _ _ _ _) _ | .command (.expunge _) _ | .command .noop _ => true
  | .command (.fetch _ _ items _) _ => !marksSeen items
  | _ => false

theorem reading_of_isHarmless (w : World Nat) (event : Event Nat) (h : isHarmless event = true) :
    Reading exampleContext false w event := by
  unfold isHarmless at h
  split at h
  · exact ⟨rfl, fun view _ => ⟨(fun wrong => by cases wrong), trivial⟩⟩
  · exact ⟨rfl, fun view _ => ⟨(fun wrong => by cases wrong), trivial⟩⟩
  · exact ⟨rfl, fun view _ => ⟨(fun wrong => by cases wrong), trivial⟩⟩
  · refine ⟨rfl, fun view _ => ⟨(fun wrong => by cases wrong), fun marks => ?_⟩⟩
    rw [marks] at h
    cases h
  · cases h

def examine : Event Nat := .command (.select inbox [] false) exampleChoices

def fetch (items : List FetchItem) : Event Nat :=
  .command (.fetch false "1" items none) exampleChoices

def bodyItem (peek : Bool) : FetchItem := .body { section_ := .full, peek, window := none }

def storeDeleted : Event Nat :=
  .command (.store false "1" .add {.system .deleted} none) exampleChoices

def examines (w : World Nat) : Bool :=
  match dispatch exampleContext exampleChoices (.select inbox [] false) w.conn with
  | .ok (.ok _) _ => true
  | _ => false

theorem opens_of_examines {w w' : World Nat} (answered : examines w = true)
    (taken : step exampleContext w examine = some w') :
    Opens exampleContext exampleChoices inbox [] false w w' := by
  refine ⟨taken, ?_⟩
  unfold examines at answered
  split at answered
  · rename_i text c run
    exact ⟨text, c, run⟩
  · cases answered

/-- The states before and after EXAMINE, after more events and after one more. -/
def afterExamine (events : List (Event Nat)) (last : Event Nat) :
    Option (World Nat × World Nat × World Nat × World Nat) :=
  (exec (step exampleContext) (.start exampleContext true false unseenRealm) [login "alice"]).bind
    fun w => if examines w then
      (step exampleContext w examine).bind fun w1 =>
        (checkedExec (step exampleContext) (fun _ => isHarmless) w1 events).bind fun w2 =>
          (step exampleContext w2 last).map fun w3 => (w, w1, w2, w3)
    else none

theorem afterExamine_some {events : List (Event Nat)} {last : Event Nat} {w w1 w2 w3 : World Nat}
    (h : afterExamine events last = some (w, w1, w2, w3)) :
    Opens exampleContext exampleChoices inbox [] false w w1 ∧
      Runs (step exampleContext) (Reading exampleContext false) w1 events w2 ∧
      step exampleContext w2 last = some w3 := by
  obtain ⟨v, -, h⟩ := Option.bind_eq_some_iff.mp h
  split_ifs at h with answered
  obtain ⟨v1, opened, h⟩ := Option.bind_eq_some_iff.mp h
  obtain ⟨v2, run, h⟩ := Option.bind_eq_some_iff.mp h
  obtain ⟨v3, taken, same⟩ := Option.map_eq_some_iff.mp h
  cases same
  exact ⟨opens_of_examines answered opened, runs_of_checkedExec reading_of_isHarmless run, taken⟩

theorem read_only_selection_changes_nothing_examine :
    ∃ w w1 w2 w3 : World Nat, Opens exampleContext exampleChoices inbox [] false w w1 ∧
      Runs (step exampleContext) (Reading exampleContext false) w1
        [storeDeleted, .command (.expunge none) exampleChoices] w2 ∧
      step exampleContext w2 (fetch [bodyItem true]) = some w3 ∧
      ∃ view, w1.session.view = some view ∧ view.writable = false ∧
        (w2.realm w1.session.store).Spares view.folder (w3.realm w1.session.store) := by
  have reached : (afterExamine [storeDeleted, .command (.expunge none) exampleChoices]
      (fetch [bodyItem true])).isSome = true := by
    decide +kernel
  obtain ⟨⟨w, w1, w2, w3⟩, run⟩ := Option.isSome_iff_exists.mp reached
  obtain ⟨opened, runs, taken⟩ := afterExamine_some run
  exact ⟨w, w1, w2, w3, opened, runs, taken,
    read_only_selection_changes_nothing opened runs (reading_of_isHarmless w2 _ rfl) taken rfl⟩

/-- After EXAMINE a FETCH of the content stores a flag. -/
theorem fetch_after_examine_marks_seen :
    ∃ w w1 w2 : World Nat, Opens exampleContext exampleChoices inbox [] false w w1 ∧
      step exampleContext w1 (fetch [bodyItem false]) = some w2 ∧
      ∃ view, w1.session.view = some view ∧ view.writable = false ∧
        ¬(w1.realm w1.session.store).Spares view.folder (w2.realm w1.session.store) := by
  have reached : (afterExamine [] (fetch [bodyItem false])).any (fun (_, w1, _, w3) =>
      w1.session.view.any fun view => !view.writable &&
        ((w1.realm w1.session.store).find view.folder).any fun f =>
          ((w3.realm w1.session.store).find view.folder).all fun f' => f'.files ≠ f.files) = true := by
    decide +kernel
  obtain ⟨⟨w, w1, w2, w3⟩, run, facts⟩ := Option.any_eq_true _ _ |>.mp reached
  obtain ⟨opened, runs, taken⟩ := afterExamine_some run
  obtain ⟨view, selected, facts⟩ := Option.any_eq_true _ _ |>.mp facts
  obtain ⟨closed, facts⟩ := (Bool.and_eq_true _ _).mp facts
  obtain ⟨f, found, changed⟩ := Option.any_eq_true _ _ |>.mp facts
  obtain rfl := runs.eq_of_nil
  refine ⟨w, w2, w3, opened, taken, view, selected, by simpa using closed, fun spared => ?_⟩
  obtain ⟨f', found', same⟩ := spared f found
  rw [found'] at changed
  exact of_decide_eq_true changed same.files

end MailStack.Imap
