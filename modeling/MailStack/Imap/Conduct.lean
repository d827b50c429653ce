import MailStack.Imap.Terms

/-! What the commands of a session do under terms that are left open: a command that is licensed
keeps to them, and only authentication changes the user of a session or its own store. -/

namespace MailStack.Imap

open Lib Maildir Handler

variable {S α : Type} [DecidableEq S] {c : Conn S} {ctx : Context S} {ch : Choices} {T : Terms S}
  {user : Option String}
  {own : S} {parameters : List SelectParameter} {unchangedSince : Option Nat}
  {m : ResolvedMailbox S} {mode : StoreMode} {uids : List Nat} {job : StoreJob} {root : String}
  {view : View}

abbrev Keeps (T : Terms S) (user : Option String) (own : S) (h : Handler S α) (c : Conn S) : Prop :=
  wp h (fun _ => Kept T user own) (Kept T user own) c

/-- A handler that leaves the stores, the session's place among them and the view alone. -/
def Steady (c t : Conn S) : Prop :=
  t.session.store = c.session.store ∧ t.session.selectedOwner = c.session.selectedOwner ∧
    t.session.view = c.session.view ∧ t.realm = c.realm

/-! ### The selected folder -/

variable (k : Kept T user own c)

include k

theorem refreshSelected_keeps (reads : OnSelected T c.session "r") :
    Keeps T user own (refreshSelected ch) c := by
  simp only [refreshSelected, wp_bind, wp_current]
  split
  · exact k
  rename_i view found
  rw [wp_ite]
  refine ⟨fun _ => k.mapView _, fun _ => ?_⟩
  simp only [wp_bind, wp_attempt]
  have k' := fun realm => k.access realm (reads view found)
  exact wp_demand (fun state _ => (k' _).mapView _) (k' _)

variable {folder : String}

theorem refreshIfSelected_keeps
    (reads : ∀ view, c.session.view = some view → eqIgnoreAsciiCase view.folder folder = true →
      T.lawful { store := c.session.store, folder := some view.folder, rights := some "r" }) :
    Keeps T user own (refreshIfSelected ch folder) c := by
  simp only [refreshIfSelected, wp_bind, wp_current]
  split
  · rename_i view found
    rw [wp_ite]
    refine ⟨fun same => ?_, fun _ => k⟩
    simp only [wp_bind, wp_change]
    refine refreshSelected_keeps (k.mapView _) fun view' found' => ?_
    obtain rfl : { view with stamp := none } = view' := by
      simpa [Session.invalidateViewStamp, found] using found'
    exact reads view found same
  · exact k

theorem expungeSelected_keeps (expunges : T.lawful
      { store := c.session.store, folder := some view.folder, rights := some "t" }) :
    Keeps T user own (expungeSelected view uids) c := by
  unfold expungeSelected
  rw [Keeps, wp_ite]
  refine ⟨fun _ => k, fun _ => ?_⟩
  simp only [wp_bind, wp_current, wp_attempt]
  exact wp_demand (fun _ _ => k.access _ expunges) (k.access _ expunges)

theorem handleClose_keeps (home : T.seat own none)
    (expunges : OnChecked T c.session c.realm "t") : Keeps T user own handleClose c := by
  simp only [handleClose, Keeps, wp_bind]
  refine wp_requireSelected (fun known view found => ?_) k
  have closed : Keeps T user own (closeExpunge view) c := by
    unfold closeExpunge
    rw [Keeps, wp_ite]
    refine ⟨fun _ => ?_, fun _ => k⟩
    simp only [wp_bind]
    exact wp_requireSelectedRights
      (fun allowed => expungeSelected_keeps k (expunges view found allowed)) k
  exact wp_mono closed (fun _ t kept => kept.deselect home) fun _ kept => kept

theorem handleExpunge_keeps {set : SequenceSet}
    (expunges : OnChecked T c.session c.realm "t") : Keeps T user own (handleExpunge set) c := by
  simp only [handleExpunge, Keeps, wp_bind]
  refine wp_requireSelected (fun known view found => ?_) k
  refine wp_stopIf (fun _ => ?_) k
  refine wp_requireSelectedRights (fun allowed => ?_) k
  refine wp_mono (expungeSelected_keeps k (expunges view found allowed)) (fun _ t kept => ?_)
    fun _ kept => kept
  exact kept.mapView _

theorem handleExpungeText_keeps {restrict : Option String}
    (expunges : OnChecked T c.session c.realm "t") :
    Keeps T user own (handleExpungeText restrict) c := by
  unfold handleExpungeText
  split
  · exact handleExpunge_keeps k expunges
  · simp only [Keeps, wp_bind, wp_current]
    exact wp_demand (fun set _ => handleExpunge_keeps k expunges) k

/-! ### Selecting -/

omit [DecidableEq S] in
theorem selectParameters_keeps {request : Option (Nat × Nat)} :
    wp (selectParameters parameters request) (fun _ t => Kept T user own t ∧ Steady c t)
      (Kept T user own) c := by
  induction parameters generalizing c request with
  | nil => exact ⟨k, rfl, rfl, rfl, rfl⟩
  | cons parameter rest ih =>
    have k' : Kept T user own { c with session := { c.session with condstore := true } } :=
      ⟨k.user, k.own, k.seat, k.lawful⟩
    cases parameter with
    | condstore =>
      simp only [selectParameters, wp_bind, wp_change]
      exact ih k'
    | qresync parsed =>
      simp only [selectParameters, wp_bind, wp_current]
      refine wp_stopIf (fun _ => ?_) k
      cases parsed with
      | error message => exact k
      | ok request' =>
        simp only [wp_bind, wp_change]
        exact ih k'
    | other name => exact k

/-- What SELECT may do with the mailbox that it names. -/
def MaySelect (ctx : Context S) (T : Terms S) (s : Session S) (realm : Realm S)
    (name : String) : Prop :=
  s.user ≠ none → ∀ m, resolveMailbox ctx.resolver s.store name = .ok m →
    checkSharedRights (realm m.store) m.folder m.owner s.user "lr" = .ok () →
    T.lawful { store := m.store, folder := some m.folder, rights := some "lr" } ∧
      T.seat m.store m.owner

variable {mailbox : String}

theorem handleSelect_keeps {writable : Bool}
    (home : T.seat own none) (may : MaySelect ctx T c.session c.realm mailbox) :
    Keeps T user own (handleSelect ctx ch mailbox parameters writable) c := by
  simp only [handleSelect, Keeps, wp_bind]
  refine wp_requireAuthenticated (fun known me hme => ?_) k
  refine wp_mono (selectParameters_keeps k) (fun request c1 next => ?_) fun _ kept => kept
  obtain ⟨k1, steady⟩ := next
  obtain ⟨same, -, -, sameRealm⟩ := steady
  refine wp_orDeselect ?_
  simp only [openSelected, wp_bind]
  refine wp_resolved (fun m found allowed => ?_) (k1.deselect home)
  rw [same] at found
  rw [sameRealm, k1.user.trans k.user.symm] at allowed
  obtain ⟨lawful, seat⟩ := may known m found allowed
  simp only [wp_attempt]
  have k2 := fun realm => k1.access realm lawful
  refine wp_demand (fun state _ => ?_) ((k2 _).deselect home)
  simp only [wp_pure, wp_change]
  have k3 : ∀ realm, Kept T user own
      { c1 with
        session := { c1.session with store := m.store, selectedOwner := m.owner, savedSearch := none }
        realm
        accesses := c1.accesses ++
          [{ store := m.store, folder := some m.folder, rights := some "lr" }] } :=
    fun realm => ⟨k1.user, k1.own, seat, (k2 realm).lawful⟩
  have expunged : ∀ {c2 : Conn S}, Kept T user own c2 →
      Keeps T user own (expungedSince m state request) c2 := by
    intro c2 kept
    unfold expungedSince
    split
    · exact kept
    · rw [Keeps, wp_ite]
      refine ⟨fun _ => ?_, fun _ => kept⟩
      simp only [wp_bind, wp_attempt]
      exact wp_demand (fun _ _ => kept.access _ lawful) (kept.access _ lawful)
  refine wp_mono (expunged (k3 _)) (fun _ t kept => ?_) fun _ kept => kept
  refine ⟨?_, kept.own, kept.seat, kept.lawful⟩
  exact hme.symm.trans k.user

/-! ### Folders and quota of the current store -/

variable {name : String}

theorem ownStoreOp_keeps {op : MailStore → Outcome α} (known : c.session.user ≠ none)
    (may : isShared name = false → OnStore T c.session) :
    wp (ownStoreOp name op)
      (fun _ t => Kept T user own t ∧ t.session = c.session ∧ isShared name = false)
      (Kept T user own) c := by
  simp only [ownStoreOp, wp_bind]
  refine wp_demand (fun _ passed => ?_) k
  have unshared := denyShared_ok passed
  simp only [wp_current, wp_attempt]
  have k' := fun realm => k.access realm (may unshared known (some name))
  exact wp_demand (fun _ _ => ⟨k' _, rfl, unshared⟩) (k' _)

theorem handleCreate_keeps (may : isShared name = false → OnStore T c.session) :
    Keeps T user own (handleCreate name) c := by
  simp only [handleCreate, Keeps, wp_bind]
  refine wp_requireAuthenticated (fun known _ _ => ?_) k
  exact wp_mono (ownStoreOp_keeps k known may) (fun _ _ done => done.1) fun _ kept => kept

theorem handleDelete_keeps (may : isShared name = false → OnStore T c.session) :
    Keeps T user own (handleDelete name) c := by
  simp only [handleDelete, Keeps, wp_bind]
  refine wp_requireAuthenticated (fun known _ _ => ?_) k
  refine wp_demand (fun _ _ => ?_) k
  simp only [wp_current]
  refine wp_stopIf (fun _ => ?_) k
  exact wp_mono (ownStoreOp_keeps k known may) (fun _ _ done => done.1) fun _ kept => kept

theorem handleSubscribe_keeps {subscribe : Bool}
    (may : isShared name = false → OnStore T c.session) :
    Keeps T user own (handleSubscribe name subscribe) c := by
  simp only [handleSubscribe, Keeps, wp_bind]
  refine wp_requireAuthenticated (fun known _ _ => ?_) k
  exact wp_mono (ownStoreOp_keeps k known may) (fun _ _ done => done.1) fun _ kept => kept

theorem handleRename_keeps {source target : String}
    (may : isShared source = false → isShared target = false → OnStore T c.session)
    (reads : c.session.user ≠ none → isShared source = false → isShared target = false →
      ∀ folder,
        T.lawful { store := c.session.store, folder := some folder, rights := some "r" }) :
    Keeps T user own (handleRename ch source target) c := by
  simp only [handleRename, Keeps, wp_bind]
  refine wp_requireAuthenticated (fun known _ _ => ?_) k
  refine wp_demand (fun _ passed => ?_) k
  have plain := denyShared_ok passed
  have may := may plain
  refine wp_mono (ownStoreOp_keeps k known may) (fun _ t next => ?_) fun _ kept => kept
  obtain ⟨kept, same, unshared⟩ := next
  simp only [followRename, wp_bind, wp_current]
  rw [wp_ite]
  refine ⟨fun _ => ?_, fun _ => kept⟩
  simp only [wp_bind, wp_change]
  refine refreshSelected_keeps (kept.mapView _) fun view _ => ?_
  rw [Session.store_mapView, same]
  exact reads known plain unshared view.folder

variable {resolver : Resolver S}

theorem showShared_keeps {store : S} {owner folder : String}
    (configured : ctx.resolver = some resolver) (found : resolver.resolve owner = some store)
    (known : c.session.user ≠ none) (may : OnListing ctx T c.session c.realm) :
    wp (showShared store (toAsciiLowercase owner) folder) (fun _ t => Kept T user own t ∧
      t.session.user ≠ none ∧ OnListing ctx T t.session t.realm) (Kept T user own) c := by
  simp only [showShared, wp_bind, wp_current, wp_inspect]
  split
  · exact ⟨k, known, may⟩
  · rename_i passed
    simp only [wp_bind, wp_attempt, wp_pure, Function.update_eq_self]
    have lawful := may known resolver owner store folder configured found passed
    exact ⟨k.access _ lawful, known, may⟩

theorem showFolders_keeps {store : S} {owner : String}
    {folders : List String} (configured : ctx.resolver = some resolver)
    (found : resolver.resolve owner = some store) (known : c.session.user ≠ none)
    (may : OnListing ctx T c.session c.realm) :
    Keeps T user own (showFolders store (toAsciiLowercase owner) folders) c := by
  induction folders generalizing c with
  | nil => exact k
  | cons folder rest ih =>
    simp only [showFolders, Keeps, wp_bind]
    exact wp_mono (showShared_keeps k configured found known may)
      (fun _ t next => ih next.1 next.2.1 next.2.2) fun _ kept => kept

theorem showUsers_keeps {users : List String}
    (configured : ctx.resolver = some resolver) (known : c.session.user ≠ none)
    (may : OnListing ctx T c.session c.realm) :
    Keeps T user own (showUsers resolver users) c := by
  induction users generalizing c with
  | nil => exact k
  | cons u rest ih =>
    simp only [showUsers, Keeps]
    split
    · exact ih k known may
    · rename_i store found
      simp only [wp_bind]
      exact wp_mono (showShared_keeps k configured found known may)
        (fun _ t next => ih next.1 next.2.1 next.2.2) fun _ kept => kept

theorem sharedMailboxListing_keeps {pattern : String} (known : c.session.user ≠ none)
    (may : OnListing ctx T c.session c.realm) :
    Keeps T user own (sharedMailboxListing ctx pattern) c := by
  unfold sharedMailboxListing
  split
  · exact k
  rename_i resolver configured
  simp only
  split
  · split
    · exact k
    · rename_i store found
      simp only [Keeps, wp_bind, wp_inspect]
      exact showFolders_keeps k configured found known may
  · exact showUsers_keeps k configured known may

theorem handleList_keeps {lsub : Bool} {reference pattern : String}
    (listing : OnListing ctx T c.session c.realm)
    (may : (lsub || !isShared (resolvePattern reference pattern)) = true → OnStore T c.session) :
    Keeps T user own (handleList ctx lsub reference pattern) c := by
  simp only [handleList, Keeps, wp_bind]
  refine wp_requireAuthenticated (fun known _ _ => ?_) k
  simp only [wp_ite]
  refine ⟨fun _ => k, fun _ => ⟨fun _ => k, fun _ => ⟨fun _ => ?_, fun unshared => ?_⟩⟩⟩
  · simp only [wp_bind]
    exact sharedMailboxListing_keeps k known listing
  · have own : (lsub || !isShared (resolvePattern reference pattern)) = true := by
      cases lsub <;> simp_all
    simp only [wp_bind, wp_current, wp_attempt, wp_pure]
    exact k.access _ (may own known none)

theorem readQuota_keeps (known : c.session.user ≠ none) (may : OnStore T c.session) :
    Keeps T user own readQuota c := by
  simp only [readQuota, Keeps, wp_bind, wp_current, wp_attempt, wp_pure]
  exact k.access _ (may known none)

theorem handleGetQuota_keeps (may : OnStore T c.session) :
    Keeps T user own (handleGetQuota root) c := by
  simp only [handleGetQuota, Keeps, wp_bind]
  refine wp_requireAuthenticated (fun known _ _ => ?_) k
  exact wp_stopIf (fun _ => readQuota_keeps k known may) k

theorem handleGetQuotaRoot_keeps
    (may : OnStore T c.session) : Keeps T user own (handleGetQuotaRoot mailbox) c := by
  simp only [handleGetQuotaRoot, Keeps, wp_bind]
  refine wp_requireAuthenticated (fun known _ _ => ?_) k
  simp only [wp_current, wp_attempt]
  have k' := fun realm => k.access realm (may known (some mailbox))
  refine wp_demand (fun found _ => ?_) (k' _)
  exact wp_stopIf (fun _ => readQuota_keeps (k' _) known may) (k' _)

theorem handleSetQuota_keeps {resources : List (String × Nat)}
    (may : OnStore T c.session) :
    Keeps T user own (handleSetQuota ctx root resources) c := by
  simp only [handleSetQuota, Keeps, wp_bind]
  refine wp_requireAuthenticated (fun known _ _ => ?_) k
  refine wp_stopIf (fun _ => wp_stopIf (fun _ => wp_stopIf (fun _ => ?_) k) k) k
  split
  · exact k
  · simp only [wp_bind, wp_current, wp_attempt, wp_pure]
    exact k.access _ (may known none)

/-- The metadata of the selected folder, of a named one or of the server. -/
theorem handleMetadata_keeps {mailbox : Option String} {completed : String}
    (may : (∀ name, mailbox = some name → isShared name = false) → OnStore T c.session) :
    Keeps T user own (handleMetadata mailbox completed) c := by
  simp only [handleMetadata, Keeps, wp_bind]
  refine wp_requireAuthenticated (fun known _ _ => ?_) k
  have after : ∀ scope, OnStore T c.session → Keeps T user own (touchMetadata scope) c := by
    intro scope lawful
    simp only [touchMetadata, Keeps, wp_bind, wp_current, wp_attempt]
    exact wp_demand (fun _ _ => k.access _ (lawful known scope)) (k.access _ (lawful known scope))
  unfold metadataScope
  split
  · simp only [wp_bind, wp_current]
    split
    · exact after _ (may (by simp))
    · exact k
  · rename_i name
    simp only [wp_bind]
    refine wp_demand (fun _ passed => ?_) k
    refine after _ (may ?_)
    rintro _ ⟨⟩
    exact denyShared_ok passed

/-! ### Mailboxes that are named -/

theorem handleStatus_keeps (may : OnNamed ctx T c.session c.realm mailbox "l") :
    Keeps T user own (handleStatus ctx ch mailbox) c := by
  simp only [handleStatus, Keeps, wp_bind]
  refine wp_requireAuthenticated (fun known _ _ => ?_) k
  refine wp_resolved (fun m found allowed => ?_) k
  have k' := fun realm => k.access realm (may known m found allowed)
  simp only [wp_attempt]
  exact wp_demand (fun _ _ => k' _) (k' _)

theorem handleAppend_keeps {messages : List NewMessage}
    (may : OnNamed ctx T c.session c.realm mailbox "i") (reads : OnSelected T c.session "r") :
    Keeps T user own (handleAppend ctx ch mailbox messages) c := by
  simp only [handleAppend, Keeps, wp_bind]
  refine wp_requireAuthenticated (fun known _ _ => ?_) k
  simp only [wp_current]
  refine wp_stopIf (fun _ => wp_stopIf (fun _ => wp_stopIf (fun _ => ?_) k) k) k
  refine wp_resolved (fun m found allowed => ?_) k
  have k' := fun realm => k.access realm (may known m found allowed)
  simp only [wp_attempt]
  split
  · exact k' _
  · exact k' _
  · simp only [wp_bind]
    exact refreshIfSelected_keeps (k' _) fun view shown _ => reads view shown

theorem readAclOf_keeps {rights : String}
    (lawful : T.lawful { store := m.store, folder := some m.folder, rights := some rights }) :
    Keeps T user own (readAclOf m rights) c := by
  simp only [readAclOf, Keeps, wp_bind, wp_attempt]
  exact wp_demand (fun _ _ => k.access _ lawful) (k.access _ lawful)

theorem handleGetAcl_keeps (may : OnNamed ctx T c.session c.realm mailbox "l") :
    Keeps T user own (handleGetAcl ctx mailbox) c := by
  simp only [handleGetAcl, Keeps, wp_bind]
  refine wp_requireAuthenticated (fun known _ _ => ?_) k
  exact wp_resolved (fun m found allowed => readAclOf_keeps k (may known m found allowed)) k

theorem handleListRights_keeps {mailbox identifier : String}
    (may : OnNamed ctx T c.session c.realm mailbox "l") :
    Keeps T user own (handleListRights ctx mailbox identifier) c := by
  simp only [handleListRights, Keeps, wp_bind]
  refine wp_requireAuthenticated (fun known _ _ => wp_stopIf (fun _ => ?_) k) k
  exact wp_resolved (fun m found allowed => readAclOf_keeps k (may known m found allowed)) k

theorem handleMyRights_keeps (may : OnNamed ctx T c.session c.realm mailbox "l") :
    Keeps T user own (handleMyRights ctx mailbox) c := by
  simp only [handleMyRights, Keeps, wp_bind]
  refine wp_requireAuthenticated (fun known _ _ => ?_) k
  exact wp_resolved (fun m found allowed => readAclOf_keeps k (may known m found allowed)) k

theorem changeAcl_keeps {mailbox identifier refusal : String} {rights : Option String}
    (known : c.session.user ≠ none) (may : OnNamed ctx T c.session c.realm mailbox "a") :
    Keeps T user own (changeAcl ctx mailbox identifier rights refusal) c := by
  simp only [changeAcl, Keeps, wp_bind]
  refine wp_resolved (fun m found allowed => ?_) k
  simp only [wp_current]
  refine wp_stopIf (fun _ => ?_) k
  have k' := fun realm => k.access realm (may known m found allowed)
  simp only [wp_attempt]
  exact wp_demand (fun _ _ => k' _) (k' _)

theorem handleSetAcl_keeps {mailbox identifier rights : String}
    (may : OnNamed ctx T c.session c.realm mailbox "a") :
    Keeps T user own (handleSetAcl ctx mailbox identifier rights) c := by
  simp only [handleSetAcl, Keeps, wp_bind]
  refine wp_requireAuthenticated (fun known _ _ => wp_stopIf (fun _ => ?_) k) k
  exact wp_demand (fun _ _ => changeAcl_keeps k known may) k

theorem handleDeleteAcl_keeps {mailbox identifier : String}
    (may : OnNamed ctx T c.session c.realm mailbox "a") :
    Keeps T user own (handleDeleteAcl ctx mailbox identifier) c := by
  simp only [handleDeleteAcl, Keeps, wp_bind]
  exact wp_requireAuthenticated
    (fun known _ _ => wp_stopIf (fun _ => changeAcl_keeps k known may) k) k

/-! ### Messages of the selected folder -/

theorem readEach_keeps {messages : List MessageMeta}
    (reads : T.lawful { store := c.session.store, folder := some folder, rights := some "r" }) :
    wp (readEach folder messages)
      (fun _ t => Kept T user own t ∧ t.session = c.session) (Kept T user own) c := by
  induction messages generalizing c with
  | nil => exact ⟨k, rfl⟩
  | cons message rest ih =>
    simp only [readEach, readSelected, wp_bind, wp_current, wp_attempt]
    have k' := fun realm => k.access realm reads
    exact wp_demand (fun _ _ => ih (k' _) reads) (k' _)

variable {key : SearchKey}

theorem queryMessages_keeps {mustFit : Bool}
    {pending : Option Bool → Bool} {tooLarge : String} (reads : T.lawful
      { store := c.session.store, folder := some view.folder, rights := some "r" }) :
    wp (queryMessages ctx view key mustFit pending tooLarge)
      (fun _ t => Kept T user own t ∧ t.session = c.session) (Kept T user own) c := by
  simp only [queryMessages, wp_bind]
  exact wp_stopIf (fun _ => readEach_keeps k reads) k

theorem handleSearch_keeps {save : Bool}
    (reads : OnSelected T c.session "r") : Keeps T user own (handleSearch ctx key save) c := by
  simp only [handleSearch, Keeps, wp_bind]
  refine wp_requireSelected (fun known view found => ?_) k
  simp only [wp_current]
  refine wp_stopIf (fun _ => ?_) k
  refine wp_mono (queryMessages_keeps k (reads view found)) (fun _ t next => ?_)
    fun _ kept => kept
  obtain ⟨kept, _⟩ := next
  simp only [wp_change, wp_pure]
  cases save with
  | true => exact ⟨kept.user, kept.own, kept.seat, kept.lawful⟩
  | false => exact kept

theorem handleSort_keeps {needsHeaders : Bool} (reads : OnSelected T c.session "r") :
    Keeps T user own (handleSort ctx key needsHeaders) c := by
  simp only [handleSort, Keeps, wp_bind]
  refine wp_requireSelected (fun known view found => ?_) k
  exact wp_mono (queryMessages_keeps k (reads view found)) (fun _ _ done => done.1)
    fun _ kept => kept

theorem handleThread_keeps
    (reads : OnSelected T c.session "r") : Keeps T user own (handleThread ctx key) c := by
  simp only [handleThread, Keeps, wp_bind]
  refine wp_requireSelected (fun known view found => ?_) k
  exact wp_mono (queryMessages_keeps k (reads view found)) (fun _ _ done => done.1)
    fun _ kept => kept

variable {flags : FlagSet}

theorem writeFlags_keeps {uid : Nat}
    (writes : T.lawful { store := c.session.store, folder := some folder, rights := some "w" }) :
    wp (writeFlags folder uid flags)
      (fun _ t => Kept T user own t ∧ t.session.store = c.session.store) (Kept T user own) c := by
  simp only [writeFlags, wp_bind, wp_current, wp_attempt]
  have k' := fun realm => k.access realm writes
  exact wp_demand (fun _ _ => ⟨(k' _).mapView _, rfl⟩) (k' _)

variable {items : List FetchItem}

theorem fetchOne_keeps {number : Nat}
    (reads : T.lawful { store := c.session.store, folder := some folder, rights := some "r" })
    (marks : marksSeen items = true →
      T.lawful { store := c.session.store, folder := some folder, rights := some "w" }) :
    wp (fetchOne ctx folder items number)
      (fun _ t => Kept T user own t ∧ t.session.store = c.session.store) (Kept T user own) c := by
  simp only [fetchOne, wp_bind, wp_current]
  split
  · exact ⟨k, rfl⟩
  rename_i message _
  have content : wp (fetchContent ctx folder items message)
      (fun _ t => Kept T user own t ∧ t.session = c.session) (Kept T user own) c := by
    unfold fetchContent
    rw [wp_ite]
    refine ⟨fun _ => ?_, fun _ => ⟨k, rfl⟩⟩
    simp only [readSelected, wp_bind]
    refine wp_stopIf (fun _ => ?_) k
    simp only [wp_current, wp_attempt]
    exact wp_demand (fun _ _ => ⟨k.access _ reads, rfl⟩) (k.access _ reads)
  simp only [wp_bind]
  refine wp_mono content (fun _ t next => ?_) fun _ kept => kept
  obtain ⟨kept, same⟩ := next
  rw [wp_ite, ← same]
  refine ⟨fun marked => ?_, fun _ => ⟨kept, rfl⟩⟩
  refine writeFlags_keeps kept ?_
  rw [same]
  exact marks (by simp_all)

theorem fetchEach_keeps {numbers : List Nat}
    (reads : T.lawful { store := c.session.store, folder := some folder, rights := some "r" })
    (marks : marksSeen items = true →
      T.lawful { store := c.session.store, folder := some folder, rights := some "w" }) :
    Keeps T user own (fetchEach ctx folder items numbers) c := by
  induction numbers generalizing c with
  | nil => exact k
  | cons number rest ih =>
    simp only [fetchEach, Keeps, wp_bind]
    refine wp_mono (fetchOne_keeps k reads marks) (fun _ t next => ?_) fun _ kept => kept
    obtain ⟨kept, same⟩ := next
    exact ih kept (same ▸ reads) (same ▸ marks)

variable {uidMode : Bool} {set : String}

theorem handleFetch_keeps {changedSince : Option Nat} (reads : OnSelected T c.session "r")
    (marks : marksSeen items = true → OnSelected T c.session "w") :
    Keeps T user own (handleFetch ctx uidMode set items changedSince) c := by
  simp only [handleFetch, Keeps, wp_bind]
  refine wp_requireSelected (fun known view found => ?_) k
  simp only [wp_current]
  refine wp_stopIf (fun _ => wp_demand (fun _ _ => wp_stopIf (fun _ => ?_) k) k) k
  exact fetchEach_keeps k (reads view found) fun marked => marks marked view found

omit [DecidableEq S] in
/-- The check and the choice of the targets leave everything as it is. -/
theorem beginStore_keeps
    (writes : OnChecked T c.session c.realm "w") :
    wp (beginStore uidMode set mode flags unchangedSince)
      (fun result t => t = c ∧
        T.lawful { store := c.session.store, folder := some result.1.folder, rights := some "w" })
      (Kept T user own) c := by
  simp only [beginStore, wp_bind]
  refine wp_requireSelected (fun known view found => wp_stopIf (fun _ => ?_) k) k
  refine wp_requireSelectedRights (fun allowed => ?_) k
  simp only [wp_current]
  exact wp_demand (fun _ _ => wp_stopIf (fun _ => ⟨rfl, writes view found allowed⟩) k) k

theorem storeTarget_keeps {number uid : Nat} (writes : T.lawful
      { store := c.session.store, folder := some job.folder, rights := some "w" }) :
    wp (storeTarget job number uid)
      (fun _ t => Kept T user own t ∧ t.session.store = c.session.store) (Kept T user own) c := by
  simp only [storeTarget, wp_bind, wp_current]
  split
  · exact ⟨k, rfl⟩
  · rw [wp_ite]
    refine ⟨fun _ => ⟨k, rfl⟩, fun _ => ?_⟩
    simp only [wp_bind]
    exact writeFlags_keeps k writes

theorem storeEach_keeps {targets : List (Nat × Nat)} {modified : List Nat}
    (writes : T.lawful
      { store := c.session.store, folder := some job.folder, rights := some "w" }) :
    Keeps T user own (storeEach job targets modified) c := by
  induction targets generalizing c modified with
  | nil => exact k
  | cons target rest ih =>
    simp only [storeEach, Keeps, wp_bind]
    refine wp_mono (storeTarget_keeps k writes) (fun _ t next => ?_) fun _ kept => kept
    obtain ⟨kept, same⟩ := next
    exact ih kept (same ▸ writes)

theorem handleStore_keeps
    (writes : OnChecked T c.session c.realm "w") :
    Keeps T user own (handleStore uidMode set mode flags unchangedSince) c := by
  simp only [handleStore, Keeps, wp_bind]
  refine wp_mono (beginStore_keeps k writes) (fun result t next => ?_) fun _ kept => kept
  obtain ⟨same, lawful⟩ := next
  subst same
  exact storeEach_keeps k lawful

theorem destination_keeps {mailbox name : String} {Q : ResolvedMailbox S → Conn S → Prop}
    (known : c.session.user ≠ none) (may : OnNamed ctx T c.session c.realm mailbox "i")
    (ok : ∀ m : ResolvedMailbox S, m.store = c.session.store →
      T.lawful { store := c.session.store, folder := some m.folder, rights := some "i" } → Q m c) :
    wp (destination ctx ch mailbox name) Q (Kept T user own) c := by
  simp only [destination, wp_bind]
  refine wp_resolved (fun m found allowed => ?_) k
  simp only [wp_current]
  refine wp_stopIf (fun current => ?_) k
  have same : m.store = c.session.store := by
    simp only [isCurrentStore, Bool.not_eq_false', Bool.or_eq_true, Option.isNone_iff_eq_none,
      Bool.and_eq_true, decide_eq_true_eq] at current
    rcases current with unowned | ⟨same, -⟩
    · exact resolveMailbox_unowned found unowned
    · exact same
  exact ok m same (same ▸ may known m found allowed)

theorem requireExisting_keeps
    (lawful : T.lawful { store := c.session.store, folder := some m.folder, rights := some "i" }) :
    wp (requireExisting m)
      (fun _ t => Kept T user own t ∧ t.session = c.session) (Kept T user own) c := by
  simp only [requireExisting, wp_bind, wp_current, wp_attempt]
  have k' := fun realm => k.access realm lawful
  exact wp_demand (fun _ _ => wp_stopIf (fun _ => ⟨k' _, rfl⟩) (k' _)) (k' _)

theorem copySelected_keeps {folder target : String}
    (reads : T.lawful { store := c.session.store, folder := some folder, rights := some "r" })
    (lawful : T.lawful { store := c.session.store, folder := some target, rights := some "i" }) :
    wp (copySelected ch folder uids target)
      (fun _ t => Kept T user own t ∧ t.session = c.session) (Kept T user own) c := by
  simp only [copySelected, wp_bind, wp_current, wp_attempt]
  have k' := fun realm => (k.access c.realm reads).access realm lawful
  exact wp_demand (fun _ _ => ⟨k' _, rfl⟩) (k' _)

theorem handleCopy_keeps {set mailbox : String}
    (may : OnNamed ctx T c.session c.realm mailbox "i") (reads : OnSelected T c.session "r") :
    Keeps T user own (handleCopy ctx ch uidMode set mailbox) c := by
  simp only [handleCopy, Keeps, wp_bind]
  refine wp_requireSelected (fun known view found => ?_) k
  simp only [wp_current]
  refine wp_demand (fun _ _ => destination_keeps k known may fun m _ lawful => ?_) k
  refine wp_mono (requireExisting_keeps k lawful) (fun _ t next => ?_) fun _ kept => kept
  obtain ⟨kept, same⟩ := next
  rw [wp_ite]
  refine ⟨fun _ => kept, fun _ => ?_⟩
  simp only [wp_bind]
  rw [← same] at lawful reads found
  refine wp_mono (copySelected_keeps kept (reads view found) lawful)
    (fun _ t' next => ?_) fun _ kept => kept
  obtain ⟨kept', same'⟩ := next
  rw [← same'] at reads
  exact refreshIfSelected_keeps kept' fun view' shown _ => reads view' shown

theorem removeMoved_keeps {folder target : String} {uids copies : List Nat}
    (expunges : T.lawful { store := c.session.store, folder := some folder, rights := some "t" })
    (lawful : T.lawful { store := c.session.store, folder := some target, rights := some "i" }) :
    Keeps T user own (removeMoved folder uids copies target) c := by
  simp only [removeMoved, Keeps, wp_bind, wp_current, wp_attempt]
  split
  · exact k.access _ expunges
  · simp only [wp_bind, wp_attempt, wp_throw]
    exact (k.access c.realm expunges).access _ lawful

/-- MOVE reads the selected folder and removes from it, without a check of either right. -/
theorem handleMove_keeps {set mailbox : String}
    (may : OnNamed ctx T c.session c.realm mailbox "i") (reads : OnSelected T c.session "r")
    (expunges : OnSelected T c.session "t") :
    Keeps T user own (handleMove ctx ch uidMode set mailbox) c := by
  simp only [handleMove, Keeps, wp_bind]
  refine wp_requireSelected (fun known view found => wp_stopIf (fun _ => ?_) k) k
  simp only [wp_current]
  refine wp_demand (fun _ _ => destination_keeps k known may fun m _ lawful => ?_) k
  refine wp_stopIf (fun _ => ?_) k
  refine wp_mono (requireExisting_keeps k lawful) (fun _ t next => ?_) fun _ kept => kept
  obtain ⟨kept, same⟩ := next
  rw [wp_ite]
  refine ⟨fun _ => kept, fun _ => ?_⟩
  simp only [wp_bind]
  rw [← same] at lawful reads expunges found
  refine wp_mono (copySelected_keeps kept (reads view found) lawful)
    (fun _ t' next => ?_) fun _ kept => kept
  obtain ⟨kept', same'⟩ := next
  rw [← same'] at lawful expunges found
  refine wp_mono (removeMoved_keeps kept' (expunges view found) lawful)
    (fun _ _ kept => ?_) fun _ kept => kept
  exact kept.mapView _

/-! ### All commands -/

def Command.isAuthentication : Command → Bool
  | .login _ _ | .authenticate _ => true
  | _ => false

/-- What has to be lawful for a command to keep to the terms. -/
def Licensed (ctx : Context S) (T : Terms S) (s : Session S) (realm : Realm S) : Command → Prop
  | .noop | .search _ _ _ | .sort _ _ _ | .thread _ _ => OnSelected T s "r"
  | .fetch _ _ items _ => OnSelected T s "r" ∧ (marksSeen items = true → OnSelected T s "w")
  | .store _ _ _ _ _ => OnChecked T s realm "w"
  | .close | .expunge _ => OnChecked T s realm "t"
  | .select mailbox _ _ => MaySelect ctx T s realm mailbox
  | .create name | .delete name | .subscribe name _ => isShared name = false → OnStore T s
  | .rename source target => isShared source = false → isShared target = false → OnStore T s ∧
      (s.user ≠ none →
        ∀ folder, T.lawful { store := s.store, folder := some folder, rights := some "r" })
  | .list lsub reference pattern => OnListing ctx T s realm ∧
      ((lsub || !isShared (resolvePattern reference pattern)) = true → OnStore T s)
  | .getQuota _ | .getQuotaRoot _ | .setQuota _ _ => OnStore T s
  | .getMetadata mailbox | .setMetadata mailbox =>
    (∀ name, mailbox = some name → isShared name = false) → OnStore T s
  | .status mailbox | .getAcl mailbox | .listRights mailbox _ | .myRights mailbox =>
    OnNamed ctx T s realm mailbox "l"
  | .setAcl mailbox _ _ | .deleteAcl mailbox _ => OnNamed ctx T s realm mailbox "a"
  | .append mailbox _ | .copy _ _ mailbox =>
    OnNamed ctx T s realm mailbox "i" ∧ OnSelected T s "r"
  | .move _ _ mailbox =>
    OnNamed ctx T s realm mailbox "i" ∧ OnSelected T s "r" ∧ OnSelected T s "t"
  | _ => True

omit [DecidableEq S] in
theorem handleEnable_keeps {names : List String} :
    Keeps T user own (handleEnable names) c := by
  have each : ∀ {c : Conn S}, Kept T user own c → Keeps T user own (enableEach names) c := by
    induction names with
    | nil => exact fun k => k
    | cons name rest ih =>
      intro c k
      simp only [enableEach, Keeps, wp_bind]
      refine wp_stopIf (fun _ => ?_) k
      exact ih ⟨k.user, k.own, k.seat, k.lawful⟩
  simp only [handleEnable, Keeps, wp_bind]
  exact wp_requireAuthenticated (fun _ _ _ => wp_stopIf (fun _ => each k) k) k

omit [DecidableEq S] in
theorem handleCompress_keeps {method : String} :
    Keeps T user own (handleCompress method) c := by
  simp only [handleCompress, Keeps, wp_bind]
  refine wp_requireAuthenticated (fun _ _ _ => wp_stopIf (fun _ => ?_) k) k
  simp only [wp_current]
  exact wp_stopIf (fun _ => ⟨k.user, k.own, k.seat, k.lawful⟩) k

omit [DecidableEq S] in
theorem handleStartTls_keeps : Keeps T user own handleStartTls c := by
  simp only [handleStartTls, Keeps, wp_bind, wp_current]
  refine wp_stopIf (fun _ => wp_stopIf (fun _ => wp_stopIf (fun _ => ?_) k) k) k
  exact ⟨k.user, k.own, k.seat, k.lawful⟩

/-- A licensed command keeps to the terms, unless it is one that authenticates. -/
theorem dispatch_keeps {command : Command} (home : T.seat own none)
    (plain : command.isAuthentication = false)
    (licensed : Licensed ctx T c.session c.realm command) :
    Keeps T user own (dispatch ctx ch command) c := by
  cases command with
  | capability | id | malformed => exact k
  | login | authenticate => cases plain
  | logout => exact ⟨k.user, k.own, k.seat, k.lawful⟩
  | compress => exact handleCompress_keeps k
  | enable => exact handleEnable_keeps k
  | startTls => exact handleStartTls_keeps k
  | unselect =>
    simp only [dispatch, handleUnselect, Keeps, wp_bind]
    exact wp_requireSelected (fun _ _ _ => k.deselect home) k
  | check =>
    simp only [dispatch, Keeps, wp_bind]
    exact wp_requireSelected (fun _ _ _ => k) k
  | idle =>
    simp only [dispatch, Keeps, wp_bind]
    exact wp_requireSelected (fun _ _ _ => ⟨k.user, k.own, k.seat, k.lawful⟩) k
  | namespaces =>
    simp only [dispatch, Keeps, wp_bind]
    exact wp_requireAuthenticated (fun _ _ _ => k) k
  | noop =>
    simp only [dispatch, handleNoop, Keeps, wp_bind]
    exact refreshSelected_keeps k licensed
  | select => exact handleSelect_keeps k home licensed
  | create => exact handleCreate_keeps k licensed
  | delete => exact handleDelete_keeps k licensed
  | rename =>
    exact handleRename_keeps k (fun plain unshared => (licensed plain unshared).1)
      fun known plain unshared => (licensed plain unshared).2 known
  | subscribe => exact handleSubscribe_keeps k licensed
  | list => exact handleList_keeps k licensed.1 licensed.2
  | status => exact handleStatus_keeps k licensed
  | getQuota => exact handleGetQuota_keeps k licensed
  | getQuotaRoot => exact handleGetQuotaRoot_keeps k licensed
  | setQuota => exact handleSetQuota_keeps k licensed
  | append => exact handleAppend_keeps k licensed.1 licensed.2
  | close => exact handleClose_keeps k home licensed
  | expunge => exact handleExpungeText_keeps k licensed
  | search => exact handleSearch_keeps k licensed
  | sort => exact handleSort_keeps k licensed
  | thread => exact handleThread_keeps k licensed
  | fetch => exact handleFetch_keeps k licensed.1 licensed.2
  | store => exact handleStore_keeps k licensed
  | copy => exact handleCopy_keeps k licensed.1 licensed.2
  | move => exact handleMove_keeps k licensed.1 licensed.2.1 licensed.2.2
  | getMetadata => exact handleMetadata_keeps k licensed
  | setMetadata => exact handleMetadata_keeps k licensed
  | getAcl => exact handleGetAcl_keeps k licensed
  | setAcl => exact handleSetAcl_keeps k licensed
  | deleteAcl => exact handleDeleteAcl_keeps k licensed
  | listRights => exact handleListRights_keeps k licensed
  | myRights => exact handleMyRights_keeps k licensed

theorem pollIdle_keeps (reads : OnSelected T c.session "r") :
    Keeps T user own (pollIdle ch) c := by
  have run : Keeps T user own (refreshSelected ch) c := refreshSelected_keeps k reads
  unfold Keeps wp at *
  unfold pollIdle
  generalize refreshSelected ch c = result at *
  cases result with
  | ok a t => exact run
  | error completion t => exact ⟨run.user, run.own, run.seat, run.lawful⟩

end MailStack.Imap
