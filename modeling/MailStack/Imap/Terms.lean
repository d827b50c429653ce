import MailStack.Imap.Dispatch

/-! The rules of the parts that handlers are made of, and the terms that a command is held to: which
accesses are lawful and in which store a session may sit. -/

namespace MailStack.Imap

open Lib Maildir Handler

variable {S : Type} {α : Type} {Q : α → Conn S → Prop} {E : Conn S → Prop} {c : Conn S}
  {message : String}

@[simp] theorem wp_current {Q : Session S → Conn S → Prop} :
    wp current Q E c ↔ Q c.session c := Iff.rfl

@[simp] theorem wp_change {Q : Unit → Conn S → Prop} (f : Session S → Session S) :
    wp (change f) Q E c ↔ Q () { c with session := f c.session } := Iff.rfl

@[simp] theorem wp_inspect (store : S) (f : MailStore → α) :
    wp (inspect store f) Q E c ↔ Q (f (c.realm store)) c := Iff.rfl

theorem wp_demand {result : Except MailError α} (ok : ∀ a, result = .ok a → Q a c)
    (stopped : E c) : wp (demand result) Q E c := by
  cases result with
  | ok a => exact ok a rfl
  | error error => exact stopped

theorem wp_stopIf {Q : Unit → Conn S → Prop} {condition : Bool} {completion : Completion}
    (ok : condition = false → Q () c) (stopped : E c) :
    wp (stopIf condition completion) Q E c := by
  cases condition with
  | true => exact stopped
  | false => exact ok rfl

theorem wp_requireAuthenticated {Q : String → Conn S → Prop}
    (ok : c.session.user ≠ none → ∀ user, c.session.user = some user → Q user c) (stopped : E c) :
    wp requireAuthenticated Q E c := by
  simp only [requireAuthenticated, wp_bind, wp_current]
  split
  · rename_i user found
    exact ok (by simp [found]) user found
  · exact stopped

variable {view : View}

theorem user_ne_none_of_view {s : Session S} (h : s.view = some view) :
    s.user ≠ none := by
  unfold Session.view at h
  unfold Session.user
  split at h
  · simp_all
  · cases h

theorem wp_requireSelected {Q : View → Conn S → Prop}
    (ok : c.session.user ≠ none → ∀ view, c.session.view = some view → Q view c) (stopped : E c) :
    wp (requireSelected message) Q E c := by
  simp only [requireSelected, wp_bind, wp_current]
  split
  · rename_i view found
    exact ok (user_ne_none_of_view found) view found
  · exact stopped

theorem wp_requireSelected_self {Q : View → Conn S → Prop}
    (selected : c.session.view = some view) (ok : Q view c) :
    wp (requireSelected message) Q E c := by
  simp only [requireSelected, wp_bind, wp_current, selected, wp_pure]
  exact ok

theorem wp_resolved {ctx : Context S} {name rights : String}
    {Q : ResolvedMailbox S → Conn S → Prop}
    (ok : ∀ m, resolveMailbox ctx.resolver c.session.store name = .ok m →
      checkSharedRights (c.realm m.store) m.folder m.owner c.session.user rights = .ok () →
      Q m c)
    (stopped : E c) : wp (resolved ctx name rights) Q E c := by
  simp only [resolved, wp_bind, wp_current]
  refine wp_demand (fun m found => ?_) stopped
  simp only [wp_inspect]
  exact wp_demand (fun _ allowed => ok m found allowed) stopped

theorem wp_requireSelectedRights {Q : Unit → Conn S → Prop} {rights : String}
    (ok : checkSharedRights (c.realm c.session.store) view.folder c.session.selectedOwner
      c.session.user rights = .ok () → Q () c)
    (stopped : E c) : wp (requireSelectedRights view rights) Q E c := by
  simp only [requireSelectedRights, wp_bind, wp_current, wp_inspect]
  exact wp_demand (fun _ allowed => ok allowed) stopped

theorem wp_orDeselect {h : Handler S α}
    (run : wp h Q (fun t => E { t with session := t.session.deselectToPersonal }) c) :
    wp (orDeselect h) Q E c := by
  unfold wp orDeselect at *
  generalize h c = result at *
  cases result <;> exact run

@[simp] theorem wp_attempt [DecidableEq S] {store : S} {folder rights : Option String}
    {op : MailStore → Outcome α} {Q : Except MailError α → Conn S → Prop} :
    wp (attempt store folder rights op) Q E c ↔
      Q (op (c.realm store)).2
        { c with
          realm := Function.update c.realm store (op (c.realm store)).1
          accesses := c.accesses ++ [{ store, folder, rights }] } := Iff.rfl

namespace Session

@[simp] theorem user_mapView (f : View → View) (s : Session S) : (s.mapView f).user = s.user := by
  unfold mapView user
  cases s.state <;> rfl

@[simp] theorem ownStore_mapView (f : View → View) (s : Session S) :
    (s.mapView f).ownStore = s.ownStore := rfl

@[simp] theorem store_mapView (f : View → View) (s : Session S) :
    (s.mapView f).store = s.store := rfl

@[simp] theorem selectedOwner_mapView (f : View → View) (s : Session S) :
    (s.mapView f).selectedOwner = s.selectedOwner := rfl

@[simp] theorem view_mapView (f : View → View) (s : Session S) :
    (s.mapView f).view = s.view.map f := by
  unfold mapView view
  cases s.state <;> rfl

@[simp] theorem user_deselectToPersonal (s : Session S) :
    s.deselectToPersonal.user = s.user := by
  unfold deselectToPersonal user
  cases s.state <;> rfl

end Session

/-- The terms that a command is held to. -/
structure Terms (S : Type) where
  lawful : Access S → Prop
  seat : S → Option String → Prop

/-- The session is of the same user as before, with the same store of its own, and everything so
far was within the terms. -/
structure Kept (T : Terms S) (user : Option String) (own : S) (c : Conn S) : Prop where
  user : c.session.user = user
  own : c.session.ownStore = own
  seat : T.seat c.session.store c.session.selectedOwner
  lawful : ∀ a ∈ c.accesses, T.lawful a

section Keeping

variable {T : Terms S} {user : Option String} {own : S}

theorem Kept.mapView (k : Kept T user own c) (f : View → View) :
    Kept T user own { c with session := c.session.mapView f } :=
  ⟨by simpa using k.user, by simpa using k.own, by simpa using k.seat, k.lawful⟩

theorem Kept.deselect (k : Kept T user own c) (home : T.seat own none) :
    Kept T user own { c with session := c.session.deselectToPersonal } :=
  ⟨by simpa using k.user, k.own, by simpa [Session.deselectToPersonal, k.own] using home, k.lawful⟩

theorem Kept.access (k : Kept T user own c) (realm : Realm S) {a : Access S} (ok : T.lawful a) :
    Kept T user own { c with realm, accesses := c.accesses ++ [a] } := by
  refine ⟨k.user, k.own, k.seat, fun b mem => ?_⟩
  rcases List.mem_append.mp mem with old | new
  · exact k.lawful b old
  · rw [List.mem_singleton.mp new]
    exact ok

end Keeping

/-- The selected folder may be accessed in a way that takes the rights. -/
def OnSelected (T : Terms S) (s : Session S) (rights : String) : Prop :=
  ∀ view, s.view = some view →
    T.lawful { store := s.store, folder := some view.folder, rights := some rights }

/-- The selected folder may be accessed so, if the check of the rights passes. -/
def OnChecked (T : Terms S) (s : Session S) (realm : Realm S) (rights : String) : Prop :=
  ∀ view, s.view = some view →
    checkSharedRights (realm s.store) view.folder s.selectedOwner s.user rights = .ok () →
    T.lawful { store := s.store, folder := some view.folder, rights := some rights }

/-- A user may access the named mailbox so, if the check of the rights passes. -/
def OnNamed (ctx : Context S) (T : Terms S) (s : Session S) (realm : Realm S)
    (name rights : String) : Prop :=
  s.user ≠ none → ∀ m, resolveMailbox ctx.resolver s.store name = .ok m →
    checkSharedRights (realm m.store) m.folder m.owner s.user rights = .ok () →
    T.lawful { store := m.store, folder := some m.folder, rights := some rights }

/-- A user may do in the current store whatever only its owner may do. -/
def OnStore (T : Terms S) (s : Session S) : Prop :=
  s.user ≠ none → ∀ folder, T.lawful { store := s.store, folder, rights := none }

/-- A user may be shown a folder of another one, if the check of the rights passes. -/
def OnListing (ctx : Context S) (T : Terms S) (s : Session S) (realm : Realm S) : Prop :=
  s.user ≠ none → ∀ resolver user store folder, ctx.resolver = some resolver →
    resolver.resolve user = some store →
    checkSharedRights (realm store) folder (some (toAsciiLowercase user))
      (some (toAsciiLowercase (s.user.getD ""))) "l" = .ok () →
    T.lawful { store, folder := some folder, rights := some "l" }

end MailStack.Imap
