import MailStack.Maildir.Store

/-! Who may do what with a mailbox: the rights of an ACL, the stores of other users and the check
that a command on a shared mailbox goes through. -/

namespace MailStack.Imap

open Lib Maildir

def allRights : String := "lrswipkxtead"

/-- The letters of the rights, in the order and number of `allRights`. -/
def normalizeRights (rights : String) : Except MailError String :=
  match (bytes rights).find? fun b => !(bytes allRights).contains b with
  | some b => .error (.invalid ("invalid ACL right: " ++ String.singleton (Char.ofNat b.toNat)))
  | none => .ok (String.ofList (allRights.toList.filter (contains rights)))

def validIdentifier (identifier : String) : Bool :=
  !identifier.isEmpty && (bytes identifier).length ≤ 255 && identifier.toList.all isAsciiGraphic

def readAcl (m : MailStore) (folder : String) : Except MailError (List (String × String)) :=
  (m.openDir folder).map fun (_, f) => f.acl

def writeAcl (m : MailStore) (folder : String) (acl : List (String × String)) : Outcome Unit :=
  match m.openDir folder with
  | .error error => (m, .error error)
  | .ok (normalized, _) =>
    let write (f : Folder) : Folder := { f with acl }
    ({ m with folders := Assoc.modify normalized write m.folders }, .ok ())

def aclEntry (acl : List (String × String)) (me : String) : Option String :=
  acl.lookup me <|> acl.lookup "authenticated" <|> acl.lookup "anyone"

/-- The letters are among those that the ACL gives the user. -/
def grants (acl : List (String × String)) (me required : String) : Bool :=
  match aclEntry acl me with
  | some rights => required.toList.all (contains (toAsciiLowercase rights))
  | none => false

variable {S : Type}

/-- `resolve` is the store of a user, in whatever case the name is written; `users` are those that a
listing shows. -/
structure Resolver (S : Type) where
  resolve : String → Option S
  users : List String
  ignoresCase : ∀ u v, toAsciiLowercase u = toAsciiLowercase v → resolve u = resolve v

abbrev Realm (S : Type) := S → MailStore

/-- `owner` is the user whose shared mailbox was named, in lower case. -/
structure ResolvedMailbox (S : Type) where
  store : S
  folder : String
  owner : Option String

def sharedRoot : String := "shared/"

def isShared (name : String) : Bool := (stripPrefix sharedRoot name).isSome

/-- A name without the shared root is one of the session's current store. -/
def resolveMailbox (resolver : Option (Resolver S)) (current : S) (name : String) :
    Except MailError (ResolvedMailbox S) :=
  match stripPrefix sharedRoot name with
  | none => .ok { store := current, folder := name, owner := none }
  | some rest =>
    match resolver with
    | none => .error (.invalid "shared mailboxes are not configured")
    | some resolver =>
      let (user, folder) := (splitOnce '/' rest).getD (rest, "")
      if user.isEmpty || folder.isEmpty then .error (.notFound name)
      else
        match resolver.resolve user with
        | none => .error (.notFound name)
        | some store => .ok { store, folder, owner := some (toAsciiLowercase user) }

@[irreducible]
def checkSharedRights (m : MailStore) (folder : String) (owner user : Option String)
    (required : String) : Except MailError Unit :=
  match owner with
  | none => .ok ()
  | some owner =>
    let me := toAsciiLowercase (user.getD "")
    if me.isEmpty then .error (.invalid "authentication required")
    else if me = owner then .ok ()
    else
      match readAcl m folder with
      | .error error => .error error
      | .ok acl =>
        if grants acl me required then .ok ()
        else .error (.invalid "permission denied for shared mailbox")

def denyShared (name : String) : Except MailError Unit :=
  if isShared name then
    .error (.invalid "this operation is not supported on shared mailboxes")
  else .ok ()

variable {name : String}

theorem denyShared_ok (h : denyShared name = .ok ()) : isShared name = false := by
  cases shared : isShared name with
  | false => rfl
  | true => simp [denyShared, shared] at h

theorem checkSharedRights_ok {m : MailStore} {folder owner : String} {user : Option String}
    {required : String}
    (h : checkSharedRights m folder (some owner) user required = .ok ()) :
    toAsciiLowercase (user.getD "") = owner ∨
      ∃ acl, readAcl m folder = .ok acl ∧
        grants acl (toAsciiLowercase (user.getD "")) required = true := by
  simp only [checkSharedRights] at h
  split at h
  · cases h
  split at h
  · rename_i same
    exact .inl same
  split at h
  · cases h
  rename_i acl read
  split at h
  · rename_i granted
    exact .inr ⟨acl, read, granted⟩
  · cases h

variable {resolver : Option (Resolver S)} {current : S}

/-- A mailbox under the shared root is in the store of its owner. -/
theorem resolveMailbox_shared {resolved : ResolvedMailbox S} (shared : isShared name = true)
    (h : resolveMailbox resolver current name = .ok resolved) :
    ∃ r user, resolver = some r ∧ resolved.owner = some (toAsciiLowercase user) ∧
      r.resolve user = some resolved.store := by
  unfold isShared at shared
  unfold resolveMailbox at h
  split at h
  · rename_i none_
    rw [none_] at shared
    cases shared
  split at h
  · cases h
  rename_i r
  simp only at h
  split at h
  · cases h
  split at h
  · cases h
  rename_i store found
  cases h
  exact ⟨r, _, rfl, rfl, found⟩

theorem resolveMailbox_own (own : isShared name = false) :
    resolveMailbox resolver current name =
      .ok { store := current, folder := name, owner := none } := by
  unfold isShared at own
  unfold resolveMailbox
  split
  · rfl
  · rename_i rest found
    rw [found] at own
    cases own

theorem resolveMailbox_unowned
    {m : ResolvedMailbox S} (h : resolveMailbox resolver current name = .ok m)
    (unowned : m.owner = none) : m.store = current := by
  cases shared : isShared name with
  | false =>
    rw [resolveMailbox_own shared] at h
    cases h
    rfl
  | true =>
    obtain ⟨_, _, -, owner, -⟩ := resolveMailbox_shared shared h
    rw [owner] at unowned
    cases unowned

end MailStack.Imap
