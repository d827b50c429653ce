import MailStack.Priv.Users

/-! What a request for a mailbox leaves when one of its steps fails. -/

namespace MailStack.Priv

open Lib Core
open MailboxPasswords (key)

inductive AddStep
  | account
  | chpasswd
  | record
  | managedUsers
  | mailboxes

variable (users : Users) (o : Outcomes) {Q : Unit → Host → Prop} {part : Handler Unit}
  {E : Host → Prop}

def createFor (host : Host) (new : NewMailbox) : Handler Unit :=
  createAccount users o new.user (accountGroup host) (nologinShell users)

/-- The step is the first one of the request that fails. -/
def FailsAt (host : Host) (new : NewMailbox) : AddStep → Prop
  | .account => ∃ e t, createFor users o host new host = .error e t
  | .chpasswd => ∃ t, createFor users o host new host = .ok () t ∧
      ∃ e t', setPassword users o new.user new.password t = .error e t'
  | .record => ∃ t, createFor users o host new host = .ok () t ∧
      setPassword users o new.user new.password t = .ok () t ∧
      ∃ e t', saveMailboxPassword users o new.email new.password t = .error e t'
  | .managedUsers => ∃ t t', createFor users o host new host = .ok () t ∧
      setPassword users o new.user new.password t = .ok () t ∧
      saveMailboxPassword users o new.email new.password t = .ok () t' ∧
      (o.access .managedUsers ≠ {} ∨ ∀ names, tryReadManagedUsers users host ≠ .ok names)
  | .mailboxes => ∃ t t', createFor users o host new host = .ok () t ∧
      setPassword users o new.user new.password t = .ok () t ∧
      saveMailboxPassword users o new.email new.password t = .ok () t' ∧
      o.access .managedUsers = {} ∧ (∃ names, tryReadManagedUsers users host = .ok names) ∧
      (o.access .mailboxes).write ≠ none

/-- Nothing fails that takes back what was done for a user. -/
structure RollbackSucceeds (user : String) : Prop where
  account : ∀ host, taken host.passwd user = true → ∃ t, removeAccount users o user host = .ok () t
  droppedAddress : o.access .droppedAddress = {}
  droppedUser : o.access .droppedUser = {}

/-- The managed users, the mailboxes, the password records and the accounts are the same. -/
structure SameStores (host host' : Host) : Prop where
  managed : readManagedUsers users host' = readManagedUsers users host
  mailboxes : readMailboxes users host' = readMailboxes users host
  records : ∀ name, storedRecord users host' name = storedRecord users host name
  accounts : host'.passwd = host.passwd

variable {users o} {host : Host} {new : NewMailbox} {data : Json}

/-- The records of both names and the account are gone, and nothing else changes. -/
theorem rollback_spec (undo : RollbackSucceeds users o new.user)
    (made : taken host.passwd new.user = true) :
    wp (rollbackCreatedAccount users o new.user (some new.email))
      (fun _ t => (∃ file, t = (host.setPasswords file).setPasswd
          (host.passwd.filter (·.head? ≠ some new.user))) ∧
        ∀ n, storedRecord users t n =
          if n = key new.email ∨ n = key new.user then none else storedRecord users host n)
      (fun _ => False) host := by
  simp only [rollbackCreatedAccount, dropMailboxPassword, wp_bind]
  refine wp_mono (dropRecord_spec _) ?_ fun _ => id
  rintro _ t ⟨address, removed⟩
  refine wp_mono (dropRecord_spec _) ?_ fun _ => id
  rintro _ t' ⟨user, removed'⟩
  obtain ⟨file, rfl⟩ := address.rest
  obtain ⟨file', rfl⟩ := user.rest
  simp only [Host.setPasswords_setPasswords] at user removed' ⊢
  obtain ⟨t, ran⟩ := undo.account (host.setPasswords file') made
  have left : wp (removeAccount users o new.user) _ _ (host.setPasswords file') :=
    removeAccount_spec
  rw [wp_of_ok ran] at left
  have last : caught (removeAccount users o new.user) (host.setPasswords file') =
      .ok (.ok ()) t := by
    simp only [caught, ran]
  rw [wp_of_ok last, left, wp_pure]
  refine ⟨⟨file', rfl⟩, fun n => ?_⟩
  show storedRecord users (host.setPasswords file') n = _
  by_cases isUser : n = key new.user
  · rw [if_pos (.inr isUser), isUser]
    exact removed' undo.droppedUser
  · rw [user.others n isUser]
    by_cases isAddress : n = key new.email
    · rw [if_pos (.inl isAddress), isAddress]
      exact removed undo.droppedAddress
    · rw [if_neg (not_or.mpr ⟨isAddress, isUser⟩), address.others n isAddress]

/-- A state in which the account of the request is made, and maybe its record. -/
structure Begun (users : Users) (o : Outcomes) (host : Host) (new : NewMailbox) (t : Host) :
    Prop where
  free : taken host.passwd new.user = false
  passwd : t.passwd = host.passwd ++ [newLine o new.user (nologinShell users)]
  mailboxes : t.mailboxes = host.mailboxes
  others : ∀ n, n ≠ key new.email → storedRecord users t n = storedRecord users host n

theorem begun_of_created {t : Host} (made : createFor users o host new host = .ok () t) :
    Begun users o host new t ∧ t.managedUsers = host.managedUsers := by
  have spec : wp (createAccount users o new.user (accountGroup host) (nologinShell users)) _ _
      host :=
    createAccount_spec
  rw [← createFor, wp_of_ok made] at spec
  obtain ⟨free, rfl⟩ := spec
  exact ⟨⟨free, rfl, rfl, fun _ _ => rfl⟩, rfl⟩

/-- What the rollback leaves of such a state. -/
theorem rollback_undoes (undo : RollbackSucceeds users o new.user) {t : Host}
    (begun : Begun users o host new t) :
    wp (rollbackCreatedAccount users o new.user (some new.email))
      (fun _ t' => SameStores users host t' ↔
        (storedRecord users host (key new.email) = none ∧
          storedRecord users host (key new.user) = none ∧
          readManagedUsers users t = readManagedUsers users host)) (fun _ => False) t := by
  have made : taken t.passwd new.user = true := by
    simp [taken, begun.passwd, newLine]
  refine wp_mono (rollback_spec undo made) ?_ fun _ => id
  rintro _ t' ⟨⟨file, left⟩, stored⟩
  have managed : readManagedUsers users t' = readManagedUsers users t := by rw [left]; rfl
  constructor
  · intro same
    refine ⟨?_, ?_, managed ▸ same.managed⟩
    · rw [← same.records, stored, if_pos (.inl rfl)]
    · rw [← same.records, stored, if_pos (.inr rfl)]
  · rintro ⟨noAddress, noUser, sameManaged⟩
    refine ⟨managed.trans sameManaged, ?_, fun n => ?_, ?_⟩
    · have : t'.mailboxes = host.mailboxes := by rw [left]; exact begun.mailboxes
      simp only [readMailboxes, tryReadMailboxes, this]
    · rw [stored]
      split
      · rename_i either
        rcases either with rfl | rfl
        · exact noAddress.symm
        · exact noUser.symm
      · rename_i neither
        exact begun.others n fun isAddress => neither (.inl isAddress)
    · rw [left, Host.setPasswd_passwd, begun.passwd]
      exact filter_newLine begun.free

variable {t t' : Host}

theorem wp_orRollback_error {e : String}
    (failed : part t = .error e t') :
    wp (orRollback users o new part) Q E t ↔
      wp (rollbackCreatedAccount users o new.user (some new.email)) (fun _ => E) E t' := by
  have run : caught part t = .ok (.error e) t' := by simp only [caught, failed]
  simp only [orRollback, wp_bind, wp_of_ok run, wp_throw]

theorem wp_orRollback_ok
    (done : part t = .ok () t') :
    wp (orRollback users o new part) Q E t ↔ Q () t' := by
  have run : caught part t = .ok (.ok ()) t' := by simp only [caught, done]
  simp only [orRollback, wp_bind, wp_of_ok run, wp_pure]

theorem begun_of_saved (begun : Begun users o host new t) (asked : Asked users data new)
    (saved : saveMailboxPassword users o new.email new.password t = .ok () t') :
    Begun users o host new t' ∧ t'.managedUsers = t.managedUsers := by
  have spec : wp (saveMailboxPassword users o new.email new.password) _ _ t :=
    saveMailboxPassword_asked asked
  rw [wp_of_ok saved] at spec
  obtain ⟨record, file, -, rfl, stored⟩ := spec
  refine ⟨⟨begun.free, begun.passwd, begun.mailboxes, fun n other => ?_⟩, rfl⟩
  rw [stored, if_neg (asked.key_email ▸ other)]
  exact begun.others n other

theorem begun_of_recorded (asked : Asked users data new)
    (made : createFor users o host new host = .ok () t)
    (saved : saveMailboxPassword users o new.email new.password t = .ok () t') :
    Begun users o host new t' ∧ tryReadManagedUsers users t' = tryReadManagedUsers users host := by
  obtain ⟨begun, managed⟩ := begun_of_created made
  obtain ⟨recorded, managed'⟩ := begun_of_saved begun asked saved
  exact ⟨recorded, by simp only [tryReadManagedUsers, managed', managed]⟩

/-- A request that fails at a step leaves everything as it was exactly if it makes no account, or if
no record was there under its address and under its user name and it does not leave its user as a
managed one, which it does when the list of mailboxes cannot be written. -/
theorem add_undone_iff (users : Users) (o : Outcomes) (host : Host) (data : Json)
    (new : NewMailbox) (step : AddStep) (prepared : prepare users data host = .ok new)
    (fails : FailsAt users o host new step) (undo : RollbackSucceeds users o new.user) :
    ∃ e host', add users o data host = .error e host' ∧
      (SameStores users host host' ↔ step = .account ∨
        (storedRecord users host (key new.email) = none ∧
          storedRecord users host (key new.user) = none ∧
          (step = .mailboxes → new.user ∈ readManagedUsers users host))) := by
  apply exists_error_of_wp
  simp only [add, wp_bind, wp_get, wp_ofExcept]
  refine ⟨fun new' eq => ?_, fun e failed => by rw [prepared] at failed; cases failed⟩
  rw [prepared] at eq
  cases eq
  rw [← createFor]
  cases step with
  | account =>
    obtain ⟨e, t, failed⟩ := fails
    have spec : wp (createAccount users o new.user (accountGroup host) (nologinShell users)) _ _
        host := createAccount_spec
    rw [← createFor, wp_of_error failed] at spec
    rw [wp_of_error failed, spec]
    exact iff_of_true ⟨rfl, rfl, fun _ => rfl, rfl⟩ (.inl rfl)
  | chpasswd =>
    obtain ⟨t, made, e, t', failed⟩ := fails
    obtain ⟨begun, managed⟩ := begun_of_created made
    have same : wp (setPassword users o new.user new.password) _ _ t := setPassword_spec
    rw [wp_of_error failed] at same
    subst same
    rw [wp_of_ok made, wp_orRollback_error failed]
    refine wp_mono (rollback_undoes undo begun) (fun _ t undone => undone.trans ?_)
      fun _ => False.elim
    simp [readManagedUsers, tryReadManagedUsers, managed]
  | record =>
    obtain ⟨t, made, changed, e, t', failed⟩ := fails
    obtain ⟨begun, managed⟩ := begun_of_created made
    have same : wp (saveMailboxPassword users o new.email new.password) _ _ t :=
      saveMailboxPassword_spec
    rw [wp_of_error failed] at same
    subst same
    rw [wp_of_ok made, wp_orRollback_ok changed, wp_orRollback_error failed]
    refine wp_mono (rollback_undoes undo begun) (fun _ t undone => undone.trans ?_)
      fun _ => False.elim
    simp [readManagedUsers, tryReadManagedUsers, managed]
  | managedUsers =>
    obtain ⟨t, t', made, changed, saved, fails⟩ := fails
    obtain ⟨begun, readSame⟩ := begun_of_recorded (prepare_ok prepared).1 made saved
    have spec : wp (register users o new) _ _ t' := register_spec
    rw [wp_of_ok made, wp_orRollback_ok changed, wp_orRollback_ok saved]
    cases ran : register users o new t' with
    | ok u t'' =>
      rw [wp_of_ok ran] at spec
      obtain ⟨items, names, -, -, read, open_, -⟩ := spec
      rcases fails with closed | unreadable
      · exact absurd open_ closed
      · exact absurd (readSame ▸ read) (unreadable names)
    | error e t'' =>
      rw [wp_of_error ran] at spec
      rw [wp_orRollback_error ran]
      rcases spec with ⟨rfl, -⟩ | ⟨names, read, open_, -⟩
      · refine wp_mono (rollback_undoes undo begun) (fun _ t undone => undone.trans ?_)
          fun _ => False.elim
        simp [readManagedUsers, readSame]
      · rcases fails with closed | unreadable
        · exact absurd open_ closed
        · exact absurd (readSame ▸ read) (unreadable names)
  | mailboxes =>
    obtain ⟨t, t', made, changed, saved, open_, ⟨names, read⟩, closed⟩ := fails
    obtain ⟨begun, readSame⟩ := begun_of_recorded (prepare_ok prepared).1 made saved
    have spec : wp (register users o new) _ _ t' := register_spec
    rw [wp_of_ok made, wp_orRollback_ok changed, wp_orRollback_ok saved]
    cases ran : register users o new t' with
    | ok u t'' =>
      rw [wp_of_ok ran] at spec
      obtain ⟨items, names, -, -, -, -, written, -⟩ := spec
      exact absurd written closed
    | error e t'' =>
      rw [wp_of_error ran] at spec
      rw [wp_orRollback_error ran]
      rcases spec with ⟨rfl, twice⟩ | ⟨names', read', -, -, rfl⟩
      · -- the address is not registered twice, since it was not when the request was checked
        obtain ⟨items, list, fresh⟩ := (prepare_ok prepared).2
        have list' : tryReadMailboxes users t'' = .ok items := by
          rw [← list]
          simp only [tryReadMailboxes, begun.mailboxes]
        rw [twice open_ ⟨names, readSame.trans read⟩ items list'] at fresh
        cases fresh
      · have left : Begun users o host new (t'.setManagedUsers (insert new.user names')) :=
          ⟨begun.free, begun.passwd, begun.mailboxes, begun.others⟩
        refine wp_mono (rollback_undoes undo left) (fun _ t undone => undone.trans ?_)
          fun _ => False.elim
        have before : readManagedUsers users host = names' := by
          rw [readSame] at read'
          simp only [readManagedUsers, read']
        have after : readManagedUsers users (t'.setManagedUsers (insert new.user names')) =
            insert new.user names' := rfl
        rw [before, after, Finset.insert_eq_self]
        simp

/-- `chpasswd` fails, and everything else succeeds. -/
def chpasswdFails : Outcomes :=
  { smooth "/home/alice" with
    run := fun program _ _ =>
      .ok { status := if program = "/usr/sbin/chpasswd" then 1 else 0, stdout := "", stderr := "" } }

theorem chpasswdFails_rollback : RollbackSucceeds debian chpasswdFails "alice" where
  account _ made := ⟨_, removeAccount_ok rfl rfl rfl made⟩
  droppedAddress := rfl
  droppedUser := rfl

def aliceNew : NewMailbox :=
  { email := "alice@example.com", user := "alice", password := "Zx7Qm2Vt9Kp4", displayName := "" }

def aliceRequest : Json := requestFor "alice@example.com" "" "Zx7Qm2Vt9Kp4"

theorem add_undone_iff_chpasswd : ∃ e host',
    add debian chpasswdFails aliceRequest freshHost = .error e host' ∧
      SameStores debian freshHost host' := by
  have checked : prepare debian aliceRequest freshHost = .ok aliceNew := by decide +kernel
  have fails : FailsAt debian chpasswdFails freshHost aliceNew .chpasswd := ⟨_, rfl, _, _, rfl⟩
  obtain ⟨e, host', failed, undone⟩ :=
    add_undone_iff debian chpasswdFails freshHost _ _ .chpasswd checked fails chpasswdFails_rollback
  exact ⟨e, host', failed, undone.mpr (.inr ⟨rfl, rfl, nofun⟩)⟩

/-- A record that was made before the mailbox. -/
def oldRecord : PasswordRecord :=
  { username := "alice@example.com"
    algorithm := passwordAlgorithm
    iterations := pbkdf2Iterations
    salt := String.ofList (List.replicate 32 '0')
    hash := String.ofList (List.replicate 64 '0')
    updatedAt := "" }

def failsWith (p : Host → Bool) : EStateM.Result String Host Unit → Bool
  | .ok _ _ => false
  | .error _ t => p t

/-- A failed request removes a record that was there before it. -/
theorem add_removes_old_record : ¬∀ (users : Users) (o : Outcomes) (host : Host) (data : Json)
    (new : NewMailbox) (step : AddStep), prepare users data host = .ok new →
      FailsAt users o host new step → RollbackSucceeds users o new.user →
      ∀ e host', add users o data host = .error e host' → SameStores users host host' := by
  intro claim
  let host : Host :=
    { freshHost with passwords := .holds ((∅ : MailboxPasswords.Records).put oldRecord.username oldRecord) }
  have checked : prepare debian aliceRequest host = .ok aliceNew := by decide +kernel
  have fails : FailsAt debian chpasswdFails host aliceNew .chpasswd := ⟨_, rfl, _, _, rfl⟩
  have gone : wp (add debian chpasswdFails aliceRequest) (fun _ _ => False)
      (fun t => storedRecord debian t "alice@example.com" = none) host := by
    have ran : failsWith (fun t => decide (storedRecord debian t "alice@example.com" = none))
        (add debian chpasswdFails aliceRequest host) = true := by decide +kernel
    unfold failsWith at ran
    split at ran
    · cases ran
    · rename_i e t stopped
      rw [wp_of_error stopped]
      exact of_decide_eq_true ran
  obtain ⟨e, host', failed, missing⟩ := exists_error_of_wp gone
  have same := (claim debian chpasswdFails host _ _ _ checked fails chpasswdFails_rollback e host'
    failed).records "alice@example.com"
  rw [missing] at same
  exact absurd same (by decide +kernel)

end MailStack.Priv
