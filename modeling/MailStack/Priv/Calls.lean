import MailStack.Lib.Machine
import MailStack.Priv.Users

/-! Calls one after another, and what they keep when their parts keep it. -/

namespace MailStack.Priv

open Lib Core

inductive Operation
  | add
  | delete
  | status
  | password
deriving DecidableEq

structure Call where
  operation : Operation
  data : Json
  outcomes : Outcomes

section

variable (users : Users)

def Call.handler (call : Call) : Handler Unit :=
  match call.operation with
  | .add => add users call.outcomes call.data
  | .delete => delete users call.outcomes call.data
  | .status => status users call.outcomes call.data
  | .password => password users call.outcomes call.data

def serveCall (host : Host) (call : Call) : Option Host :=
  some (finalState (call.handler users) host)

def Call.succeeds (host : Host) (call : Call) : Bool :=
  match call.handler users host with
  | .ok _ _ => true
  | .error _ _ => false

end

section Keeps

variable {users : Users} {o : Outcomes} {data : Json} {P : Host → Prop} {new : NewMailbox}
  {part : Handler Unit}

theorem keeps_ofExcept {α : Type} (x : Except String α) : Keeps P (ofExcept x) := by
  cases x with
  | ok a => exact .pure a
  | error e => exact .throw e

/-! A property that does not depend on the files that a part writes to. -/

section

variable (frame : ∀ host file, P host → P (host.setPasswords file))

include frame

theorem keeps_save
    (identity password : String) : Keeps P (saveMailboxPassword users o identity password) := by
  intro host good
  refine wp_mono saveMailboxPassword_spec ?_ ?_
  · rintro _ t ⟨record, file, -, rfl, -⟩
    exact frame host file good
  · rintro t rfl
    exact good

theorem keeps_restore
    (identity : String) (previous : Option PasswordRecord) :
    Keeps P (restoreMailboxPassword users o identity previous) := by
  intro host good
  refine wp_mono restoreMailboxPassword_spec ?_ ?_
  · rintro _ t ⟨⟨file, rfl⟩, -⟩
    exact frame host file good
  · rintro t rfl
    exact good

theorem keeps_drop (site : Site)
    (name : String) : Keeps P (dropRecord users o site name) := by
  intro host good
  refine wp_mono (dropRecord_spec site) ?_ fun _ => False.elim
  rintro _ t ⟨dropped, -⟩
  obtain ⟨file, rfl⟩ := dropped.rest
  exact frame host file good

end

theorem keeps_create (frame : ∀ host passwd, P host → P (host.setPasswd passwd))
    (user group shell : String) : Keeps P (createAccount users o user group shell) := by
  intro host good
  refine wp_mono createAccount_spec ?_ ?_
  · rintro _ t ⟨-, rfl⟩
    exact frame host _ good
  · rintro t rfl
    exact good

theorem keeps_remove
    (frame : ∀ host q, P host → P (host.setPasswd (host.passwd.filter q))) (user : String) :
    Keeps P (removeAccount users o user) := by
  intro host good
  refine wp_mono removeAccount_spec ?_ ?_
  · rintro _ t rfl
    exact frame host _ good
  · rintro t rfl
    exact good

theorem keeps_register (managed : ∀ host names, P host → P (host.setManagedUsers names))
    (mailboxes : ∀ host items, P host → P (host.setMailboxes items)) (new : NewMailbox) :
    Keeps P (register users o new) := by
  intro host good
  refine wp_mono register_spec ?_ ?_
  · rintro _ t ⟨items, names, -, -, -, -, -, rfl⟩
    exact mailboxes _ _ (managed host _ good)
  · rintro t (⟨rfl, -⟩ | ⟨names, -, -, -, rfl⟩)
    · exact good
    · exact managed host _ good

theorem keeps_unregister (managed : ∀ host names, P host → P (host.setManagedUsers names))
    (mailboxes : ∀ host items, P host → P (host.setMailboxes items)) (user : String) :
    Keeps P (unregister users o user) := by
  intro host good
  refine wp_mono unregister_spec ?_ ?_
  · rintro _ t ⟨names, items, -, -, rfl⟩
    exact mailboxes _ _ (managed host _ good)
  · rintro t (rfl | ⟨names, -, rfl⟩)
    · exact good
    · exact managed host _ good

theorem keeps_bump
    (frame : ∀ host epochs, P host → P { host with sessionEpochs := .holds epochs })
    (user : String) : Keeps P (bumpSessionEpoch users o user) := by
  intro host good
  refine wp_mono bumpSessionEpoch_spec ?_ ?_
  · rintro _ t ⟨epochs, -, rfl⟩
    exact frame host _ good
  · rintro t rfl
    exact good

/-! What the calls keep when their parts keep it. -/

theorem keeps_setPassword (user password : String) :
    Keeps P (setPassword users o user password) := by
  intro host good
  exact wp_mono setPassword_spec (fun _ t same => same ▸ good) fun t same => same ▸ good

theorem keeps_dropMailboxPassword (drop : ∀ site name, Keeps P (dropRecord users o site name))
    (user : String)
    (address : Option String) : Keeps P (dropMailboxPassword users o user address) := by
  cases address with
  | none => exact drop _ user
  | some address => exact (drop _ address).bind fun _ => drop _ user

theorem keeps_rollback (drop : ∀ site name, Keeps P (dropRecord users o site name))
    (remove : ∀ user, Keeps P (removeAccount users o user)) (user : String)
    (address : Option String) : Keeps P (rollbackCreatedAccount users o user address) :=
  (keeps_dropMailboxPassword drop user address).bind fun _ =>
    (remove user).caught.bind fun _ => .pure _

theorem wp_orRollback {Q : Host → Prop} {Q' : Host → Prop} {host : Host}
    (rollback : Keeps P (rollbackCreatedAccount users o new.user (some new.email)))
    (run : wp part (fun _ => Q) Q' host) (weaker : ∀ t, Q' t → P t) :
    wp (orRollback users o new part) (fun _ => Q) P host := by
  rw [orRollback, wp_bind]
  refine wp_caught run (fun _ t good => good) fun e t good => ?_
  rw [wp_bind]
  exact wp_mono (rollback t (weaker t good)) (fun _ _ good => good) fun _ good => good

theorem keeps_orRollback
    (rollback : Keeps P (rollbackCreatedAccount users o new.user (some new.email)))
    (run : Keeps P part) : Keeps P (orRollback users o new part) := fun host good =>
  wp_orRollback rollback (run host good) fun _ => id

theorem add_keeps
    (create : ∀ user group shell, Keeps P (createAccount users o user group shell))
    (save : ∀ identity password, Keeps P (saveMailboxPassword users o identity password))
    (register : ∀ new, Asked users data new → Keeps P (register users o new))
    (remove : ∀ user, Keeps P (removeAccount users o user))
    (drop : ∀ site name, Keeps P (dropRecord users o site name)) : Keeps P (add users o data) := by
  intro host good
  rw [add, wp_bind, wp_get, wp_bind, wp_ofExcept]
  refine ⟨fun new prepared => ?_, fun _ _ => good⟩
  have undo := keeps_rollback drop remove new.user (some new.email)
  refine Keeps.bind (create _ _ _) (fun _ => ?_) host good
  refine .bind (keeps_orRollback undo (keeps_setPassword _ _)) fun _ => ?_
  refine .bind (keeps_orRollback undo (save _ _)) fun _ => ?_
  exact keeps_orRollback undo (register new (prepare_ok prepared).1)

theorem keeps_refuseIf (condition : Bool) (error : String) : Keeps P (refuseIf condition error) :=
  .ite (.throw _) (.pure _)

theorem delete_keeps (remove : ∀ user, Keeps P (removeAccount users o user))
    (unregister : ∀ user, Keeps P (unregister users o user))
    (drop : ∀ site name, Keeps P (dropRecord users o site name)) :
    Keeps P (delete users o data) := by
  unfold delete
  refine .bind .get fun host => ?_
  refine .bind (keeps_refuseIf _ _) fun _ => ?_
  refine .bind (keeps_refuseIf _ _) fun _ => ?_
  refine .bind (remove _) fun _ => ?_
  refine .bind .get fun host => ?_
  refine .bind (unregister _) fun _ => ?_
  exact keeps_dropMailboxPassword drop _ _

theorem managed_of_passes {user : String} {host : Host}
    (passes : (isProtected user || decide (user ∉ readManagedUsers users host)) = false) :
    user ∈ readManagedUsers users host := by
  rw [Bool.or_eq_false_iff, decide_eq_false_iff_not, not_not] at passes
  exact passes.2

theorem status_keeps
    (lock : ∀ host names, P host → P { host with locked := names })
    (bump : ∀ host user, P host → user ∈ readManagedUsers users host →
      Keeps P (bumpSessionEpoch users o user)) : Keeps P (status users o data) := by
  intro host good
  rw [status, wp_bind, wp_get, wp_bind, wp_refuseIf]
  refine ⟨fun _ => good, fun passes => ?_⟩
  have bumped := bump host _ good (managed_of_passes passes)
  refine Keeps.bind (keeps_ofExcept _) (fun enabled => ?_) host good
  refine .bind (keeps_ofExcept _) fun result => ?_
  refine .bind (keeps_refuseIf _ _) fun _ => ?_
  refine .bind (fun host good => lock host _ good) fun _ => ?_
  refine .bind bumped.caught fun result => ?_
  cases result with
  | ok u => exact .pure _
  | error e => exact .throw _

theorem password_keeps {Q : Option PasswordRecord → Prop}
    (read : ∀ host identity previous, P host →
      MailboxPasswords.get users.paths.mailboxPasswords host.passwords identity = .ok previous →
      Q previous)
    (save : ∀ identity password, Keeps P (saveMailboxPassword users o identity password))
    (restore : ∀ identity previous, Q previous →
      Keeps P (restoreMailboxPassword users o identity previous))
    (bump : ∀ host user, P host → user ∈ readManagedUsers users host →
      Keeps P (bumpSessionEpoch users o user)) : Keeps P (password users o data) := by
  intro host good
  rw [password, wp_bind, wp_get, wp_bind, wp_refuseIf]
  refine ⟨fun _ => good, fun passes => ?_⟩
  have bumped := bump host _ good (managed_of_passes passes)
  refine Keeps.bind (keeps_ofExcept _) (fun _ => ?_) host good
  dsimp only
  split
  · exact .throw _
  · rename_i previous found
    have known := read host _ previous good found
    refine .bind (save _ _) fun _ => .bind (keeps_setPassword _ _).caught fun result => ?_
    cases result with
    | error e =>
      refine .bind (restore _ _ known).caught fun result => ?_
      cases result with
      | error e => exact .bind bumped.caught fun _ => .throw _
      | ok u => exact .throw _
    | ok u =>
      refine .bind bumped.caught fun result => ?_
      cases result with
      | ok u => exact .pure _
      | error e => exact .throw _

end Keeps

end MailStack.Priv
