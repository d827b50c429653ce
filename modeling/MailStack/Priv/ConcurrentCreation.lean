import MailStack.Lib.Machine
import MailStack.Priv.Creation

/-! Requests for mailboxes that are served at the same time. -/

namespace MailStack.Priv

open Lib Core
open MailboxPasswords (key)

inductive Undo
  | address
  | user
  | account
deriving DecidableEq

inductive Phase
  | waiting
  | checked (new : NewMailbox)
  | created (new : NewMailbox)
  | passwordSet (new : NewMailbox)
  | saved (new : NewMailbox)
  | undoing (new : NewMailbox) (error : String) (next : Undo)
  | returned (result : Except String Unit)
deriving DecidableEq

section Steps

variable (users : Users) (o : Outcomes) (data : Json)

/-- The next phase after a part of a request: `done`, or `stopped` with its error. -/
def after (part : Handler Unit) (done : Phase) (stopped : String → Phase) (host : Host) :
    Host × Phase :=
  match part host with
  | .ok () t => (t, done)
  | .error e t => (t, stopped e)

/-- The next operation of a request. -/
def advance (host : Host) : Phase → Option (Host × Phase)
  | .waiting =>
    match prepare users data host with
    | .ok new => some (host, .checked new)
    | .error e => some (host, .returned (.error e))
  | .checked new =>
    some (after (createFor users o host new) (.created new) (fun e => .returned (.error e)) host)
  | .created new =>
    some (after (setPassword users o new.user new.password) (.passwordSet new)
      (fun e => .undoing new e .address) host)
  | .passwordSet new =>
    some (after (saveMailboxPassword users o new.email new.password) (.saved new)
      (fun e => .undoing new e .address) host)
  | .saved new =>
    some (after (register users o new) (.returned (.ok ())) (fun e => .undoing new e .address) host)
  | .undoing new e .address =>
    some (finalState (dropRecord users o .droppedAddress new.email) host, .undoing new e .user)
  | .undoing new e .user =>
    some (finalState (dropRecord users o .droppedUser new.user) host, .undoing new e .account)
  | .undoing new e .account =>
    some (finalState (removeAccount users o new.user) host, .returned (.error e))
  | .returned _ => none

end Steps

structure World (ι : Type) where
  host : Host
  phase : ι → Phase

variable {ι : Type} [DecidableEq ι] (users : Users) (o : ι → Outcomes) (data : ι → Json)

def start (host : Host) : World ι := { host := host, phase := fun _ => .waiting }

def World.put (w : World ι) (i : ι) (host : Host) (next : Phase) : World ι :=
  { host := host, phase := Function.update w.phase i next }

@[simp] theorem World.put_host (w : World ι) (i : ι) (host : Host) (next : Phase) :
    (w.put i host next).host = host := rfl

@[simp] theorem World.put_phase_self (w : World ι) (i : ι) (host : Host) (next : Phase) :
    (w.put i host next).phase i = next := by
  simp [World.put]

theorem World.put_phase_of_ne (w : World ι) {i j : ι} (host : Host) (next : Phase) (ne : j ≠ i) :
    (w.put i host next).phase j = w.phase j := by
  simp [World.put, ne]

def step (w : World ι) (i : ι) : Option (World ι) :=
  (advance users (o i) (data i) w.host (w.phase i)).map fun next => w.put i next.1 next.2

/-- The result of `add`, with the state that it leaves. -/
def resultOf (result : Except String Unit) (host : Host) : EStateM.Result String Host Unit :=
  match result with
  | .ok () => .ok () host
  | .error e => .error e host

section Alone

variable {users : Users} {o : Outcomes} {data : Json} {new : NewMailbox} {host t t' : Host}
  {e : String} {part : Handler Unit}

def rolledBack (users : Users) (o : Outcomes) (new : NewMailbox) (t : Host) : Host :=
  finalState (removeAccount users o new.user)
    (finalState (dropRecord users o .droppedUser new.user)
      (finalState (dropRecord users o .droppedAddress new.email) t))

theorem dropRecord_eq (site : Site) (name : String) :
    dropRecord users o site name t = .ok () (finalState (dropRecord users o site name) t) :=
  eq_ok_of_wp (wp_mono (dropRecord_spec site) (fun _ _ _ => trivial) fun _ => id)

theorem orRollback_error (failed : part t = .error e t') :
    orRollback users o new part t = .error e (rolledBack users o new t') := by
  obtain ⟨result, removed⟩ := caught_eq (removeAccount users o new.user)
    (finalState (dropRecord users o .droppedUser new.user)
      (finalState (dropRecord users o .droppedAddress new.email) t'))
  have run : caught part t = .ok (.error e) t' := by simp only [caught, failed]
  simp only [orRollback, rollbackCreatedAccount, dropMailboxPassword, bind, EStateM.bind, run,
    dropRecord_eq, removed]
  rfl

theorem orRollback_ok (done : part t = .ok () t') :
    orRollback users o new part t = .ok () t' := by
  have run : caught part t = .ok (.ok ()) t' := by simp only [caught, done]
  simp only [orRollback, bind, EStateM.bind, run]
  rfl

abbrev Leads (users : Users) (o : Outcomes) (data : Json) : Host × Phase → Host × Phase → Prop :=
  Relation.ReflTransGen fun a b => advance users o data a.1 a.2 = some b

theorem leads_of_undoing :
    Leads users o data (t, .undoing new e .address) (rolledBack users o new t, .returned (.error e)) :=
  .head rfl (.head rfl (.head rfl .refl))

/-- The operations of a request, done one after another, are `add`. -/
theorem add_eq_operations : ∃ result host',
    Leads users o data (host, .waiting) (host', .returned result) ∧
      add users o data host = resultOf result host' := by
  simp only [add, bind, EStateM.bind, run_get]
  cases prepared : prepare users data host with
  | error e =>
    exact ⟨.error e, host, .single (by simp only [advance, prepared]), rfl⟩
  | ok new =>
    have first : advance users o data host .waiting = some (host, .checked new) := by
      simp only [advance, prepared]
    simp only [ofExcept, pure, EStateM.pure]
    cases made : createAccount users o new.user (accountGroup host) (nologinShell users) host with
    | error e t =>
      refine ⟨.error e, t, .head first (.single ?_), rfl⟩
      simp only [advance, after, createFor, made]
    | ok u t =>
      have second : advance users o data host (.checked new) = some (t, .created new) := by
        simp only [advance, after, createFor, made]
      cases changed : setPassword users o new.user new.password t with
      | error e t' =>
        refine ⟨.error e, rolledBack users o new t', .head first (.head second
          (.head (b := (t', .undoing new e .address)) ?_ leads_of_undoing)), ?_⟩
        · simp only [advance, after, changed]
        · simp only [orRollback_error changed, resultOf]
      | ok u t' =>
        have third : advance users o data t (.created new) = some (t', .passwordSet new) := by
          simp only [advance, after, changed]
        cases saved : saveMailboxPassword users o new.email new.password t' with
        | error e t'' =>
          refine ⟨.error e, rolledBack users o new t'', .head first (.head second (.head third
            (.head (b := (t'', .undoing new e .address)) ?_ leads_of_undoing))), ?_⟩
          · simp only [advance, after, saved]
          · simp only [orRollback_ok changed, orRollback_error saved, resultOf]
        | ok u t'' =>
          have fourth : advance users o data t' (.passwordSet new) = some (t'', .saved new) := by
            simp only [advance, after, saved]
          cases ran : register users o new t'' with
          | error e s =>
            refine ⟨.error e, rolledBack users o new s, .head first (.head second (.head third
              (.head fourth (.head (b := (s, .undoing new e .address)) ?_ leads_of_undoing)))), ?_⟩
            · simp only [advance, after, ran]
            · simp only [orRollback_ok changed, orRollback_ok saved, orRollback_error ran, resultOf]
          | ok u s =>
            refine ⟨.ok (), s, .head first (.head second (.head third (.head fourth
              (.single ?_)))), ?_⟩
            · simp only [advance, after, ran]
            · simp only [orRollback_ok changed, orRollback_ok saved, orRollback_ok ran, resultOf]

end Alone

def addressesIn (host : Host) : List String :=
  (readMailboxes users host).map fun item => users.lower.toLowercase (mailboxStr item "email")

/-- Each address is registered once, and has a record. -/
structure WellMade (host : Host) : Prop where
  once : (addressesIn users host).Nodup
  addresses : ∀ item ∈ readMailboxes users host,
    contains (key (mailboxStr item "email")) '@' = true
  stored : ∀ item ∈ readMailboxes users host,
    storedRecord users host (key (mailboxStr item "email")) ≠ none

def Phase.new? : Phase → Option NewMailbox
  | .waiting | .returned _ => none
  | .checked new | .created new | .passwordSet new | .saved new | .undoing new _ _ => some new

/-- The address is not registered, and no other request has its record written. -/
def FreeFor (w : World ι) (i : ι) (email : String) : Prop :=
  (∀ item ∈ readMailboxes users w.host, key (mailboxStr item "email") ≠ email) ∧
    ∀ j, j ≠ i → ∀ new, w.phase j = .saved new → new.email ≠ email

/-- The record of an address is written, or removed in a rollback, only while it is free. -/
def Undisturbed (w : World ι) (i : ι) : Prop :=
  match w.phase i with
  | .passwordSet new => FreeFor users w i new.email
  | .undoing new _ .address => FreeFor users w i new.email
  | _ => True

/-- A request that succeeded: its address is registered with its user, and has a record of its
password. -/
def Done (host : Host) (data : Json) : Prop :=
  ∃ item ∈ readMailboxes users host, mailboxStr item "email" = requestedEmail users data ∧
    mailboxStr item "unixUser" = requestedUser users data ∧
    ∃ record, storedRecord users host (requestedEmail users data) = some record ∧
      RecordOf users.sha (strField data "password") record

structure Safe (w : World ι) : Prop extends WellMade users w.host where
  asked : ∀ i new, (w.phase i).new? = some new → Asked users (data i) new
  saved : ∀ i new, w.phase i = .saved new → ∃ record,
    storedRecord users w.host new.email = some record ∧ RecordOf users.sha new.password record
  done : ∀ i, w.phase i = .returned (.ok ()) →
    key (requestedEmail users (data i)) = requestedEmail users (data i) ∧
      Done users w.host (data i)

variable {users o data} {w w' : World ι} {i : ι}

omit [DecidableEq ι] in
theorem Safe.start {host : Host}
    (h : WellMade users host) : Safe users data (start host : World ι) :=
  { h with asked := nofun, saved := nofun, done := nofun }

/-- A step that keeps the registry and the records that count, and neither saves a record unseen
nor ends well. -/
theorem Safe.keep (h : Safe users data w) {host : Host} {next : Phase}
    (mailboxes : readMailboxes users host = readMailboxes users w.host)
    (records : ∀ n, contains n '@' = true → ¬FreeFor users w i n →
      storedRecord users host n = storedRecord users w.host n)
    (asked : ∀ new, next.new? = some new → Asked users (data i) new)
    (saved : ∀ new, next = .saved new → ∃ record,
      storedRecord users host new.email = some record ∧ RecordOf users.sha new.password record)
    (notDone : next ≠ .returned (.ok ())) :
    Safe users data (w.put i host next) := by
  have registeredKept : ∀ item ∈ readMailboxes users w.host,
      storedRecord users host (key (mailboxStr item "email")) =
        storedRecord users w.host (key (mailboxStr item "email")) := fun item mem =>
    records _ (h.addresses item mem) fun free => free.1 item mem rfl
  refine ⟨⟨?_, ?_, ?_⟩, fun j new => ?_, fun j new => ?_, fun j => ?_⟩
  · rw [addressesIn, World.put_host, mailboxes]
    exact h.once
  · rw [World.put_host, mailboxes]
    exact h.addresses
  · rw [World.put_host, mailboxes]
    intro item mem
    rw [registeredKept item mem]
    exact h.stored item mem
  · by_cases same : j = i
    · rw [same, World.put_phase_self]
      exact asked new
    · rw [World.put_phase_of_ne _ _ _ same]
      exact h.asked j new
  · by_cases same : j = i
    · rw [same, World.put_phase_self]
      exact saved new
    · rw [World.put_phase_of_ne _ _ _ same]
      intro phase
      obtain ⟨record, stored, ofPassword⟩ := h.saved j new phase
      have address := (h.asked j new (by rw [phase]; rfl)).contains_email
      refine ⟨record, ?_, ofPassword⟩
      rw [World.put_host, records _ address fun free => free.2 j same new phase rfl, stored]
  · by_cases same : j = i
    · rw [same, World.put_phase_self]
      exact fun ended => absurd ended notDone
    · rw [World.put_phase_of_ne _ _ _ same]
      intro phase
      obtain ⟨normal, item, mem, email, unixUser, record, stored, ofPassword⟩ := h.done j phase
      refine ⟨normal, item, mailboxes ▸ mem, email, unixUser, record, ?_, ofPassword⟩
      rw [← stored, ← normal, ← email]
      exact registeredKept item mem

theorem Safe.idle (h : Safe users data w) {host : Host} {next : Phase}
    (mailboxes : readMailboxes users host = readMailboxes users w.host)
    (records : storedRecord users host = storedRecord users w.host)
    (asked : ∀ new, next.new? = some new → Asked users (data i) new)
    (notSaved : ∀ new, next ≠ .saved new) (notDone : next ≠ .returned (.ok ())) :
    Safe users data (w.put i host next) :=
  h.keep mailboxes (fun n _ _ => congrFun records n) asked
    (fun new saved => absurd saved (notSaved new)) notDone

theorem Safe.register (h : Safe users data w) {new : NewMailbox} {items : List Json}
    {names : Finset String} (phase : w.phase i = .saved new)
    (read : tryReadMailboxes users w.host = .ok items)
    (fresh : registered users items new.email = false) :
    Safe users data (w.put i ((w.host.setManagedUsers names).setMailboxes
      (items ++ [mailboxJson new.email new.user new.displayName])) (.returned (.ok ()))) := by
  have asked := h.asked i new (by rw [phase]; rfl)
  obtain ⟨record, stored, ofPassword⟩ := h.saved i new phase
  have before : readMailboxes users w.host = items := readMailboxes_of_ok read
  refine ⟨⟨?_, ?_, ?_⟩, fun j other => ?_, fun j other => ?_, fun j => ?_⟩
  · have once : (items.map fun item => users.lower.toLowercase (mailboxStr item "email")).Nodup :=
      before ▸ h.once
    show ((items ++ [_]).map _).Nodup
    rw [List.map_append, List.map_singleton, mailboxStr_email, asked.toLowercase_email]
    refine List.nodup_append.mpr ⟨once, List.nodup_singleton _, ?_⟩
    rintro a mem b last rfl
    obtain rfl := List.mem_singleton.mp last
    obtain ⟨item, inItems, same⟩ := List.mem_map.mp mem
    rw [registered, List.any_eq_false] at fresh
    exact fresh item inItems (decide_eq_true same)
  · show ∀ item ∈ items ++ [_], _
    intro item mem
    rcases List.mem_append.mp mem with old | last
    · exact h.addresses item (before ▸ old)
    · rw [List.mem_singleton.mp last, mailboxStr_email, asked.key_email]
      exact asked.contains_email
  · show ∀ item ∈ items ++ [_], storedRecord users w.host _ ≠ none
    intro item mem
    rcases List.mem_append.mp mem with old | last
    · exact h.stored item (before ▸ old)
    · rw [List.mem_singleton.mp last, mailboxStr_email, asked.key_email, stored]
      exact Option.some_ne_none record
  · by_cases same : j = i
    · rw [same, World.put_phase_self]
      nofun
    · rw [World.put_phase_of_ne _ _ _ same]
      exact h.asked j other
  · by_cases same : j = i
    · rw [same, World.put_phase_self]
      nofun
    · rw [World.put_phase_of_ne _ _ _ same]
      exact h.saved j other
  · by_cases same : j = i
    · intro _
      rw [same, ← asked.email]
      refine ⟨asked.key_email, mailboxJson new.email new.user new.displayName, ?_, asked.email,
        asked.user, record, asked.email ▸ stored, asked.password ▸ ofPassword⟩
      exact List.mem_append_right items (List.mem_singleton_self _)
    · rw [World.put_phase_of_ne _ _ _ same]
      intro ended
      obtain ⟨normal, item, mem, rest⟩ := h.done j ended
      exact ⟨normal, item, List.mem_append_left _ (before ▸ mem), rest⟩

omit [DecidableEq ι] in
theorem after_spec {part : Handler Unit} {done : Phase} {stopped : String → Phase} {host : Host}
    {P : Host → Phase → Prop}
    (run : wp part (fun _ t => P t done) (fun t => ∀ e, P t (stopped e)) host) :
    P (after part done stopped host).1 (after part done stopped host).2 := by
  unfold wp at run
  unfold after
  cases result : part host with
  | ok u t => rw [result] at run; exact run
  | error e t => rw [result] at run; exact run e

theorem Safe.step (h : Safe users data w) (undisturbed : Undisturbed users w i)
    (taken : step users o data w i = some w') : Safe users data w' := by
  obtain ⟨result, advanced, rfl⟩ := Option.map_eq_some_iff.mp taken
  unfold Undisturbed at undisturbed
  have asked : ∀ new, (w.phase i).new? = some new → Asked users (data i) new := h.asked i
  cases phase : w.phase i with
  | waiting =>
    simp only [phase, advance] at advanced
    cases prepared : prepare users (data i) w.host with
    | error e =>
      rw [prepared] at advanced
      cases advanced
      exact h.idle rfl rfl nofun nofun nofun
    | ok new =>
      rw [prepared] at advanced
      cases advanced
      refine h.idle rfl rfl (fun new' same => ?_) nofun nofun
      cases same
      exact (prepare_ok prepared).1
  | checked new =>
    rw [phase] at asked advanced
    simp only [advance, Option.some.injEq] at advanced
    subst advanced
    refine after_spec (P := fun t p => Safe users data (w.put i t p)) ?_
    refine wp_mono createAccount_spec ?_ ?_
    · rintro _ t ⟨-, rfl⟩
      exact h.idle rfl rfl asked nofun nofun
    · rintro t rfl e
      exact h.idle rfl rfl nofun nofun nofun
  | created new =>
    rw [phase] at asked advanced
    simp only [advance, Option.some.injEq] at advanced
    subst advanced
    refine after_spec (P := fun t p => Safe users data (w.put i t p)) ?_
    refine wp_mono setPassword_spec ?_ ?_
    · rintro _ t rfl
      exact h.idle rfl rfl asked nofun nofun
    · rintro t rfl e
      exact h.idle rfl rfl asked nofun nofun
  | passwordSet new =>
    rw [phase] at asked advanced undisturbed
    simp only [advance, Option.some.injEq] at advanced
    subst advanced
    refine after_spec (P := fun t p => Safe users data (w.put i t p)) ?_
    refine wp_mono (saveMailboxPassword_asked (asked new rfl)) ?_ ?_
    · rintro _ t ⟨record, file, ofPassword, rfl, stored⟩
      refine h.keep rfl (fun n _ taken => ?_) asked (fun new' same => ?_) nofun
      · rw [stored, if_neg]
        rintro rfl
        exact taken undisturbed
      · cases same
        exact ⟨record, by rw [stored, if_pos rfl], ofPassword⟩
    · rintro t rfl e
      exact h.idle rfl rfl asked nofun nofun
  | saved new =>
    rw [phase] at asked advanced
    simp only [advance, Option.some.injEq] at advanced
    subst advanced
    refine after_spec (P := fun t p => Safe users data (w.put i t p)) ?_
    refine wp_mono register_spec ?_ ?_
    · rintro _ t ⟨items, names, read, fresh, -, -, -, rfl⟩
      exact h.register phase read fresh
    · rintro t (⟨rfl, -⟩ | ⟨names, -, -, -, rfl⟩) e
      · exact h.idle rfl rfl asked nofun nofun
      · exact h.idle rfl rfl asked nofun nofun
  | undoing new e next =>
    rw [phase] at asked advanced undisturbed
    cases next with
    | address =>
      cases advanced
      have dropped : wp (dropRecord users (o i) .droppedAddress new.email) _ _ w.host :=
        dropRecord_spec _
      rw [wp_of_ok (dropRecord_eq _ _)] at dropped
      obtain ⟨file, left⟩ := dropped.1.rest
      refine h.keep (by rw [left]; rfl) (fun n _ taken => dropped.1.others n ?_) asked nofun nofun
      rw [(asked new rfl).key_email]
      rintro rfl
      exact taken undisturbed
    | user =>
      cases advanced
      have dropped : wp (dropRecord users (o i) .droppedUser new.user) _ _ w.host :=
        dropRecord_spec _
      rw [wp_of_ok (dropRecord_eq _ _)] at dropped
      obtain ⟨file, left⟩ := dropped.1.rest
      refine h.keep (by rw [left]; rfl) (fun n address _ => dropped.1.others n ?_) asked nofun nofun
      rw [key_of_userRe (asked new rfl).isUser]
      rintro rfl
      exact absurd address (by simp [(asked new rfl).contains_user])
    | account =>
      cases advanced
      have removed : wp (removeAccount users (o i) new.user)
          (fun _ t => t.mailboxes = w.host.mailboxes ∧ t.passwords = w.host.passwords)
          (fun t => t.mailboxes = w.host.mailboxes ∧ t.passwords = w.host.passwords) w.host :=
        wp_mono removeAccount_spec (fun _ t same => same ▸ ⟨rfl, rfl⟩) fun t same => same ▸ ⟨rfl, rfl⟩
      obtain ⟨mailboxes, passwords⟩ := finalState_of_wp removed
      refine h.idle ?_ ?_ nofun nofun nofun
      · simp only [readMailboxes, tryReadMailboxes, mailboxes]
      · funext n
        simp only [storedRecord, passwords]
  | returned result =>
    rw [phase] at advanced
    cases advanced

/-- While the record of an address is only written, and only removed in a rollback, when the address
is not registered and no other request has its record written, every address is registered at most
once, each request that succeeded has its address registered with its own user and a record of its
own password, and no registered address is without a record. -/
theorem creations_safe (users : Users) (o : ι → Outcomes) (data : ι → Json) (host : Host)
    (wellMade : WellMade users host) (ids : List ι) (w : World ι)
    (run : Runs (step users o data) (Undisturbed users) (start host) ids w) :
    (addressesIn users w.host).Nodup ∧
      (∀ i, w.phase i = .returned (.ok ()) → Done users w.host (data i)) ∧
      ∀ item ∈ readMailboxes users w.host,
        storedRecord users w.host (key (mailboxStr item "email")) ≠ none := by
  have safe : Safe users data w :=
    run.invariant (.start wellMade) fun _ _ _ h undisturbed taken => h.step undisturbed taken
  exact ⟨safe.once, fun i returned => (safe.done i returned).2, safe.stored⟩

/-- `FreeFor` of one of two requests. -/
def freeNow (users : Users) (w : World Bool) (i : Bool) (email : String) : Bool :=
  (readMailboxes users w.host).all (fun item => key (mailboxStr item "email") ≠ email) &&
    match w.phase !i with
    | .saved new => new.email ≠ email
    | _ => true

theorem freeNow_sound {users : Users} {w : World Bool} {i : Bool} {email : String}
    (free : freeNow users w i email = true) : FreeFor users w i email := by
  rw [freeNow, Bool.and_eq_true, List.all_eq_true] at free
  refine ⟨fun item mem => of_decide_eq_true (free.1 item mem), fun j other new phase => ?_⟩
  have isOther : j = !i := by
    cases i <;> cases j <;> simp_all
  have last := free.2
  rw [← isOther, phase] at last
  exact of_decide_eq_true last

def undisturbed (users : Users) (w : World Bool) (i : Bool) : Bool :=
  match w.phase i with
  | .passwordSet new => freeNow users w i new.email
  | .undoing new _ .address => freeNow users w i new.email
  | _ => true

theorem undisturbed_sound (users : Users) (w : World Bool) (i : Bool)
    (h : undisturbed users w i = true) : Undisturbed users w i := by
  unfold undisturbed at h
  unfold Undisturbed
  cases phase : w.phase i with
  | passwordSet new =>
    rw [phase] at h
    exact freeNow_sound h
  | undoing new e next =>
    rw [phase] at h
    cases next with
    | address => exact freeNow_sound h
    | _ => trivial
  | _ => trivial

def twoAddresses (i : Bool) : Json :=
  if i then requestFor "alice@example.com" "" "Zx7Qm2Vt9Kp4"
  else requestFor "bob@example.com" "" "Wr5Jn8Xc3Lq6"

def homes (i : Bool) : Outcomes := smooth (if i then "/home/alice" else "/home/robert")

theorem freshHost_wellMade : WellMade debian freshHost := ⟨List.nodup_nil, nofun, nofun⟩

theorem creations_safe_two : ∃ w : World Bool,
    Done debian w.host (twoAddresses true) ∧ Done debian w.host (twoAddresses false) := by
  have ran : (checkedExec (step debian homes twoAddresses) (undisturbed debian) (start freshHost)
      [true, false, true, false, true, false, true, false, false, true]).any (fun w =>
        decide (w.phase true = .returned (.ok ())) && decide (w.phase false = .returned (.ok ()))) =
      true := by decide +kernel
  obtain ⟨w, reached, returned⟩ := (Option.any_eq_true _ _).mp ran
  rw [Bool.and_eq_true, decide_eq_true_eq, decide_eq_true_eq] at returned
  have safe := creations_safe debian homes twoAddresses freshHost freshHost_wellMade _ w
    (runs_of_checkedExec (undisturbed_sound debian) reached)
  exact ⟨w, safe.2.1 true returned.1, safe.2.1 false returned.2⟩

def oneAddress (i : Bool) : Json :=
  if i then requestFor "robert@example.com" "" "Zx7Qm2Vt9Kp4"
  else requestFor "robert@example.com" "bob" "Wr5Jn8Xc3Lq6"

/-- The request that comes second writes its record over the one of the first, and takes it away
when it cannot register the address. -/
theorem loser_removes_record : ¬∀ (ι : Type) (_ : DecidableEq ι) (users : Users) (o : ι → Outcomes)
    (data : ι → Json) (host : Host) (ids : List ι) (w : World ι), WellMade users host →
      Reaches (step users o data) (start host) ids w →
      (∀ i, ∃ result, w.phase i = .returned result) →
      (addressesIn users w.host).Nodup ∧
        (∀ i, w.phase i = .returned (.ok ()) → Done users w.host (data i)) ∧
        ∀ item ∈ readMailboxes users w.host,
          storedRecord users w.host (key (mailboxStr item "email")) ≠ none := by
  intro claim
  have ran : (exec (step debian homes oneAddress) (start freshHost)
      [true, false, true, false, true, false, true, false, true, false, false, false, false]).any
        (fun w => decide (w.phase true = .returned (.ok ())) &&
          decide (w.phase false = .returned (.error "mailbox already exists")) &&
          (readMailboxes debian w.host).any fun item =>
            decide (storedRecord debian w.host (key (mailboxStr item "email")) = none)) = true := by
    decide +kernel
  obtain ⟨w, reached, ended⟩ := (Option.any_eq_true _ _).mp ran
  simp only [Bool.and_eq_true, decide_eq_true_eq, List.any_eq_true] at ended
  obtain ⟨⟨won, lost⟩, item, mem, missing⟩ := ended
  have returned : ∀ i, ∃ result, w.phase i = .returned result := by
    intro i
    cases i with
    | true => exact ⟨_, won⟩
    | false => exact ⟨_, lost⟩
  exact (claim Bool _ debian homes oneAddress freshHost _ w freshHost_wellMade
    (reaches_of_exec reached) returned).2.2 item mem missing

end MailStack.Priv
