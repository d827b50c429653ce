import MailStack.Maildir.Quota
import MailStack.Sieve.Delivery

/-! A delivery stores the message or its script disposes of it, unless the script cannot be
loaded. -/

namespace MailStack.Maildir

open Lib MailStore

/-- The files of the folder of a name, none if there is no such folder. -/
def filesOf (folders : List (String × Folder)) (name : String) : List MessageFile :=
  ((folders.lookup name).map (·.files)).getD []

theorem filesOf_modify {folders : List (String × Folder)} {key name : String} {f : Folder → Folder}
    (same : ∀ folder, (f folder).files = folder.files) :
    filesOf (Assoc.modify key f folders) name = filesOf folders name := by
  rw [filesOf, Assoc.lookup_modify]
  split_ifs with here
  · simp [filesOf, Option.map_map, Function.comp_def, same]
  · rfl

theorem filesOf_assignEach {folders folders' : List (String × Folder)}
    {placed : List (String × Target)} {done : Bool}
    (h : assignEach folders placed = (folders', done))
    (name : String) : filesOf folders' name = filesOf folders name := by
  induction placed generalizing folders with
  | nil =>
    cases h
    rfl
  | cons p rest ih =>
    unfold assignEach at h
    split at h
    · exact (ih h).trans (filesOf_modify fun _ => rfl)
    · cases h
      rfl

theorem filesOf_moveEach {message : NewMessage} {folders : List (String × Folder)}
    {placed : List (String × Target)} (found : ∀ p ∈ placed, (folders.lookup p.1).isSome)
    (name : String) :
    filesOf (moveEach message folders placed) name =
      filesOf folders name ++
        (placed.filter fun p => p.1 = name).map fun p => message.stage p.2.base := by
  induction placed generalizing folders with
  | nil => simp [moveEach]
  | cons p rest ih =>
    obtain ⟨folder, here⟩ := Option.isSome_iff_exists.mp (found p List.mem_cons_self)
    rw [moveEach, List.foldl_cons, ← moveEach,
      ih fun q mem => lookup_modify_isSome (found q (List.mem_cons_of_mem _ mem))]
    by_cases same : p.1 = name
    · subst same
      simp [filesOf, Assoc.lookup_modify, here]
    · have other : ¬name = p.1 := fun eq => same eq.symm
      simp [filesOf, Assoc.lookup_modify, other, same]

theorem place_targets {s : MailStore} {targets : List Target} {placed : List (String × Target)}
    (h : s.place targets = .ok placed) : placed.map Prod.snd = targets := by
  induction targets generalizing placed with
  | nil =>
    cases h
    rfl
  | cons target rest ih =>
    unfold place at h
    split at h
    · cases h
    split at h
    · cases h
    rename_i others run
    cases h
    rw [List.map_cons, ih run]

/-- A delivery that succeeds adds to some folder the file of each of its targets. -/
theorem appendManyFolders_files {s left : MailStore} {targets : List Target} {message : NewMessage}
    (h : s.appendManyFolders targets message = (left, .ok ())) {target : Target}
    (mem : target ∈ targets) :
    ∃ name new, filesOf left.folders name = filesOf s.folders name ++ new ∧
      message.stage target.base ∈ new := by
  unfold appendManyFolders at h
  split at h
  · cases h
  split at h
  · cases h
  rename_i placed run
  split at h
  · cases h
  rename_i reserved reservation reserve
  obtain ⟨folders, -⟩ := reserve_folders reserve
  split at h
  · rename_i assigned assigns
    cases h
    obtain ⟨-, found, -⟩ := place_ok run
    rw [← place_targets run] at mem
    obtain ⟨p, inside, rfl⟩ := List.mem_map.mp mem
    have present : ∀ q ∈ placed, (assigned.lookup q.1).isSome := fun q mem =>
      (assignEach_spec assigns).2 q.1 (folders ▸ found q mem)
    have files := @filesOf_moveEach message _ _ present p.1
    rw [filesOf_assignEach assigns, folders] at files
    refine ⟨p.1, _, files, ?_⟩
    exact List.mem_map.mpr ⟨p, List.mem_filter.mpr ⟨inside, by simp⟩, rfl⟩
  · cases h

theorem filesOf_create (s : MailStore) (folder name : String) :
    filesOf (s.create folder).1.folders name = filesOf s.folders name := by
  unfold create
  split
  · rfl
  split_ifs
  · rfl
  · rfl
  · simp only [filesOf, List.lookup_append, List.lookup_cons, List.lookup_nil]
    cases s.folders.lookup name with
    | some found => rfl
    | none =>
      split
      · rfl
      · rfl

end MailStack.Maildir

namespace MailStack.Sieve

open Lib Maildir

theorem filesOf_ensureFolder (s : MailStore) (folder : String) (create : Bool) (name : String) :
    filesOf (ensureFolder s folder create).2.folders name = filesOf s.folders name := by
  unfold ensureFolder
  split_ifs
  · rfl
  · have created := filesOf_create s folder name
    split
    · rename_i run
      rwa [run] at created
    · rename_i run
      rwa [run] at created
  · rfl

/-- What a plan keeps as it goes through the actions: it rejects and discards only what the script
does, and moves no message. -/
structure PlanOf (s : MailStore) (actions : List Action) (p : Planning) : Prop where
  rejects : ∀ reason, p.reject = some reason → .reject reason ∈ actions
  discards : p.discarded = true → .discard ∈ actions
  files : ∀ name, filesOf p.store.folders name = filesOf s.folders name

theorem PlanOf.step {s : MailStore} {before : List Action} {p : Planning} (h : PlanOf s before p)
    (action : Action) : PlanOf s (before ++ [action]) (planAction p action) := by
  have rejects : ∀ reason, p.reject = some reason → Action.reject reason ∈ before ++ [action] :=
    fun reason eq => List.mem_append_left _ (h.rejects reason eq)
  have discards : p.discarded = true → Action.discard ∈ before ++ [action] :=
    fun eq => List.mem_append_left _ (h.discards eq)
  cases action with
  | discard => exact ⟨rejects, fun _ => by simp, h.files⟩
  | reject reason =>
    refine ⟨fun other eq => ?_, discards, h.files⟩
    cases eq
    simp
  | fileInto folder create =>
    exact ⟨rejects, discards, fun name =>
      (filesOf_ensureFolder p.store folder create name).trans (h.files name)⟩
  | keep => exact ⟨rejects, discards, h.files⟩
  | redirect address => exact ⟨rejects, discards, h.files⟩
  | vacation days subject body => exact ⟨rejects, discards, h.files⟩

theorem PlanOf.run {s : MailStore} {before : List Action} {p : Planning} (h : PlanOf s before p)
    (actions : List Action) : PlanOf s (before ++ actions) (actions.foldl planAction p) := by
  induction actions generalizing before p with
  | nil => simpa using h
  | cons action rest ih => simpa using ih (h.step action)

/-- A plan rejects the message by an action, has a folder for it, or discards it by an action. -/
theorem deliveryPlan_spec {s store : MailStore} {actions : List Action} {plan : DeliveryPlan}
    (h : deliveryPlan s actions = (plan, store)) :
    (∀ name, filesOf store.folders name = filesOf s.folders name) ∧
      (∀ reason, plan.reject = some reason → .reject reason ∈ actions) ∧
      (plan.reject = none → plan.folders = [] → .discard ∈ actions) := by
  have start : PlanOf s [] { folders := [], discarded := false, reject := none, store := s } :=
    ⟨nofun, nofun, fun _ => rfl⟩
  have kept := start.run actions
  unfold deliveryPlan at h
  simp only at h
  split at h
  · rename_i reason eq
    cases h
    exact ⟨kept.files, fun _ same => kept.rejects _ (eq.trans same), nofun⟩
  · cases h
    refine ⟨kept.files, nofun, fun _ empty => kept.discards ?_⟩
    simp only at empty
    split at empty
    · cases empty
    · rename_i cond
      simpa [empty] using cond

/-- The append that the delivery makes, if it makes one, succeeds. -/
def AppendsSucceed (host : Host) (draw : Draw) (mailbox : Mailbox) (message : List UInt8) : Prop :=
  ∀ evaluated plan store, evaluate host mailbox.scripts message = .ok evaluated →
    deliveryPlan mailbox.store evaluated = (plan, store) → plan.reject = none →
    plan.folders ≠ [] →
    (store.appendManyFolders (draw.targets plan.folders) (newMessage message)).2 = .ok ()

def Stored (draw : Draw) (message : List UInt8) (before after : MailStore) : Prop :=
  ∃ name new i, filesOf after.folders name = filesOf before.folders name ++ new ∧
    (newMessage message).stage (draw.base i) ∈ new

/-- The script compiled and discarded, rejected or redirected the message. -/
def Disposed (host : Host) (mailbox : Mailbox) (message : List UInt8) (envelope : Envelope)
    (sent : List (Submission × Bool)) : Prop :=
  ∃ source script, loadScript mailbox.scripts = .ok (some source) ∧ compile source = .ok script ∧
    (.discard ∈ actions host.decodeBase64 script message ∨
      (∃ reason, .reject reason ∈ actions host.decodeBase64 script message) ∨
      ∃ address, .redirect address ∈ actions host.decodeBase64 script message ∧
        ({ sender := envelope.sender, recipient := address, data := message }, true) ∈ sent)

/-- Where its append succeeds, the delivery stores the message or the script disposes of it. -/
def KeepsMail (host : Host) (sink : Option Sink) (draw : Draw) (mailbox : Mailbox)
    (message : List UInt8) (envelope : Envelope) : Prop :=
  AppendsSucceed host draw mailbox message →
    Stored draw message mailbox.store
        (deliverEnvelope host sink draw mailbox message envelope).mailbox.store ∨
      Disposed host mailbox message envelope
        (deliverEnvelope host sink draw mailbox message envelope).sent

theorem evaluate_error {host : Host} {scripts : ScriptArea} {message : List UInt8} :
    (evaluate host scripts message).isOk = (loadScript scripts).isOk := by
  unfold evaluate
  cases loadScript scripts with
  | error e => rfl
  | ok source =>
    cases source with
    | none => rfl
    | some source =>
      simp only [bind, Except.bind]
      cases compile source <;> rfl

theorem evaluate_mem {host : Host} {scripts : ScriptArea} {message : List UInt8}
    {evaluated : List Action} {action : Action} (h : evaluate host scripts message = .ok evaluated)
    (mem : action ∈ evaluated) :
    ∃ source script, loadScript scripts = .ok (some source) ∧ compile source = .ok script ∧
      evaluated = actions host.decodeBase64 script message := by
  unfold evaluate at h
  cases load : loadScript scripts with
  | error e =>
    rw [load] at h
    cases h
  | ok source =>
    rw [load] at h
    cases source with
    | none =>
      cases h
      cases mem
    | some source =>
      simp only [bind, Except.bind] at h
      cases compiled : compile source with
      | error e =>
        rw [compiled] at h
        cases h
        cases mem
      | ok script =>
        rw [compiled] at h
        cases h
        exact ⟨source, script, rfl, compiled, rfl⟩

theorem targets_of_ne_nil (draw : Draw) {folders : List String} (some : folders ≠ []) :
    ∃ target ∈ draw.targets folders, target.base = draw.base 0 := by
  obtain ⟨folder, rest, rfl⟩ := List.exists_cons_of_ne_nil some
  refine ⟨{ folder, base := draw.base 0, fresh := draw.fresh }, ?_, rfl⟩
  simp [Draw.targets]

section Delivery

variable (host : Host) (sink : Option Sink) (draw : Draw) (mailbox : Mailbox) (message : List UInt8)
  (envelope : Envelope)

theorem keepsMail_of_readable (readable : mailbox.scripts.Readable) :
    KeepsMail host sink draw mailbox message envelope := by
  intro succeed
  have loaded : (evaluate host mailbox.scripts message).isOk = true :=
    evaluate_error.trans ((loadScript_isOk _).mpr readable)
  unfold deliverEnvelope
  cases eval : evaluate host mailbox.scripts message with
  | error e =>
    rw [eval] at loaded
    cases loaded
  | ok evaluated =>
    simp only
    rcases planned : deliveryPlan mailbox.store evaluated with ⟨plan, store⟩
    obtain ⟨files, rejects, discards⟩ := deliveryPlan_spec planned
    simp only
    cases rejected : plan.reject with
    | some reason =>
      have mem := rejects reason rejected
      obtain ⟨source, script, load, compiled, rfl⟩ := evaluate_mem eval mem
      exact .inr ⟨source, script, load, compiled, .inr (.inl ⟨reason, mem⟩)⟩
    | none =>
      by_cases empty : plan.folders = []
      · have mem := discards rejected empty
        obtain ⟨source, script, load, compiled, rfl⟩ := evaluate_mem eval mem
        exact .inr ⟨source, script, load, compiled, .inl mem⟩
      · have appended := succeed evaluated plan store eval planned rejected empty
        have nonempty : plan.folders.isEmpty = false := by simpa using empty
        simp only [nonempty, Bool.false_eq_true, if_false]
        rcases run : store.appendManyFolders (draw.targets plan.folders) (newMessage message) with
          ⟨left, result⟩
        rw [run] at appended
        cases appended
        obtain ⟨target, mem, base⟩ := targets_of_ne_nil draw empty
        obtain ⟨name, new, grown, inside⟩ := appendManyFolders_files run mem
        rw [files name] at grown
        exact .inl ⟨name, new, 0, grown, base ▸ inside⟩

/-- The error of a script that cannot be loaded is passed on, and the message is nowhere. -/
theorem not_keepsMail (unreadable : ¬mailbox.scripts.Readable) :
    ¬KeepsMail host sink draw mailbox message envelope := by
  have failed : (loadScript mailbox.scripts).isOk = false := by
    rw [← Bool.not_eq_true, loadScript_isOk]
    exact unreadable
  intro keeps
  cases eval : evaluate host mailbox.scripts message with
  | ok evaluated =>
    have loaded := @evaluate_error host mailbox.scripts message
    rw [eval, failed] at loaded
    cases loaded
  | error e =>
    have unchanged : (deliverEnvelope host sink draw mailbox message envelope).mailbox =
        mailbox := by
      rw [deliverEnvelope, eval]
    have succeed : AppendsSucceed host draw mailbox message := by
      intro evaluated plan store ok
      rw [eval] at ok
      cases ok
    rcases keeps succeed with ⟨name, new, i, same, mem⟩ | ⟨source, script, load, -⟩
    · rw [unchanged, List.self_eq_append_right] at same
      rw [same] at mem
      cases mem
    · rw [load] at failed
      cases failed

end Delivery

/-- A delivery whose append succeeds stores the message or the script disposes of it, exactly where
the script area can be read: an active script of a valid name, or none and a file `.sieve` that is
not too long. -/
theorem mail_kept_iff_readable (host : Host) (sink : Option Sink) (draw : Draw) (mailbox : Mailbox)
    (message : List UInt8) (envelope : Envelope) :
    KeepsMail host sink draw mailbox message envelope ↔ mailbox.scripts.Readable := by
  constructor
  · intro keeps
    by_contra unreadable
    exact not_keepsMail host sink draw mailbox message envelope unreadable keeps
  · exact keepsMail_of_readable host sink draw mailbox message envelope

/-- A mailbox with an empty `INBOX` and a file `.sieve` of one byte more than the limit. -/
def oversizedMailbox : Mailbox :=
  { store := { folders := [(inbox, Folder.empty)], quota := none, usage := none }
    scripts :=
      { sieve := some (.file (List.replicate (maxScriptBytes + 1) 32)), active := none,
        scripts := [] }
    vacation := none }

theorem oversized_script_loses_mail :
    ¬∀ (host : Host) (sink : Option Sink) (draw : Draw) (mailbox : Mailbox) (message : List UInt8)
      (envelope : Envelope), KeepsMail host sink draw mailbox message envelope := by
  intro all
  have unreadable : ¬oversizedMailbox.scripts.Readable := by
    simp [oversizedMailbox, ScriptArea.Readable, SieveReadable]
  let host : Host :=
    { decodeBase64 := fun _ => none
      now := 0
      nowFits := by decide
      shuffle := { order := id, perm := fun _ => .refl _ }
      locks := true
      writes := true }
  let draw : Draw := { base := fun i => toString i, fresh := 1 }
  let envelope : Envelope := { sender := "a@example.com", recipient := "b@example.com" }
  exact not_keepsMail host none draw oversizedMailbox (bytes "Subject: hi\r\n\r\nbody\r\n") envelope
    unreadable (all _ _ _ _ _ _)

end MailStack.Sieve
