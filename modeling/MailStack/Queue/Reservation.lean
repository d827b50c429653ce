import MailStack.Lib.Machine
import MailStack.Queue.Runner

/-! Calls of `enqueue_new` that run at the same time over one queue directory. The reservation of an
id keeps others from it until the entry is written; the clean-up after a failed write comes
later. -/

namespace MailStack.Queue

open Lib

/-- What a call of `enqueue_new` does next, with the attempts that are left. -/
inductive EnqueueStage
  | reserve (left : Nat)
  | probe (left : Nat)
  | withdraw (left : Nat)
  | write
  | release (result : Except QueueError Unit)
  | cleanUp (error : QueueError)
  | returned (result : Except QueueError Unit)

structure EnqueueCall where
  entry : QueueEntry
  stage : EnqueueStage

structure Submissions (C : Type) where
  store : QueueStore
  calls : C → Option EnqueueCall

/-- What the system does to a call: the error of a file that cannot be created or written, the next
id that is drawn, and whether a file that is to be removed is. -/
structure Chance where
  fault : Option String
  fresh : String
  removed : Bool

inductive EnqueueStep (C : Type)
  | call (caller : C) (entry : QueueEntry)
  | advance (caller : C) (chance : Chance)

def reservationPath (id : String) : String := "." ++ id ++ ".json.reserve"

namespace QueueStore

def reserve (store : QueueStore) (id : String) : QueueStore :=
  { store with reserved := Function.update store.reserved id true }

def unreserve (store : QueueStore) (id : String) (removed : Bool) : QueueStore :=
  if removed then { store with reserved := Function.update store.reserved id false } else store

def unlink (store : QueueStore) (id : String) (removed : Bool) : QueueStore :=
  if removed then { store with entries := Function.update store.entries id none } else store

variable {store : QueueStore} {id : String} {removed : Bool} {other : String}

@[simp] theorem unreserve_entries : (store.unreserve id removed).entries = store.entries := by
  unfold unreserve
  split
  · rfl
  · rfl

@[simp] theorem unlink_reserved : (store.unlink id removed).reserved = store.reserved := by
  unfold unlink
  split
  · rfl
  · rfl

theorem reserve_reserved_of (h : store.reserved id = true) :
    (store.reserve other).reserved id = true := by
  by_cases same : id = other
  · subst same
    exact Function.update_self ..
  · exact (Function.update_of_ne same ..).trans h

theorem unreserve_reserved_of (h : store.reserved id = true) (ne : id ≠ other) :
    (store.unreserve other removed).reserved id = true := by
  unfold unreserve
  split
  · exact (Function.update_of_ne ne ..).trans h
  · exact h

theorem unlink_entries_of (h : removed = true → store.entries id = none) :
    (store.unlink id removed).entries = store.entries := by
  unfold unlink
  split
  · rename_i gone
    exact (Function.update_eq_self_iff ..).mpr (h gone).symm
  · rfl

end QueueStore

namespace EnqueueCall

def Holds (call : EnqueueCall) : Prop :=
  match call.stage with
  | .probe _ | .withdraw _ | .write | .release _ => True
  | _ => False

/-- The call has written its entry: it returns `Ok`, if it has not done so. -/
def Written (call : EnqueueCall) : Prop :=
  call.stage = .release (.ok ()) ∨ call.stage = .returned (.ok ())

/-- No entry is stored under the id of the call while it holds that. -/
def Clear (call : EnqueueCall) : Prop :=
  call.stage = .write ∨ ∃ error, call.stage = .release (.error error)

end EnqueueCall

namespace Submissions

variable {C : Type} [DecidableEq C]

def start (store : QueueStore) : Submissions C := { store, calls := fun _ => none }

def set (s : Submissions C) (caller : C) (store : QueueStore) (call : EnqueueCall) :
    Submissions C :=
  { store, calls := Function.update s.calls caller (some call) }

/-- The next operation of a call on the directory. -/
def advance (s : Submissions C) (caller : C) (call : EnqueueCall) (chance : Chance) :
    Option (Submissions C) :=
  let stay := s.set caller s.store
  match call.stage with
  | .reserve 0 =>
    some (stay { call with
      stage := .returned (.error (.invalid
        ("queue id collision persisted after 5 attempts (entry " ++ call.entry.id ++ ")"))) })
  | .reserve (left + 1) =>
    if !isSafeId call.entry.id then
      some (stay { call with stage := .returned (.error (unsafeId call.entry.id)) })
    else if s.store.reserved call.entry.id then
      some (stay { entry := { call.entry with id := chance.fresh }, stage := .reserve left })
    else
      match chance.fault with
      | some message =>
        some (stay { call with
          stage := .returned (.error (.io (reservationPath call.entry.id) message)) })
      | none => some (s.set caller (s.store.reserve call.entry.id) { call with stage := .probe left })
  | .probe left =>
    if (s.store.entries call.entry.id).isSome then some (stay { call with stage := .withdraw left })
    else some (stay { call with stage := .write })
  | .withdraw left =>
    some (s.set caller (s.store.unreserve call.entry.id chance.removed)
      { entry := { call.entry with id := chance.fresh }, stage := .reserve left })
  | .write =>
    match chance.fault with
    | some message => some (stay { call with stage := .release (.error (.storage message)) })
    | none => some (s.set caller (s.store.put call.entry) { call with stage := .release (.ok ()) })
  | .release result =>
    some (s.set caller (s.store.unreserve call.entry.id chance.removed)
      { call with
        stage := match result with
          | .ok () => .returned (.ok ())
          | .error error => .cleanUp error })
  | .cleanUp error =>
    some (s.set caller (s.store.unlink call.entry.id chance.removed)
      { call with stage := .returned (.error error) })
  | .returned _ => none

def step (s : Submissions C) : EnqueueStep C → Option (Submissions C)
  | .call caller entry =>
    match s.calls caller with
    | some _ => none
    | none =>
      some (s.set caller s.store
        { entry
          stage := match entry.validate with
            | .ok () => .reserve enqueueNewAttempts
            | .error error => .returned (.error error) })
  | .advance caller chance => (s.calls caller).bind fun call => s.advance caller call chance

/-- No clean-up finds an entry under the id of the call whose write failed. -/
def Spares (s : Submissions C) (step : EnqueueStep C) : Prop :=
  ∀ caller chance call error, step = .advance caller chance → s.calls caller = some call →
    call.stage = .cleanUp error → chance.removed = true → s.store.entries call.entry.id = none

/-- Each call that has returned `Ok` has its entry in the store, and no two of them under one id. -/
structure Kept (s : Submissions C) : Prop where
  stored : ∀ caller call, s.calls caller = some call → call.stage = .returned (.ok ()) →
    s.store.entries call.entry.id = some call.entry
  once : ∀ c d a b, s.calls c = some a → s.calls d = some b → a.stage = .returned (.ok ()) →
    b.stage = .returned (.ok ()) → a.entry.id = b.entry.id → c = d

/-- An id is reserved for one call at a time, and nobody else writes its entry meanwhile. -/
structure Inv (s : Submissions C) : Prop where
  held : ∀ c a, s.calls c = some a → a.Holds → s.store.reserved a.entry.id = true
  alone : ∀ c d a b, s.calls c = some a → s.calls d = some b → a.Holds → b.Holds →
    a.entry.id = b.entry.id → c = d
  clear : ∀ c a, s.calls c = some a → a.Clear → s.store.entries a.entry.id = none
  stored : ∀ c a, s.calls c = some a → a.Written → s.store.entries a.entry.id = some a.entry
  once : ∀ c d a b, s.calls c = some a → s.calls d = some b → a.Written → b.Written →
    a.entry.id = b.entry.id → c = d
  others : ∀ c a error, s.calls c = some a → a.stage = .cleanUp error →
    s.store.entries a.entry.id ≠ none → ∃ d b,
      s.calls d = some b ∧ b.Written ∧ b.entry.id = a.entry.id

variable {s s' : Submissions C} {store : QueueStore} {caller : C} {call : EnqueueCall}
  {step : EnqueueStep C}

omit [DecidableEq C] in
theorem inv_start : Inv (start store : Submissions C) where
  held c a found := by cases found
  alone c d a b found := by cases found
  clear c a found := by cases found
  stored c a found := by cases found
  once c d a b found := by cases found
  others c a error found := by cases found

theorem calls_set {d : C} {b : EnqueueCall} (found : (s.set caller store call).calls d = some b) :
    d = caller ∧ b = call ∨ d ≠ caller ∧ s.calls d = some b := by
  by_cases same : d = caller
  · subst same
    have here : (s.set d store call).calls d = some call := Function.update_self ..
    rw [here] at found
    exact .inl ⟨rfl, (Option.some.inj found).symm⟩
  · have there : (s.set caller store call).calls d = s.calls d := Function.update_of_ne same ..
    exact .inr ⟨same, there ▸ found⟩

/-- A call takes a step: what the directory then says about the other calls, and what it says about
this one. -/
theorem Inv.set (h : Inv s)
    (held : ∀ d b, d ≠ caller → s.calls d = some b → b.Holds → store.reserved b.entry.id = true)
    (clear : ∀ d b, d ≠ caller → s.calls d = some b → b.Clear → store.entries b.entry.id = none)
    (stored : ∀ d b, d ≠ caller → s.calls d = some b → b.Written →
      store.entries b.entry.id = some b.entry)
    (entries : ∀ id, store.entries id ≠ none →
      s.store.entries id ≠ none ∨ call.Written ∧ call.entry.id = id)
    (writtenOld : ∀ a, s.calls caller = some a → a.Written → call.Written ∧ call.entry = a.entry)
    (holds : call.Holds → store.reserved call.entry.id = true ∧
      ∀ d b, d ≠ caller → s.calls d = some b → b.Holds → b.entry.id ≠ call.entry.id)
    (cleared : call.Clear → store.entries call.entry.id = none)
    (written : call.Written → store.entries call.entry.id = some call.entry ∧
      ∀ d b, d ≠ caller → s.calls d = some b → b.Written → b.entry.id ≠ call.entry.id)
    (cleaning : ∀ error, call.stage = .cleanUp error → store.entries call.entry.id = none) :
    Inv (s.set caller store call) where
  held c a found hold := by
    obtain ⟨rfl, rfl⟩ | ⟨other, found⟩ := calls_set found
    · exact (holds hold).1
    · exact held c a other found hold
  alone c d a b foundC foundD holdA holdB same := by
    obtain ⟨rfl, rfl⟩ | ⟨otherC, oldC⟩ := calls_set foundC
    · obtain ⟨rfl, rfl⟩ | ⟨otherD, oldD⟩ := calls_set foundD
      · rfl
      · exact absurd same.symm ((holds holdA).2 d b otherD oldD holdB)
    · obtain ⟨rfl, rfl⟩ | ⟨otherD, oldD⟩ := calls_set foundD
      · exact absurd same ((holds holdB).2 c a otherC oldC holdA)
      · exact h.alone c d a b oldC oldD holdA holdB same
  clear c a found isClear := by
    obtain ⟨rfl, rfl⟩ | ⟨other, found⟩ := calls_set found
    · exact cleared isClear
    · exact clear c a other found isClear
  stored c a found isWritten := by
    obtain ⟨rfl, rfl⟩ | ⟨other, found⟩ := calls_set found
    · exact (written isWritten).1
    · exact stored c a other found isWritten
  once c d a b foundC foundD writtenA writtenB same := by
    obtain ⟨rfl, rfl⟩ | ⟨otherC, oldC⟩ := calls_set foundC
    · obtain ⟨rfl, rfl⟩ | ⟨otherD, oldD⟩ := calls_set foundD
      · rfl
      · exact absurd same.symm ((written writtenA).2 d b otherD oldD writtenB)
    · obtain ⟨rfl, rfl⟩ | ⟨otherD, oldD⟩ := calls_set foundD
      · exact absurd same ((written writtenB).2 c a otherC oldC writtenA)
      · exact h.once c d a b oldC oldD writtenA writtenB same
  others c a error found cleaningUp there := by
    have present : store.entries a.entry.id ≠ none := there
    obtain ⟨rfl, rfl⟩ | ⟨other, found⟩ := calls_set found
    · exact absurd (cleaning error cleaningUp) present
    · have here : (s.set caller store call).calls caller = some call := Function.update_self ..
      rcases entries _ present with old | ⟨isWritten, same⟩
      · obtain ⟨d, b, foundB, writtenB, sameId⟩ := h.others c a error found cleaningUp old
        by_cases same : d = caller
        · subst same
          obtain ⟨isWritten, eq⟩ := writtenOld b foundB writtenB
          exact ⟨d, call, here, isWritten, eq ▸ sameId⟩
        · exact ⟨d, b, (Function.update_of_ne same ..).trans foundB, writtenB, sameId⟩
      · exact ⟨caller, call, here, isWritten, same⟩

/-- A call takes a step that leaves the entries as they are, and no reservation of another call is
gone. -/
theorem Inv.stay (h : Inv s) (same : store.entries = s.store.entries)
    (held : ∀ d b, d ≠ caller → s.calls d = some b → b.Holds → store.reserved b.entry.id = true)
    (writtenOld : ∀ a, s.calls caller = some a → a.Written → call.Written ∧ call.entry = a.entry)
    (holds : call.Holds → store.reserved call.entry.id = true ∧
      ∀ d b, d ≠ caller → s.calls d = some b → b.Holds → b.entry.id ≠ call.entry.id)
    (cleared : call.Clear → s.store.entries call.entry.id = none)
    (written : call.Written → ∃ a, s.calls caller = some a ∧ a.Written ∧ a.entry = call.entry)
    (cleaning : ∀ error, call.stage = .cleanUp error → s.store.entries call.entry.id = none) :
    Inv (s.set caller store call) := by
  refine h.set held (fun d b _ found isClear => ?_) (fun d b _ found isWritten => ?_)
    (fun id there => .inl (same ▸ there)) writtenOld holds (fun isClear => ?_)
    (fun isWritten => ?_) fun error cleaningUp => ?_
  · rw [same]
    exact h.clear d b found isClear
  · rw [same]
    exact h.stored d b found isWritten
  · rw [same]
    exact cleared isClear
  · obtain ⟨a, found, writtenA, eq⟩ := written isWritten
    rw [same, ← eq]
    exact ⟨h.stored caller a found writtenA, fun d b other foundB writtenB sameId =>
      other (h.once d caller b a foundB found writtenB writtenA sameId)⟩
  · rw [same]
    exact cleaning error cleaningUp

/-- What a call is about to do when it has neither the reservation nor a file. -/
def Idle (call : EnqueueCall) : Prop :=
  ¬call.Holds ∧ ¬call.Written ∧ ∀ error, call.stage ≠ .cleanUp error

theorem not_clear_of_not_holds (h : ¬call.Holds) : ¬call.Clear := by
  rintro (stage | ⟨error, stage⟩)
  · exact h (by rw [EnqueueCall.Holds, stage]; trivial)
  · exact h (by rw [EnqueueCall.Holds, stage]; trivial)

theorem Inv.idle (h : Inv s) (idle : Idle call)
    (unwritten : ∀ a, s.calls caller = some a → ¬a.Written)
    (same : store.entries = s.store.entries)
    (held : ∀ d b, d ≠ caller → s.calls d = some b → b.Holds → store.reserved b.entry.id = true) :
    Inv (s.set caller store call) :=
  h.stay same held (fun a found isWritten => absurd isWritten (unwritten a found))
    (fun holds => absurd holds idle.1)
      (fun isClear => absurd isClear (not_clear_of_not_holds idle.1))
    (fun isWritten => absurd isWritten idle.2.1) fun error stage => absurd stage (idle.2.2 error)

theorem holds_of_clear (h : call.Clear) : call.Holds := by
  by_contra free
  exact not_clear_of_not_holds free h

section

omit [DecidableEq C]

variable (h : Inv s) (found : s.calls caller = some call)

include h found

theorem Inv.others_ne (holds : call.Holds) :
    ∀ d b, d ≠ caller → s.calls d = some b → b.Holds → b.entry.id ≠ call.entry.id :=
  fun d b other foundB holdsB same => other (h.alone d caller b call foundB found holdsB holds same)

theorem Inv.held_unreserve (holds : call.Holds) {removed : Bool} :
    ∀ d b, d ≠ caller → s.calls d = some b → b.Holds →
      (s.store.unreserve call.entry.id removed).reserved b.entry.id = true :=
  fun d b other foundB holdsB => QueueStore.unreserve_reserved_of (h.held d b foundB holdsB)
    (h.others_ne found holds d b other foundB holdsB)

omit h in
theorem unwritten (no : ¬call.Written) : ∀ a, s.calls caller = some a → ¬a.Written := by
  intro a foundA
  rw [found] at foundA
  rwa [← Option.some.inj foundA]

end

theorem Inv.holding (h : Inv s) {entry : QueueEntry} {stage stage' : EnqueueStage}
    (found : s.calls caller = some ⟨entry, stage⟩)
    (holds : (⟨entry, stage⟩ : EnqueueCall).Holds) (no : ¬(⟨entry, stage⟩ : EnqueueCall).Written)
    (cleared : (⟨entry, stage'⟩ : EnqueueCall).Clear → s.store.entries entry.id = none)
    (no' : ¬(⟨entry, stage'⟩ : EnqueueCall).Written) (cleaning : ∀ error, stage' ≠ .cleanUp error) :
    Inv (s.set caller s.store ⟨entry, stage'⟩) := by
  have mine := h.held caller _ found holds
  have others := h.others_ne found holds
  exact h.stay rfl (fun d b _ foundB => h.held d b foundB)
    (fun a foundA isWritten => absurd isWritten (unwritten found no a foundA))
    (fun _ => ⟨mine, others⟩) cleared (fun isWritten => absurd isWritten no')
    fun error stage => absurd stage (cleaning error)

theorem inv_advance (h : Inv s) (found : s.calls caller = some call) {chance : Chance}
    (spares : s.Spares (.advance caller chance))
    (advanced : s.advance caller call chance = some s') : Inv s' := by
  have held := fun d b (_ : d ≠ caller) foundB => h.held d b foundB
  obtain ⟨entry, stage⟩ := call
  cases stage with
  | reserve left =>
    have none := unwritten found (by simp [EnqueueCall.Written])
    cases left with
    | zero =>
      obtain rfl := Option.some.inj advanced
      exact h.idle (by simp [Idle, EnqueueCall.Holds, EnqueueCall.Written]) none rfl held
    | succ left =>
      simp only [advance] at advanced
      split at advanced
      · obtain rfl := Option.some.inj advanced
        exact h.idle (by simp [Idle, EnqueueCall.Holds, EnqueueCall.Written]) none rfl held
      · split at advanced
        · obtain rfl := Option.some.inj advanced
          exact h.idle (by simp [Idle, EnqueueCall.Holds, EnqueueCall.Written]) none rfl held
        · rename_i free
          split at advanced
          · obtain rfl := Option.some.inj advanced
            exact h.idle (by simp [Idle, EnqueueCall.Holds, EnqueueCall.Written]) none rfl held
          · obtain rfl := Option.some.inj advanced
            refine h.stay rfl
              (fun d b _ foundB holdsB => QueueStore.reserve_reserved_of (h.held d b foundB holdsB))
              (fun a foundA isWritten => absurd isWritten (none a foundA))
              (fun _ => ⟨Function.update_self .., fun d b _ foundB holdsB same => free ?_⟩)
              (by simp [EnqueueCall.Clear]) (by simp [EnqueueCall.Written])
              (fun error stage => by cases stage)
            exact same ▸ h.held d b foundB holdsB
  | probe left =>
    simp only [advance] at advanced
    split at advanced
    · obtain rfl := Option.some.inj advanced
      exact h.holding found trivial (by simp [EnqueueCall.Written]) (by simp [EnqueueCall.Clear])
        (by simp [EnqueueCall.Written]) fun error stage => by cases stage
    · rename_i absent
      obtain rfl := Option.some.inj advanced
      exact h.holding found trivial (by simp [EnqueueCall.Written])
        (fun _ => by simpa using absent) (by simp [EnqueueCall.Written])
        fun error stage => by cases stage
  | withdraw left =>
    obtain rfl := Option.some.inj advanced
    exact h.idle (by simp [Idle, EnqueueCall.Holds, EnqueueCall.Written])
      (unwritten found (by simp [EnqueueCall.Written])) QueueStore.unreserve_entries
      (h.held_unreserve found trivial)
  | write =>
    have absent : s.store.entries entry.id = none := h.clear caller _ found (.inl rfl)
    simp only [advance] at advanced
    split at advanced
    · obtain rfl := Option.some.inj advanced
      exact h.holding found trivial (by simp [EnqueueCall.Written]) (fun _ => absent)
        (by simp [EnqueueCall.Written]) fun error stage => by cases stage
    · obtain rfl := Option.some.inj advanced
      have mine := h.held caller _ found trivial
      have others := h.others_ne found trivial
      have kept : ∀ id, id ≠ entry.id → (s.store.put entry).entries id = s.store.entries id :=
        fun id ne => Function.update_of_ne ne ..
      have othersWritten : ∀ d b, s.calls d = some b → b.Written → b.entry.id ≠ entry.id := by
        intro d b foundB writtenB same
        have present := h.stored d b foundB writtenB
        rw [same, absent] at present
        cases present
      refine h.set held (fun d b other foundB clearB => ?_) (fun d b _ foundB writtenB => ?_)
        (fun id there => ?_) (fun a foundA isWritten => ?_) (fun _ => ⟨mine, others⟩)
        (fun isClear => ?_) (fun _ => ⟨Function.update_self .., fun d b _ => othersWritten d b⟩)
        fun error stage => by cases stage
      · rw [kept _ (others d b other foundB (holds_of_clear clearB))]
        exact h.clear d b foundB clearB
      · rw [kept _ (othersWritten d b foundB writtenB)]
        exact h.stored d b foundB writtenB
      · by_cases same : id = entry.id
        · exact .inr ⟨.inl rfl, same.symm⟩
        · exact .inl (kept id same ▸ there)
      · exact absurd isWritten (unwritten found (by simp [EnqueueCall.Written]) a foundA)
      · simp [EnqueueCall.Clear] at isClear
  | release result =>
    obtain rfl := Option.some.inj advanced
    have held := @Inv.held_unreserve _ _ _ _ h found trivial chance.removed
    cases result with
    | ok _ =>
      refine h.stay QueueStore.unreserve_entries held (fun a foundA _ => ?_)
        (fun holds => absurd holds (by simp [EnqueueCall.Holds])) (by simp [EnqueueCall.Clear])
        (fun _ => ⟨_, found, .inl rfl, rfl⟩) fun error stage => by cases stage
      rw [found] at foundA
      exact ⟨.inr rfl, by rw [← Option.some.inj foundA]⟩
    | error error =>
      have absent := h.clear caller _ found (.inr ⟨error, rfl⟩)
      exact h.stay QueueStore.unreserve_entries held
        (fun a foundA isWritten => absurd isWritten
          (unwritten found (by simp [EnqueueCall.Written]) a foundA))
        (fun holds => absurd holds (by simp [EnqueueCall.Holds])) (by simp [EnqueueCall.Clear])
        (by simp [EnqueueCall.Written]) fun _ _ => absent
  | cleanUp error =>
    obtain rfl := Option.some.inj advanced
    have same := QueueStore.unlink_entries_of (spares caller chance _ error rfl found rfl)
    exact h.idle (by simp [Idle, EnqueueCall.Holds, EnqueueCall.Written])
      (unwritten found (by simp [EnqueueCall.Written])) same fun d b _ foundB holdsB => by
        rw [QueueStore.unlink_reserved]
        exact h.held d b foundB holdsB
  | returned result => cases advanced

theorem inv_step (h : Inv s) (spares : s.Spares step)
    (stepped : s.step step = some s') : Inv s' := by
  cases step with
  | call caller entry =>
    cases found : s.calls caller with
    | some call =>
      simp only [Submissions.step, found] at stepped
      cases stepped
    | none =>
      simp only [Submissions.step, found] at stepped
      obtain rfl := Option.some.inj stepped
      refine h.idle ?_ (fun a foundA => ?_) rfl fun d b _ foundB => h.held d b foundB
      · cases entry.validate with
        | ok _ => simp [Idle, EnqueueCall.Holds, EnqueueCall.Written]
        | error error => simp [Idle, EnqueueCall.Holds, EnqueueCall.Written]
      · rw [found] at foundA
        cases foundA
  | advance caller chance =>
    obtain ⟨call, found, advanced⟩ := Option.bind_eq_some_iff.mp stepped
    exact inv_advance h found spares advanced

omit [DecidableEq C] in
theorem Inv.kept (h : Inv s) : s.Kept :=
  ⟨fun caller call found returned => h.stored caller call found (.inr returned),
    fun c d a b foundC foundD returnedA returnedB =>
      h.once c d a b foundC foundD (.inr returnedA) (.inr returnedB)⟩

/-- A clean-up that finds an entry deletes that of a call that has returned `Ok` or is about to. -/
theorem lost_of_not_spares (h : Inv s) (harms : ¬s.Spares step)
    (stepped : s.step step = some s') :
    ∃ steps s'', Reaches Submissions.step s' steps s'' ∧ ¬s''.Kept := by
  simp only [Spares, not_forall] at harms
  obtain ⟨caller, chance, call, error, rfl, found, cleaning, removed, present⟩ := harms
  obtain ⟨d, b, foundB, isWritten, same⟩ := h.others caller call error found cleaning present
  have other : d ≠ caller := by
    rintro rfl
    rw [found] at foundB
    obtain rfl := Option.some.inj foundB
    rcases isWritten with stage | stage
    · rw [cleaning] at stage
      cases stage
    · rw [cleaning] at stage
      cases stage
  obtain ⟨call', found', advanced⟩ := Option.bind_eq_some_iff.mp stepped
  obtain rfl := Option.some.inj (found.symm.trans found')
  have eq : s' = s.set caller (s.store.unlink call.entry.id true)
      { call with stage := .returned (.error error) } := by
    rw [advance, cleaning, removed] at advanced
    exact (Option.some.inj advanced).symm
  have gone : s'.store.entries b.entry.id = none := by
    rw [eq, same]
    exact Function.update_self ..
  have still : s'.calls d = some b := by
    rw [eq]
    exact (Function.update_of_ne other ..).trans foundB
  rcases isWritten with stage | stage
  · have moved : s'.step (.advance d ⟨none, "", false⟩) =
        some (s'.set d s'.store { b with stage := .returned (.ok ()) }) := by
      simp only [Submissions.step, still, Option.bind_some, advance, stage]
      rfl
    refine ⟨_, _, .snoc (.nil s') trivial moved, fun kept => ?_⟩
    have lost := gone.symm.trans
      (kept.stored d { b with stage := .returned (.ok ()) } (Function.update_self ..) rfl)
    cases lost
  · refine ⟨[], _, .nil _, fun kept => ?_⟩
    have lost := gone.symm.trans (kept.stored d b still stage)
    cases lost

/-- As long as no clean-up finds an entry, the calls that returned `Ok` have their own entries in
the store, each under an id of its own; the first clean-up that finds one loses it. -/
theorem accepted_entries_kept {steps : List (EnqueueStep C)}
    (run : Runs Submissions.step Spares (start store) steps s) :
    s.Kept ∧ ∀ step s', s.step step = some s' → ¬s.Spares step →
      ∃ steps s'', Reaches Submissions.step s' steps s'' ∧ ¬s''.Kept := by
  have inv : Inv s :=
    run.invariant inv_start fun _ _ _ h spares stepped => inv_step h spares stepped
  exact ⟨inv.kept, fun _ _ stepped harms => lost_of_not_spares inv harms stepped⟩

private def greeting : QueueEntry :=
  .draft "A" "2024-01-01T00:00:00Z" .outbound "a@example.com" ["b@example.net"] "Hello" 0

private def reply : QueueEntry :=
  .draft "A" "2024-01-01T00:00:00Z" .outbound "b@example.com" ["a@example.net"] "Hi" 0

private def fine : Chance := { fault := none, fresh := "B", removed := true }

private def full : Chance := { fine with fault := some "no space left on device" }

private def emptyQueue : QueueStore :=
  { entries := fun _ => none, reserved := fun _ => false, claims := fun _ => none }

/-- The second call comes after the first one is through, and gets another id. -/
private def inTurn : List (EnqueueStep Bool) :=
  [.call false greeting, .advance false fine, .advance false fine, .advance false fine,
    .advance false fine, .call true reply, .advance true fine, .advance true fine,
    .advance true fine, .advance true fine, .advance true fine, .advance true fine,
    .advance true fine]

/-- The first call gives up its reservation, the second one is through, and the first one cleans
up. -/
private def crossed : List (EnqueueStep Bool) :=
  [.call false greeting, .advance false fine, .advance false fine, .advance false full,
    .advance false fine, .call true reply, .advance true fine, .advance true fine,
    .advance true fine, .advance true fine, .advance false fine]

private def noCleanUp (s : Submissions Bool) : EnqueueStep Bool → Bool
  | .call .. => true
  | .advance caller _ =>
    match (s.calls caller).map EnqueueCall.stage with
    | some (.cleanUp _) => false
    | _ => true

private theorem spares_of_noCleanUp (s : Submissions Bool) (step : EnqueueStep Bool)
    (h : noCleanUp s step = true) : s.Spares step := by
  rintro caller chance call error rfl found stage -
  simp only [noCleanUp, found, Option.map_some, stage] at h
  cases h

theorem accepted_entries_kept_in_turn : ∃ s : Submissions Bool,
    exec Submissions.step (start emptyQueue) inTurn = some s ∧
      s.store.entries "A" = some greeting ∧ s.store.entries "B" = some { reply with id := "B" } ∧
        s.Kept := by
  have run : Runs Submissions.step Spares (start emptyQueue) inTurn _ :=
    runs_of_checkedExec spares_of_noCleanUp rfl
  exact ⟨_, rfl, by decide +kernel, by decide +kernel, (accepted_entries_kept run).1⟩

/-- An entry that was accepted is deleted by a call that failed. -/
theorem failed_call_deletes_accepted : ∃ s : Submissions Bool,
    Reaches Submissions.step (start emptyQueue) crossed s ∧
      s.calls true = some ⟨reply, .returned (.ok ())⟩ ∧ s.store.entries "A" = none ∧ ¬s.Kept := by
  refine ⟨_, reaches_of_exec rfl, rfl, by decide +kernel, fun kept => ?_⟩
  have there := kept.stored true ⟨reply, .returned (.ok ())⟩ rfl rfl
  revert there
  decide +kernel

end Submissions

end MailStack.Queue
