import MailStack.Sieve.NoLoss
import Mathlib.Data.List.Pairwise

/-! Whether the folders that a message is delivered to are different mailboxes. -/

namespace MailStack.Sieve

open Lib Maildir

/-! ### Plans for any outcome -/

abbrev Attempt := Action × Bool

/-- The folder exists, or it is to be created and that goes well. `INBOX` is never created. -/
def ensureIn (existing : List String) (folder : String) (create goesWell : Bool) :
    Bool × List String :=
  match normalizeFolderName folder with
  | .error _ => (false, existing)
  | .ok normalized =>
    if existing.contains normalized then (true, existing)
    else if create && normalized ≠ inbox && goesWell then (true, existing ++ [normalized])
    else (false, existing)

/-- The variables of `delivery_plan`, and the folders that exist. -/
structure SitePlanning where
  folders : List String
  discarded : Bool
  reject : Option String
  existing : List String

def planAttempt (p : SitePlanning) : Attempt → SitePlanning
  | (.keep, _) => { p with folders := pushUnique p.folders inbox }
  | (.fileInto folder create, goesWell) =>
    let (ensured, existing) := ensureIn p.existing folder create goesWell
    { p with existing, folders := pushUnique p.folders (if ensured then folder else inbox) }
  | (.discard, _) => { p with discarded := true }
  | (.reject reason, _) => { p with reject := some reason }
  | (.redirect _, _) | (.vacation _ _ _, _) => p

/-- The plan, for folders that exist and any outcome of creating others. -/
def planAttempts (existing : List String) (attempts : List Attempt) : DeliveryPlan :=
  let p := attempts.foldl planAttempt { folders := [], discarded := false, reject := none, existing }
  match p.reject with
  | some reason => { folders := [], reject := some reason }
  | none =>
    { folders := if p.folders.isEmpty && !p.discarded then [inbox] else p.folders, reject := none }

/-! ### Copies -/

/-- No folder is named twice, in whatever spelling. -/
def OneCopy (folders : List String) : Prop :=
  folders.Pairwise fun a b => normalizeFolderName a ≠ normalizeFolderName b

instance (folders : List String) : Decidable (OneCopy folders) :=
  inferInstanceAs (Decidable (List.Pairwise _ _))

variable {existing : List String} {before attempts : List Attempt} {name : String}
  {list : List String} {now : List String}

def Made (attempts : List Attempt) (name : String) : Prop :=
  name ≠ inbox ∧ normalizeFolderName name = .ok name ∧ (.fileInto name true, true) ∈ attempts

def Available (existing : List String) (attempts : List Attempt) (folder : String) : Prop :=
  ∃ name, normalizeFolderName folder = .ok name ∧ (name ∈ existing ∨ Made attempts name)

/-- How the actions spell `INBOX`: by the name itself, where they keep or the folder is missing, and
as a script has it. -/
inductive Spelled (existing : List String) (attempts : List Attempt) : String → Prop
  | keep {goesWell : Bool} (mem : (.keep, goesWell) ∈ attempts) : Spelled existing attempts inbox
  | missing {before after : List Attempt} {folder : String} {create goesWell : Bool}
      (split : attempts = before ++ (.fileInto folder create, goesWell) :: after)
      (missing : ¬Available existing (before ++ [(.fileInto folder create, goesWell)]) folder) :
      Spelled existing attempts inbox
  | named {folder : String} {create goesWell : Bool}
      (mem : (.fileInto folder create, goesWell) ∈ attempts) (spelled : isInbox folder = true)
      (present : inbox ∈ existing) : Spelled existing attempts folder

/-! ### Names that are pushed -/

theorem mem_pushUnique {value : String} :
    name ∈ pushUnique list value ↔ name ∈ list ∨ name = value := by
  unfold pushUnique
  split
  next inside =>
    constructor
    · exact .inl
    · rintro (mem | rfl)
      · exact mem
      · exact List.contains_iff_mem.mp inside
  next => rw [List.mem_append, List.mem_singleton]

theorem nodup_pushUnique (nodup : list.Nodup) (value : String) :
    (pushUnique list value).Nodup := by
  unfold pushUnique
  split
  · exact nodup
  next outside =>
    refine List.nodup_append.mpr ⟨nodup, List.nodup_singleton _, ?_⟩
    rintro a mem b same rfl
    rw [List.mem_singleton.mp same] at mem
    exact outside (List.contains_iff_mem.mpr mem)

/-! ### Folders that are there -/

theorem Made.mono (made : Made before name) (more : List Attempt) : Made (before ++ more) name :=
  ⟨made.1, made.2.1, List.mem_append_left _ made.2.2⟩

variable {attempt : Attempt}

theorem Made.of_concat (made : Made (before ++ [attempt]) name) :
    Made before name ∨ attempt = (.fileInto name true, true) := by
  obtain ⟨other, normal, mem⟩ := made
  rcases List.mem_append.mp mem with mem | mem
  · exact .inl ⟨other, normal, mem⟩
  · exact .inr (List.mem_singleton.mp mem).symm

/-- The folders are those that were there and those that were created. -/
def Tracks (existing : List String) (before : List Attempt) (now : List String) : Prop :=
  ∀ name, name ∈ now ↔ name ∈ existing ∨ Made before name

theorem Tracks.skip (tracks : Tracks existing before now)
    (other : ∀ name, attempt ≠ (.fileInto name true, true)) :
    Tracks existing (before ++ [attempt]) now := by
  intro name
  rw [tracks name]
  refine or_congr_right ⟨fun made => made.mono _, fun made => ?_⟩
  exact made.of_concat.resolve_right (other name)

/-- A folder is ensured exactly where it is there afterwards. -/
theorem Tracks.ensure (tracks : Tracks existing before now) (folder : String)
    (create goesWell : Bool) :
    Tracks existing (before ++ [(.fileInto folder create, goesWell)])
        (ensureIn now folder create goesWell).2 ∧
      ((ensureIn now folder create goesWell).1 = true ↔
        Available existing (before ++ [(.fileInto folder create, goesWell)]) folder) := by
  unfold ensureIn
  cases normal : normalizeFolderName folder with
  | error error =>
    refine ⟨fun name => ?_, ⟨(fun h => by cases h), ?_⟩⟩
    · rw [tracks name]
      refine or_congr_right ⟨fun made => made.mono _, fun made => ?_⟩
      refine made.of_concat.resolve_right fun same => ?_
      cases same
      rw [made.2.1] at normal
      cases normal
    · rintro ⟨name, eq, -⟩
      rw [normal] at eq
      cases eq
  | ok normalized =>
    dsimp only
    have known (present : normalized ∈ now) :
        Available existing (before ++ [(.fileInto folder create, goesWell)]) folder :=
      ⟨normalized, normal, ((tracks normalized).mp present).imp id fun made => made.mono _⟩
    have same_of_step {name : String} (made : normalizeFolderName name = .ok name)
        (eq : ((.fileInto folder create, goesWell) : Attempt) = (.fileInto name true, true)) :
        normalized = name ∧ create = true ∧ goesWell = true := by
      cases eq
      rw [made] at normal
      exact ⟨(Except.ok.inj normal).symm, rfl, rfl⟩
    by_cases present : normalized ∈ now
    · rw [if_pos (List.contains_iff_mem.mpr present)]
      refine ⟨fun name => ?_, fun _ => known present, fun _ => rfl⟩
      rw [tracks name]
      refine ⟨fun h => h.imp id fun made => made.mono _, ?_⟩
      rintro (old | made)
      · exact .inl old
      · rcases made.of_concat with made' | eq
        · exact .inr made'
        · rw [← (same_of_step made.2.1 eq).1]
          exact (tracks normalized).mp present
    · rw [if_neg fun inside => present (List.contains_iff_mem.mp inside)]
      by_cases created : (create && normalized ≠ inbox && goesWell) = true
      · rw [if_pos created]
        simp only [Bool.and_eq_true, decide_eq_true_eq] at created
        obtain ⟨⟨rfl, other⟩, rfl⟩ := created
        have own : normalized = folder ∧ normalizeFolderName folder = .ok folder := by
          rcases normal_cases normal with ⟨-, eq⟩ | ⟨eq, normal', -⟩
          · exact absurd eq other
          · exact ⟨eq, normal'⟩
        have made : Made (before ++ [(.fileInto folder true, true)]) normalized := by
          rw [own.1] at other ⊢
          exact ⟨other, own.2, List.mem_append_right _ (List.mem_singleton.mpr rfl)⟩
        refine ⟨fun name => ?_, fun _ => ⟨normalized, normal, .inr made⟩, fun _ => rfl⟩
        rw [List.mem_append, List.mem_singleton, tracks name]
        constructor
        · rintro ((old | made') | rfl)
          · exact .inl old
          · exact .inr (made'.mono _)
          · exact .inr made
        · rintro (old | made')
          · exact .inl (.inl old)
          · rcases made'.of_concat with earlier | eq
            · exact .inl (.inr earlier)
            · exact .inr (same_of_step made'.2.1 eq).1.symm
      · rw [if_neg created]
        have not_step {name : String}
            (made : Made (before ++ [(.fileInto folder create, goesWell)]) name) :
            Made before name := by
          refine made.of_concat.resolve_right fun eq => created ?_
          obtain ⟨rfl, rfl, rfl⟩ := same_of_step made.2.1 eq
          simpa using made.1
        refine ⟨fun name => ?_, (fun h => by cases h), ?_⟩
        · rw [tracks name]
          exact or_congr_right ⟨fun made => made.mono _, not_step⟩
        · rintro ⟨name, eq, there⟩
          rw [normal] at eq
          obtain rfl := Except.ok.inj eq
          exact absurd ((tracks normalized).mpr (there.imp id not_step)) present

/-! ### Runs -/

/-- An action puts the folder into the plan. -/
inductive Chosen (existing : List String) (attempts : List Attempt) : String → Prop
  | keep {goesWell : Bool} (mem : (.keep, goesWell) ∈ attempts) : Chosen existing attempts inbox
  | missing {before after : List Attempt} {folder : String} {create goesWell : Bool}
      (split : attempts = before ++ (.fileInto folder create, goesWell) :: after)
      (missing : ¬Available existing (before ++ [(.fileInto folder create, goesWell)]) folder) :
      Chosen existing attempts inbox
  | filed {before after : List Attempt} {folder : String} {create goesWell : Bool}
      (split : attempts = before ++ (.fileInto folder create, goesWell) :: after)
      (there : Available existing (before ++ [(.fileInto folder create, goesWell)]) folder) :
      Chosen existing attempts folder

theorem Chosen.mono (chosen : Chosen existing before name) (more : List Attempt) :
    Chosen existing (before ++ more) name := by
  cases chosen with
  | keep mem => exact .keep (List.mem_append_left _ mem)
  | missing split missing => exact .missing (by rw [split, List.append_assoc]; rfl) missing
  | filed split there => exact .filed (by rw [split, List.append_assoc]; rfl) there

/-- What is chosen by all actions is chosen by those before the last one or by this one. -/
theorem Chosen.of_concat (chosen : Chosen existing (before ++ [attempt]) name) :
    Chosen existing before name ∨ (attempt.1 = .keep ∧ name = inbox) ∨
      ∃ folder create, attempt.1 = .fileInto folder create ∧
        (¬Available existing (before ++ [attempt]) folder ∧ name = inbox ∨
          Available existing (before ++ [attempt]) folder ∧ name = folder) := by
  have last {front after : List Attempt} {step : Attempt}
      (split : before ++ [attempt] = front ++ step :: after) :
      (∃ rest, before = front ++ step :: rest) ∨ before = front ∧ attempt = step := by
    rcases List.eq_nil_or_concat after with rfl | ⟨rest, final, rfl⟩
    · obtain ⟨eq, one⟩ := List.append_inj' split rfl
      exact .inr ⟨eq, (List.cons.inj one).1⟩
    · rw [List.concat_eq_append, ← List.cons_append, ← List.append_assoc] at split
      exact .inl ⟨rest, (List.append_inj' split rfl).1⟩
  cases chosen with
  | keep mem =>
    rcases List.mem_append.mp mem with mem | mem
    · exact .inl (.keep mem)
    · rw [← List.mem_singleton.mp mem]
      exact .inr (.inl ⟨rfl, rfl⟩)
  | missing split missing =>
    rcases last split with ⟨rest, eq⟩ | ⟨rfl, rfl⟩
    · exact .inl (.missing eq missing)
    · exact .inr (.inr ⟨_, _, rfl, .inl ⟨missing, rfl⟩⟩)
  | filed split there =>
    rcases last split with ⟨rest, eq⟩ | ⟨rfl, rfl⟩
    · exact .inl (.filed eq there)
    · exact .inr (.inr ⟨_, _, rfl, .inr ⟨there, rfl⟩⟩)

/-- What holds of the variables after some of the actions. -/
structure PlanAfter (existing : List String) (before : List Attempt) (p : SitePlanning) : Prop where
  tracks : Tracks existing before p.existing
  nodup : p.folders.Nodup
  mem : ∀ name, name ∈ p.folders ↔ Chosen existing before name
  rejects : p.reject.isSome = true ↔ ∃ reason goesWell, (.reject reason, goesWell) ∈ before

section Step

variable {p : SitePlanning} {action : Action} {goesWell : Bool}

section

variable (h : PlanAfter existing before p)

include h

theorem PlanAfter.rejects_skip (other : ∀ reason, action ≠ .reject reason) :
    p.reject.isSome = true ↔
      ∃ reason goesWell', (.reject reason, goesWell') ∈ before ++ [(action, goesWell)] := by
  rw [h.rejects]
  constructor
  · rintro ⟨reason, well, mem⟩
    exact ⟨reason, well, List.mem_append_left _ mem⟩
  · rintro ⟨reason, well, mem⟩
    rcases List.mem_append.mp mem with mem | mem
    · exact ⟨reason, well, mem⟩
    · exact absurd (Prod.mk.inj (List.mem_singleton.mp mem)).1.symm (other reason)

theorem PlanAfter.mem_skip (notKeep : action ≠ .keep)
    (notFile : ∀ folder create, action ≠ .fileInto folder create) (name : String) :
    name ∈ p.folders ↔ Chosen existing (before ++ [(action, goesWell)]) name := by
  rw [h.mem name]
  refine ⟨fun chosen => chosen.mono _, fun chosen => ?_⟩
  rcases chosen.of_concat with earlier | ⟨eq, -⟩ | ⟨folder, create, eq, -⟩
  · exact earlier
  · exact absurd eq notKeep
  · exact absurd eq (notFile folder create)

theorem PlanAfter.tracks_skip
    (notFile : ∀ folder create, action ≠ .fileInto folder create) :
    Tracks existing (before ++ [(action, goesWell)]) p.existing :=
  h.tracks.skip fun name eq => notFile name true (Prod.mk.inj eq).1

theorem PlanAfter.keep :
    PlanAfter existing (before ++ [(.keep, goesWell)]) (planAttempt p (.keep, goesWell)) := by
  refine ⟨h.tracks_skip (fun _ _ eq => by cases eq), nodup_pushUnique h.nodup _, fun name => ?_,
    h.rejects_skip (fun _ eq => by cases eq)⟩
  show name ∈ pushUnique p.folders inbox ↔ _
  rw [mem_pushUnique, h.mem name]
  constructor
  · rintro (earlier | rfl)
    · exact earlier.mono _
    · exact .keep (List.mem_append_right _ (List.mem_singleton.mpr rfl))
  · intro chosen
    rcases chosen.of_concat with earlier | ⟨-, eq⟩ | ⟨folder, create, eq, -⟩
    · exact .inl earlier
    · exact .inr eq
    · cases eq

theorem PlanAfter.fileInto (folder : String) (create : Bool) :
    PlanAfter existing (before ++ [(.fileInto folder create, goesWell)])
      (planAttempt p (.fileInto folder create, goesWell)) := by
  obtain ⟨tracks, ensured⟩ := h.tracks.ensure folder create goesWell
  refine ⟨tracks, nodup_pushUnique h.nodup _, fun name => ?_,
    h.rejects_skip (fun _ eq => by cases eq)⟩
  show name ∈ pushUnique p.folders
    (if (ensureIn p.existing folder create goesWell).1 = true then folder else inbox) ↔ _
  rw [mem_pushUnique, h.mem name]
  by_cases there : Available existing (before ++ [(.fileInto folder create, goesWell)]) folder
  · rw [if_pos (ensured.mpr there)]
    constructor
    · rintro (earlier | rfl)
      · exact earlier.mono _
      · exact .filed rfl there
    · intro chosen
      rcases chosen.of_concat with earlier | ⟨eq, -⟩ | ⟨folder', create', eq,
        ⟨missing, -⟩ | ⟨-, same⟩⟩
      · exact .inl earlier
      · cases eq
      · cases eq
        exact absurd there missing
      · cases eq
        exact .inr same
  · rw [if_neg fun yes => there (ensured.mp yes)]
    constructor
    · rintro (earlier | rfl)
      · exact earlier.mono _
      · exact .missing rfl there
    · intro chosen
      rcases chosen.of_concat with earlier | ⟨eq, -⟩ | ⟨folder', create', eq,
        ⟨-, same⟩ | ⟨there', -⟩⟩
      · exact .inl earlier
      · cases eq
      · exact .inr same
      · cases eq
        exact absurd there' there

theorem PlanAfter.step (attempt : Attempt) :
    PlanAfter existing (before ++ [attempt]) (planAttempt p attempt) := by
  obtain ⟨action, goesWell⟩ := attempt
  cases action with
  | keep => exact h.keep
  | fileInto folder create => exact h.fileInto folder create
  | discard =>
    exact ⟨h.tracks_skip (fun _ _ eq => by cases eq), h.nodup,
      h.mem_skip (fun eq => by cases eq) (fun _ _ eq => by cases eq),
      h.rejects_skip (fun _ eq => by cases eq)⟩
  | reject reason =>
    refine ⟨h.tracks_skip (fun _ _ eq => by cases eq), h.nodup,
      h.mem_skip (fun eq => by cases eq) (fun _ _ eq => by cases eq), ⟨fun _ => ?_, fun _ => rfl⟩⟩
    exact ⟨reason, goesWell, List.mem_append_right _ (List.mem_singleton.mpr rfl)⟩
  | redirect address =>
    exact ⟨h.tracks_skip (fun _ _ eq => by cases eq), h.nodup,
      h.mem_skip (fun eq => by cases eq) (fun _ _ eq => by cases eq),
      h.rejects_skip (fun _ eq => by cases eq)⟩
  | vacation days subject body =>
    exact ⟨h.tracks_skip (fun _ _ eq => by cases eq), h.nodup,
      h.mem_skip (fun eq => by cases eq) (fun _ _ eq => by cases eq),
      h.rejects_skip (fun _ eq => by cases eq)⟩

end

end Step

theorem PlanAfter.run {p : SitePlanning} (h : PlanAfter existing before p)
    (attempts : List Attempt) :
    PlanAfter existing (before ++ attempts) (attempts.foldl planAttempt p) := by
  induction attempts generalizing before p with
  | nil => simpa using h
  | cons attempt rest ih => simpa using ih (h.step attempt)

theorem planAfter_start (existing : List String) :
    PlanAfter existing [] { folders := [], discarded := false, reject := none, existing } := by
  refine ⟨fun name => ?_, List.nodup_nil, fun name => ?_, ?_⟩
  · refine ⟨.inl, fun h => h.resolve_right fun made => ?_⟩
    exact absurd made.2.2 List.not_mem_nil
  · refine ⟨fun mem => absurd mem List.not_mem_nil, fun chosen => ?_⟩
    cases chosen with
    | keep mem => cases mem
    | missing split missing => simp at split
    | filed split there => simp at split
  · exact ⟨(fun h => by cases h), (fun h => by simp at h)⟩

/-! ### Mailboxes -/

theorem normalize_inbox (spelled : isInbox name = true) : normalizeFolderName name = .ok inbox := by
  rw [normalizeFolderName, if_pos spelled]

theorem Chosen.accepted (chosen : Chosen existing attempts name) :
    ∃ normalized, normalizeFolderName name = .ok normalized := by
  cases chosen with
  | keep mem => exact ⟨inbox, normalize_inbox isInbox_inbox⟩
  | missing split missing => exact ⟨inbox, normalize_inbox isInbox_inbox⟩
  | filed split there =>
    obtain ⟨normalized, eq, -⟩ := there
    exact ⟨normalized, eq⟩

theorem chosen_inbox_iff (spelled : isInbox name = true) :
    Chosen existing attempts name ↔ Spelled existing attempts name := by
  have there_iff (more : List Attempt) : Available existing more name ↔ inbox ∈ existing := by
    constructor
    · rintro ⟨normalized, eq, there⟩
      rw [normalize_inbox spelled] at eq
      obtain rfl := Except.ok.inj eq
      exact there.resolve_right fun made => made.1 rfl
    · intro present
      exact ⟨inbox, normalize_inbox spelled, .inl present⟩
  constructor
  · intro chosen
    cases chosen with
    | keep mem => exact .keep mem
    | missing split missing => exact .missing split missing
    | @filed before after folder create goesWell split there =>
      have mem : (.fileInto name create, goesWell) ∈ attempts := by
        rw [split]
        exact List.mem_append_right _ List.mem_cons_self
      exact .named mem spelled ((there_iff _).mp there)
  · intro spelling
    cases spelling with
    | keep mem => exact .keep mem
    | missing split missing => exact .missing split missing
    | named mem _ present =>
      obtain ⟨before, after, split⟩ := List.append_of_mem mem
      exact .filed split ((there_iff _).mpr present)

theorem normalize_eq_iff {a b normalized : String}
    (accepted : normalizeFolderName a = .ok normalized)
    (different : a ≠ b) :
    normalizeFolderName a = normalizeFolderName b ↔ isInbox a = true ∧ isInbox b = true := by
  constructor
  · intro same
    rcases normal_cases accepted with ⟨spelled, rfl⟩ | ⟨rfl, -, other⟩
    · rcases normal_cases (same ▸ accepted) with ⟨spelled', -⟩ | ⟨rfl, -, other⟩
      · exact ⟨spelled, spelled'⟩
      · exact absurd rfl other
    · rcases normal_cases (same ▸ accepted) with ⟨-, rfl⟩ | ⟨rfl, -, -⟩
      · exact absurd rfl other
      · exact absurd rfl different
  · rintro ⟨spelled, spelled'⟩
    rw [normalize_inbox spelled, normalize_inbox spelled']

/-- Each name is pushed once, so two copies are two spellings of `INBOX`. -/
theorem oneCopy_folders {p : SitePlanning} (h : PlanAfter existing attempts p) :
    OneCopy p.folders ↔
      ∀ a b, Spelled existing attempts a → Spelled existing attempts b → a = b := by
  have inbox_of {a : String} (spelled : Spelled existing attempts a) : isInbox a = true := by
    cases spelled with
    | keep mem => exact isInbox_inbox
    | missing split missing => exact isInbox_inbox
    | named mem spelled present => exact spelled
  constructor
  · intro one a b spelledA spelledB
    by_contra different
    have memA := (h.mem a).mpr ((chosen_inbox_iff (inbox_of spelledA)).mpr spelledA)
    have memB := (h.mem b).mpr ((chosen_inbox_iff (inbox_of spelledB)).mpr spelledB)
    have symm : Std.Symm fun a b : String => normalizeFolderName a ≠ normalizeFolderName b :=
      ⟨fun a b => Ne.symm⟩
    refine List.Pairwise.forall one memA memB different ?_
    rw [normalize_inbox (inbox_of spelledA), normalize_inbox (inbox_of spelledB)]
  · intro same
    refine h.nodup.imp_of_mem fun {a b} memA memB different equal => ?_
    have chosenA := (h.mem a).mp memA
    have chosenB := (h.mem b).mp memB
    obtain ⟨normalized, accepted⟩ := chosenA.accepted
    obtain ⟨spelledA, spelledB⟩ := (normalize_eq_iff accepted different).mp equal
    exact different (same a b ((chosen_inbox_iff spelledA).mp chosenA)
      ((chosen_inbox_iff spelledB).mp chosenB))

/-- For any folders that exist and any outcome of creating others, the folders of a plan are
different mailboxes exactly where the script rejects or its actions spell `INBOX` in one way. -/
theorem oneCopy_iff (existing : List String) (attempts : List Attempt) :
    OneCopy (planAttempts existing attempts).folders ↔
      (∃ reason goesWell, (.reject reason, goesWell) ∈ attempts) ∨
        ∀ a b, Spelled existing attempts a → Spelled existing attempts b → a = b := by
  have after := (planAfter_start existing).run attempts
  rw [List.nil_append] at after
  unfold planAttempts
  generalize attempts.foldl planAttempt _ = p at after
  rw [← after.rejects, ← oneCopy_folders after]
  dsimp only
  cases rejected : p.reject with
  | some reason =>
    refine iff_of_true ?_ (.inl rfl)
    exact List.Pairwise.nil
  | none =>
    have notRejected : ¬(none : Option String).isSome = true := by simp
    rw [or_iff_right notRejected]
    dsimp only
    split
    next nothing =>
      have none_ : p.folders = [] := by
        rw [Bool.and_eq_true] at nothing
        exact List.isEmpty_iff.mp nothing.1
      rw [none_]
      exact iff_of_true (List.pairwise_singleton _ _) List.Pairwise.nil
    next => rfl

/-! ### The delivery -/

/-- In a store each creation of a name that it takes goes well. -/
theorem ensureFolder_eq (s : MailStore) (folder : String) (create : Bool) :
    ensureIn (s.folders.map (·.1)) folder create true =
      ((ensureFolder s folder create).1, (ensureFolder s folder create).2.folders.map (·.1)) := by
  unfold ensureIn ensureFolder
  cases normal : normalizeFolderName folder with
  | error error =>
    have opened : s.openDir folder = .error error := by rw [MailStore.openDir, normal]
    have created : s.create folder = (s, .error error) := by rw [MailStore.create, normal]
    rw [opened, created]
    cases create with
    | false => rfl
    | true => rfl
  | ok normalized =>
    dsimp only
    by_cases present : normalized ∈ s.folders.map (·.1)
    · obtain ⟨there, found⟩ := Option.isSome_iff_exists.mp (Assoc.lookup_isSome_iff.mpr present)
      have opened : s.openDir folder = .ok (normalized, there) := by
        rw [MailStore.openDir, normal]
        dsimp only
        rw [MailStore.find, found]
      rw [if_pos (List.contains_iff_mem.mpr present), opened]
      rfl
    · have found : s.find normalized = none := by
        rw [MailStore.find, ← Option.not_isSome_iff_eq_none, Assoc.lookup_isSome_iff]
        exact present
      have opened : s.openDir folder = .error (.notFound folder) := by
        rw [MailStore.openDir, normal]
        dsimp only
        rw [found]
      rw [if_neg fun inside => present (List.contains_iff_mem.mp inside), opened]
      by_cases same : normalized = inbox
      · have created : s.create folder = (s, .error (.alreadyExists inbox)) := by
          rw [MailStore.create, normal]
          exact if_pos same
        rw [created]
        cases create with
        | false => rfl
        | true => simp [same, Except.isOk, Except.toBool]
      · have created : s.create folder =
            ({ s with folders := s.folders ++ [(normalized, Folder.empty)] }, .ok ()) := by
          rw [MailStore.create, normal]
          dsimp only
          rw [if_neg same, found]
          rfl
        rw [created]
        cases create with
        | false => rfl
        | true => simp [same, Except.isOk, Except.toBool]

/-- The variables that a plan for any outcome has. -/
def Planning.site (p : Planning) : SitePlanning :=
  { folders := p.folders
    discarded := p.discarded
    reject := p.reject
    existing := p.store.folders.map (·.1) }

theorem planAttempt_site (p : Planning) (action : Action) :
    planAttempt p.site (action, true) = (planAction p action).site := by
  cases action with
  | fileInto folder create =>
    simp only [planAttempt, planAction, Planning.site, ensureFolder_eq]
  | keep | discard | reject reason | redirect address | vacation days subject body => rfl

/-- The plan for a store is that of its folders, where each creation goes well. -/
theorem deliveryPlan_eq (s : MailStore) (actions : List Action) :
    (deliveryPlan s actions).1 =
      planAttempts (s.folders.map (·.1)) (actions.map fun action => (action, true)) := by
  have run (p : Planning) :
      (actions.map fun action => ((action, true) : Attempt)).foldl planAttempt p.site =
        (actions.foldl planAction p).site := by
    induction actions generalizing p with
    | nil => rfl
    | cons action rest ih =>
      rw [List.map_cons, List.foldl_cons, List.foldl_cons, planAttempt_site, ih]
  have all := run { folders := [], discarded := false, reject := none, store := s }
  have start : ({ folders := [], discarded := false, reject := none, store := s } : Planning).site =
      { folders := [], discarded := false, reject := none, existing := s.folders.map (·.1) } := rfl
  rw [start] at all
  unfold deliveryPlan planAttempts
  rw [all]
  generalize actions.foldl planAction _ = p
  dsimp only [Planning.site]
  cases p.reject with
  | some reason => rfl
  | none => rfl

/-- A delivery appends the message to the folders of the plan. -/
theorem delivered_folders {host : Host} {sink : Option Sink} {draw : Draw} {mailbox : Mailbox}
    {message : List UInt8} {envelope : Envelope} {folders : List String}
    (h : (deliverEnvelope host sink draw mailbox message envelope).result =
      .ok (.delivered folders)) :
    ∃ evaluated, evaluate host mailbox.scripts message = .ok evaluated ∧
      folders = (planAttempts (mailbox.store.folders.map (·.1))
        (evaluated.map fun action => (action, true))).folders := by
  unfold deliverEnvelope at h
  split at h
  · cases h
  next evaluated run =>
    refine ⟨evaluated, run, ?_⟩
    rw [← deliveryPlan_eq]
    generalize deliveryPlan mailbox.store evaluated = planned at h ⊢
    obtain ⟨plan, store⟩ := planned
    dsimp only at h ⊢
    split at h
    · cases h
    · split at h
      next none_ =>
        cases h
        exact (List.isEmpty_iff.mp none_).symm
      · split at h
        · cases h
        · cases h
          rfl

/-- A message that is kept, and filed to a folder, to `INBOX` and to a folder that is missing. -/
theorem oneCopy_iff_alike :
    OneCopy (planAttempts ["INBOX", "Work"]
      [(.keep, true), (.fileInto "Work" false, true), (.fileInto "INBOX" true, true),
        (.fileInto "Lost" true, false)]).folders := by
  have alike (name : String) (spelled : Spelled ["INBOX", "Work"]
      [(.keep, true), (.fileInto "Work" false, true), (.fileInto "INBOX" true, true),
        (.fileInto "Lost" true, false)] name) : name = inbox := by
    cases spelled with
    | keep mem => rfl
    | missing split missing => rfl
    | named mem spelled present =>
      simp only [List.mem_cons, Prod.mk.injEq, List.not_mem_nil, reduceCtorEq, false_and,
        Action.fileInto.injEq, false_or, or_false] at mem
      rcases mem with ⟨⟨rfl, -⟩, -⟩ | ⟨⟨rfl, -⟩, -⟩ | ⟨⟨rfl, -⟩, -⟩
      · exact absurd spelled (by decide +kernel)
      · rfl
      · exact absurd spelled (by decide +kernel)
  refine (oneCopy_iff _ _).mpr (.inr fun a b spelledA spelledB => ?_)
  rw [alike a spelledA, alike b spelledB]

/-- A script that keeps a message and files it to `Inbox`. -/
def twiceScript : String := "require \"fileinto\"; keep; fileinto \"Inbox\";"

def twiceMailbox : Mailbox :=
  { store := { folders := [(inbox, Folder.empty)], quota := none, usage := none }
    scripts := { sieve := some (.file (bytes twiceScript)), active := none, scripts := [] }
    vacation := none }

def quietHost : Host :=
  { decodeBase64 := fun _ => none
    now := 0
    nowFits := by decide
    shuffle := { order := id, perm := fun _ => .refl _ }
    locks := true
    writes := true }

theorem two_copies_in_inbox :
    let delivered := deliverEnvelope quietHost none { base := fun i => toString i, fresh := 1 }
      twiceMailbox (bytes "Subject: hi\r\n\r\nbody\r\n")
      { sender := "a@example.com", recipient := "b@example.com" }
    delivered.result.toOption = some (.delivered ["INBOX", "Inbox"]) ∧
      (filesOf delivered.mailbox.store.folders inbox).length = 2 ∧ ¬OneCopy ["INBOX", "Inbox"] := by
  decide +kernel

end MailStack.Sieve
