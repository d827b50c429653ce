import MailStack.Maildir.Store
import Mathlib.Data.Finset.Image

/-! Renaming a folder with the folders below it: each is a directory of its own, which is renamed by
itself, and the names in the file of subscriptions follow one by one. -/

namespace MailStack.Maildir

open Lib

/-- `others` are the entries of the root that have a dot before their name, but are no
directories. -/
structure MailTree where
  folders : List (String × Folder)
  others : List String
  subscriptions : Finset String

/-- The directory whose renaming fails, with the name that it was to get. -/
abbrev Failing := Option (String × String)

/-- The name of a folder below `old`, or of `old`, once it is below `new`. -/
def shifted (old new name : String) : String := new ++ String.ofList (name.toList.drop old.length)

namespace MailTree

def names (t : MailTree) : List String := t.folders.map (·.1)

def taken (t : MailTree) (name : String) : Bool :=
  (t.folders.lookup name).isSome || t.others.contains name

def children (t : MailTree) (name : String) : List String :=
  t.names.filter fun n => (name ++ ".").toList.isPrefixOf n.toList

variable (failing : Failing)

def renameDirectory (t : MailTree) (source target : String) : Option MailTree :=
  if failing = some (source, target) ∨ source ∉ t.names ∨ t.taken target then none
  else some { t with folders := Assoc.rekey source target t.folders }

/-- `completed` are the directories that were renamed, the last one first, each with its old
name. -/
@[grind =] def rollbackRenames : MailTree → List (String × String) → MailTree
  | t, [] => t
  | t, (current, original) :: rest =>
    rollbackRenames ((t.renameDirectory failing current original).getD t) rest

def rewriteSubscription (t : MailTree) (source target : String) : MailTree :=
  if source ∈ t.subscriptions then
    { t with subscriptions := insert target (t.subscriptions.erase source) }
  else t

/-- The loop over the folders below a renamed one. -/
@[grind =] def renameEach : MailTree → List (String × String) → List (String × String) →
    MailTree × Except MailError Unit
  | t, _, [] => (t, .ok ())
  | t, completed, (source, target) :: rest =>
    match normalizeFolderName target with
    | .error error => (t, .error error)
    | .ok normalized =>
      if t.taken normalized then
        (t.rollbackRenames failing completed, .error (.alreadyExists target))
      else
        match t.renameDirectory failing source normalized with
        | none => (t.rollbackRenames failing completed, .error (.io normalized))
        | some renamed =>
          renameEach (renamed.rewriteSubscription source target) ((normalized, source) :: completed)
            rest

/-- The messages of `INBOX` move, with what is known of them, and `INBOX` stays. -/
def renameInbox (t : MailTree) (content : Folder) (new : String) : MailTree :=
  { t with
    folders :=
      Assoc.modify inbox (fun f => { f with files := [], uidFile := none, expunged := [] }) t.folders
        ++ [(new, { content with acl := [] })]
    subscriptions := insert new t.subscriptions }

def renames (t : MailTree) (old new : String) : List (String × String) :=
  ((t.children old).mergeSort fun a b => decide (a ≤ b)).map fun n => (n, shifted old new n)

def rename (t : MailTree) (old new : String) : MailTree × Except MailError Unit :=
  match normalizeFolderName old, normalizeFolderName new with
  | .error error, _ => (t, .error error)
  | .ok _, .error error => (t, .error error)
  | .ok old, .ok new =>
    if old = new then (t, .error (.invalid "source and destination are the same"))
    else
      match t.folders.lookup old with
      | none => (t, .error (.notFound old))
      | some content =>
        if (t.folders.lookup new).isSome then (t, .error (.alreadyExists new))
        else if old = inbox then
          if t.others.contains new then (t, .error (.io new)) else (t.renameInbox content new, .ok ())
        else
          match t.renameDirectory failing old new with
          | none => (t, .error (.io new))
          | some renamed =>
            match renamed.renameEach failing [(new, old)] (t.renames old new) with
            | (left, .error error) => (left, .error error)
            | (left, .ok ()) => (left.rewriteSubscription old new, .ok ())

/-- Each folder is there once, under a name that passes the check, and no other entry has its
name. -/
structure WellFormed (t : MailTree) : Prop where
  nodup : t.names.Nodup
  valid : ∀ name ∈ t.names, normalizeFolderName name = .ok name
  apart : ∀ name ∈ t.names, name ∉ t.others

/-! ### Directories -/

variable {t t' : MailTree} {failing : Failing} {source target name : String}

theorem taken_iff : t.taken name = true ↔ name ∈ t.names ∨ name ∈ t.others := by
  simp [taken, names]

theorem renameDirectory_eq_some :
    t.renameDirectory failing source target = some t' ↔
      failing ≠ some (source, target) ∧ source ∈ t.names ∧ target ∉ t.names ∧ target ∉ t.others ∧
        t' = { t with folders := Assoc.rekey source target t.folders } := by
  unfold renameDirectory
  split_ifs with bad
  · rw [taken_iff] at bad
    constructor
    · intro h
      cases h
    · rintro ⟨fine, here, free, alone, -⟩
      rcases bad with bad | bad | bad | bad
      · exact absurd bad fine
      · exact absurd here bad
      · exact absurd bad free
      · exact absurd bad alone
  · rw [taken_iff] at bad
    simp only [not_or, not_not] at bad
    obtain ⟨fine, here, free, alone⟩ := bad
    exact ⟨fun h => ⟨fine, here, free, alone, (Option.some.inj h).symm⟩, fun h => by rw [h.2.2.2.2]⟩

/-- The directories are those of `base` after the renamings, the last of which is the first of the
list; each can be undone. -/
inductive Undoable (failing : Failing) (others : List String) (base : List (String × Folder)) :
    List (String × Folder) → List (String × String) → Prop
  | start : Undoable failing others base base []
  | rename {folders : List (String × Folder)} {completed : List (String × String)}
      {source target : String} (before : Undoable failing others base folders completed)
      (fine : failing ≠ some (target, source)) (here : source ∈ folders.map (·.1))
      (free : target ∉ folders.map (·.1)) (alone : source ∉ others)
      (nodup : (folders.map (·.1)).Nodup) :
      Undoable failing others base (Assoc.rekey source target folders)
        ((target, source) :: completed)

/-- The roll-back restores the directories. -/
theorem rollbackRenames_undoable {base folders : List (String × Folder)}
    {completed : List (String × String)} {others : List String} (subscriptions : Finset String)
    (undoable : Undoable failing others base folders completed) :
    rollbackRenames failing ⟨folders, others, subscriptions⟩ completed =
      ⟨base, others, subscriptions⟩ := by
  induction undoable with
  | start => rfl
  | @rename folders completed source target before fine here free alone nodup ih =>
    have keys := @Assoc.rekey_keys _ _ _ folders source target nodup
    have back : renameDirectory failing
        ⟨Assoc.rekey source target folders, others, subscriptions⟩ target source =
          some ⟨folders, others, subscriptions⟩ := by
      refine renameDirectory_eq_some.mpr ⟨fine, ?_, ?_, alone, ?_⟩
      · show target ∈ (Assoc.rekey source target folders).map (·.1)
        rw [keys]
        exact List.mem_map.mpr ⟨source, here, if_pos rfl⟩
      · show source ∉ (Assoc.rekey source target folders).map (·.1)
        rw [keys, List.mem_map]
        rintro ⟨name, mem, eq⟩
        split_ifs at eq with same
        · exact free (eq ▸ here)
        · exact same eq
      · rw [Assoc.rekey_rekey free]
    rw [rollbackRenames, back, Option.getD_some, ih]

section Shifted

variable {old new : String}

theorem shifted_toList {rest : List Char} (h : name.toList = old.toList ++ rest) :
    (shifted old new name).toList = new.toList ++ rest := by
  rw [shifted, String.toList_append, String.toList_ofList, h, ← String.length_toList,
    List.drop_left]

theorem shifted_self : shifted old new old = new :=
  String.toList_inj.mp (by rw [shifted_toList (List.append_nil _).symm, List.append_nil])

theorem mem_children {t : MailTree} : name ∈ t.children old ↔
    name ∈ t.names ∧ ∃ rest, name.toList = old.toList ++ '.' :: rest := by
  rw [children, List.mem_filter, List.isPrefixOf_iff_prefix]
  refine and_congr_right fun _ => exists_congr fun rest => ?_
  simp [eq_comm]

theorem forth_ne_back {a b : String} {rest : List Char} (different : old ≠ new)
    (forth : ∃ s, a.toList = old.toList ++ s ∧ b.toList = new.toList ++ s)
    (ha : a.toList = new.toList ++ rest) (hb : b.toList = old.toList ++ rest) : False := by
  obtain ⟨s, ha', hb'⟩ := forth
  have one := ha.symm.trans ha'
  have two := hb.symm.trans hb'
  have lengths := congrArg List.length one
  have lengths' := congrArg List.length two
  simp only [List.length_append] at lengths lengths'
  have same := (List.append_inj one (by omega)).1
  exact different (String.toList_inj.mp same.symm)

end Shifted

/-! ### The loop -/

/-- The name that the entry of a folder has once `old` and the folders of `done` were renamed. -/
def movedName (old new : String) (done : List String) (name : String) : String :=
  if name = old ∨ name ∈ done then shifted old new name else name

/-- How the tree is after `old` and the folders of `done` were renamed. -/
structure Midway (start : MailTree) (old new : String) (done : List String)
    (t : MailTree) : Prop where
  known : ∀ d ∈ done, d ∈ start.names
  folders : t.folders = start.folders.map fun e => (movedName old new done e.1, e.2)
  others : t.others = start.others
  nodup : t.names.Nodup
  subscriptions : ∀ name, name ∈ t.subscriptions ↔ name ∈ start.subscriptions ∧ name ∉ done ∨
    ∃ d ∈ done, d ∈ start.subscriptions ∧ shifted old new d = name

@[simp] theorem rewriteSubscription_folders :
    (t.rewriteSubscription source target).folders = t.folders := by
  unfold rewriteSubscription
  split_ifs <;> rfl

@[simp] theorem rewriteSubscription_others :
    (t.rewriteSubscription source target).others = t.others := by
  unfold rewriteSubscription
  split_ifs <;> rfl

theorem mem_rewriteSubscription : name ∈ (t.rewriteSubscription source target).subscriptions ↔
    source ∈ t.subscriptions ∧ name = target ∨ name ≠ source ∧ name ∈ t.subscriptions := by
  unfold rewriteSubscription
  split_ifs with subscribed
  · simp [subscribed]
  · constructor
    · exact fun mem => .inr ⟨fun same => subscribed (same ▸ mem), mem⟩
    · rintro (⟨mem, -⟩ | ⟨-, mem⟩)
      · exact absurd mem subscribed
      · exact mem

section Loop

variable {start t t' : MailTree} {old new : String} {done rest : List String}
  {completed : List (String × String)}

theorem Midway.names (mid : Midway start old new done t) :
    t.names = start.names.map (movedName old new done) := by
  rw [MailTree.names, mid.folders, MailTree.names, List.map_map, List.map_map]
  rfl

theorem Midway.pending (mid : Midway start old new done t) (here : name ∈ start.names)
    (notOld : name ≠ old) (pending : name ∉ done) :
    name ∈ t.names ∧ ∀ other ∈ start.names, movedName old new done other = name → other = name := by
  have own : movedName old new done name = name := if_neg (by simp [notOld, pending])
  have nodup := mid.nodup
  rw [mid.names] at nodup ⊢
  refine ⟨List.mem_map.mpr ⟨name, here, own⟩, fun other mem same => ?_⟩
  exact List.inj_on_of_nodup_map nodup mem here (same.trans own.symm)

theorem Midway.step (mid : Midway start old new done t) (here : name ∈ start.names)
    (notOld : name ≠ old) (pending : name ∉ done)
    (renamed : t.renameDirectory failing name (shifted old new name) = some t') :
    Midway start old new (done ++ [name]) (t'.rewriteSubscription name (shifted old new name)) := by
  obtain ⟨-, -, free, -, rfl⟩ := renameDirectory_eq_some.mp renamed
  obtain ⟨-, alone⟩ := mid.pending here notOld pending
  have notMoved : ∀ d ∈ done, d ∈ start.subscriptions → shifted old new d ≠ name := by
    intro d mem _ same
    have moved : movedName old new done d = shifted old new d := if_pos (.inr mem)
    exact pending (alone d (mid.known d mem) (moved.trans same) ▸ mem)
  constructor
  · intro d mem
    rcases List.mem_append.mp mem with mem | mem
    · exact mid.known d mem
    · exact List.mem_singleton.mp mem ▸ here
  · rw [rewriteSubscription_folders]
    show Assoc.rekey name (shifted old new name) t.folders = _
    rw [Assoc.rekey_eq_map mid.nodup, mid.folders, List.map_map]
    refine List.map_congr_left fun e mem => Prod.ext ?_ rfl
    show (if movedName old new done e.1 = name then shifted old new name
      else movedName old new done e.1) = movedName old new (done ++ [name]) e.1
    by_cases same : e.1 = name
    · have own : movedName old new done name = name := if_neg (by simp [notOld, pending])
      have moved : movedName old new (done ++ [name]) name = shifted old new name :=
        if_pos (by simp)
      rw [same, if_pos own, moved]
    · rw [if_neg fun eq => same (alone e.1 (List.mem_map_of_mem mem) eq)]
      simp [movedName, same]
  · rw [rewriteSubscription_others]
    exact mid.others
  · rw [MailTree.names, rewriteSubscription_folders]
    exact Assoc.nodup_rekey mid.nodup free
  · intro other
    have subscribed : name ∈ t.subscriptions ↔ name ∈ start.subscriptions := by
      rw [mid.subscriptions]
      constructor
      · rintro (⟨mem, -⟩ | ⟨d, mem, known, same⟩)
        · exact mem
        · exact absurd same (notMoved d mem known)
      · exact fun mem => .inl ⟨mem, pending⟩
    rw [mem_rewriteSubscription]
    show name ∈ t.subscriptions ∧ _ ∨ _ ∧ other ∈ t.subscriptions ↔ _
    rw [subscribed, mid.subscriptions]
    simp only [List.mem_append, List.mem_singleton, not_or]
    constructor
    · rintro (⟨mem, rfl⟩ | ⟨apart, ⟨mem, out⟩ | ⟨d, done, known, same⟩⟩)
      · exact .inr ⟨name, .inr rfl, mem, rfl⟩
      · exact .inl ⟨mem, out, apart⟩
      · exact .inr ⟨d, .inl done, known, same⟩
    · rintro (⟨mem, out, apart⟩ | ⟨d, mem | rfl, known, same⟩)
      · exact .inr ⟨apart, .inl ⟨mem, out⟩⟩
      · exact .inr ⟨fun eq => notMoved d mem known (same.trans eq), .inr ⟨d, mem, known, same⟩⟩
      · exact .inl ⟨known, same.symm⟩

/-- The subscriptions are as they were, up to those of folders below `old`. -/
def SubscribedApart (start : MailTree) (old new : String) (t : MailTree) : Prop :=
  ∀ name, (name ∈ t.subscriptions ↔ name ∈ start.subscriptions) ∨
    ∃ child ∈ start.children old, child ∈ start.subscriptions ∧
      (name = child ∨ name = shifted old new child)

theorem Midway.apart (mid : Midway start old new done t)
    (below : ∀ d ∈ done, d ∈ start.children old) : SubscribedApart start old new t := by
  intro name
  by_cases touched : ∃ d ∈ done, d ∈ start.subscriptions ∧ (name = d ∨ name = shifted old new d)
  · obtain ⟨d, mem, subscribed, which⟩ := touched
    exact .inr ⟨d, below d mem, subscribed, which⟩
  · refine .inl ?_
    rw [mid.subscriptions]
    constructor
    · rintro (⟨mem, -⟩ | ⟨d, mem, subscribed, same⟩)
      · exact mem
      · exact absurd ⟨d, mem, subscribed, .inr same.symm⟩ touched
    · exact fun mem => .inl ⟨mem, fun out => touched ⟨name, out, mem, .inl rfl⟩⟩

/-- The renaming that fails, if there is one, is of `old` or of a folder below it to its new
name. -/
def Forward (failing : Failing) (old new : String) : Prop :=
  ∀ a b, failing = some (a, b) →
    ∃ s, a.toList = old.toList ++ s ∧ b.toList = new.toList ++ s

theorem renameEach_spec (formed : start.WellFormed) (different : old ≠ new)
    (mid : Midway start old new done t)
    (undoable : Forward failing old new →
      Undoable failing start.others start.folders t.folders completed)
    (before : ∀ d ∈ done, d ∈ start.children old) (below : ∀ n ∈ rest, n ∈ start.children old)
    (fresh : ∀ n ∈ rest, n ∉ done) (nodup : rest.Nodup) :
    (∀ t', renameEach failing t completed (rest.map fun n => (n, shifted old new n)) =
      (t', .ok ()) →
      Midway start old new (done ++ rest) t') ∧
    ∀ t' e, renameEach failing t completed (rest.map fun n => (n, shifted old new n)) =
        (t', .error e) → Forward failing old new →
      (∀ n ∈ rest, (normalizeFolderName (shifted old new n)).isOk = true) →
      t'.folders = start.folders ∧ t'.others = start.others ∧ SubscribedApart start old new t' := by
  induction rest generalizing t done completed with
  | nil =>
    constructor
    · intro t' run
      cases run
      rwa [List.append_nil]
    · intro t' e run
      cases run
  | cons n rest ih =>
    rw [List.nodup_cons] at nodup
    have below' := below n List.mem_cons_self
    obtain ⟨here, s, parts⟩ := mem_children.mp below'
    have notOld : n ≠ old := by
      rintro rfl
      have := congrArg List.length parts
      simp at this
    have pending := fresh n List.mem_cons_self
    have restored : Forward failing old new →
        rollbackRenames failing t completed = ⟨start.folders, start.others, t.subscriptions⟩ := by
      intro forward
      have back := rollbackRenames_undoable t.subscriptions (undoable forward)
      rwa [← mid.others] at back ⊢
    rw [List.map_cons, renameEach]
    cases check : normalizeFolderName (shifted old new n) with
    | error e =>
      refine ⟨(fun t' run => by cases run), fun t' e' run forward valid => ?_⟩
      have fine := valid n List.mem_cons_self
      rw [check] at fine
      cases fine
    | ok normalized =>
      have inside : '.' ∈ (shifted old new n).toList := by
        rw [shifted_toList parts]
        simp
      obtain rfl := normalizeFolderName_eq inside check
      simp only
      split_ifs with clash
      · refine ⟨(fun t' run => by cases run), fun t' e run forward valid => ?_⟩
        cases run
        rw [restored forward]
        exact ⟨rfl, rfl, mid.apart before⟩
      cases renamed : t.renameDirectory failing n (shifted old new n) with
      | none =>
        refine ⟨(fun t' run => by cases run), fun t' e run forward valid => ?_⟩
        cases run
        rw [restored forward]
        exact ⟨rfl, rfl, mid.apart before⟩
      | some moved =>
        obtain ⟨fine, atHand, free, alone, rfl⟩ := renameDirectory_eq_some.mp renamed
        have next := mid.step here notOld pending renamed
        have undoable' : Forward failing old new → Undoable failing start.others start.folders
            (Assoc.rekey n (shifted old new n) t.folders)
              ((shifted old new n, n) :: completed) := by
          intro forward
          refine .rename (undoable forward) (fun back => ?_) atHand free (formed.apart n here) mid.nodup
          exact forth_ne_back different (forward _ _ back) (shifted_toList parts) parts
        have before' : ∀ d ∈ done ++ [n], d ∈ start.children old := by
          intro d mem
          rcases List.mem_append.mp mem with mem | mem
          · exact before d mem
          · exact List.mem_singleton.mp mem ▸ below'
        have fresh' : ∀ m ∈ rest, m ∉ done ++ [n] := by
          intro m mem out
          rcases List.mem_append.mp out with out | out
          · exact fresh m (List.mem_cons_of_mem _ mem) out
          · exact nodup.1 (List.mem_singleton.mp out ▸ mem)
        obtain ⟨finished, failed⟩ := ih next (by rwa [rewriteSubscription_folders]) before'
          (fun m mem => below m (List.mem_cons_of_mem _ mem)) fresh' nodup.2
        rw [List.append_assoc] at finished
        refine ⟨finished, fun t' e run forward valid => failed t' e run forward fun m mem => ?_⟩
        exact valid m (List.mem_cons_of_mem _ mem)

end Loop

/-! ### The whole operation -/

/-- The names that the entry and the subscription of a folder get. -/
def renamedTo (t : MailTree) (old new name : String) : String :=
  if name = old ∨ name ∈ t.children old then shifted old new name else name

/-- The folder and those below it have their new names, and their subscriptions too; all else is as
it was. -/
structure Renamed (t : MailTree) (old new : String) (t' : MailTree) : Prop where
  folders : t'.folders = t.folders.map fun e => (t.renamedTo old new e.1, e.2)
  others : t'.others = t.others
  subscriptions : t'.subscriptions = t.subscriptions.image (t.renamedTo old new)

/-- An error changes nothing, and success renames just the folder and those below it. -/
def AllOrNothing (failing : Failing) (t : MailTree) (old new : String) : Prop :=
  (∀ t' e, t.rename failing old new = (t', .error e) → t' = t) ∧
    ∀ t', t.rename failing old new = (t', .ok ()) →
      ∃ source target, normalizeFolderName old = .ok source ∧ normalizeFolderName new = .ok target ∧
        Renamed t source target t'

section Whole

variable {start t' : MailTree} {old new : String}

theorem children_nodup (formed : start.WellFormed) : (start.children old).Nodup :=
  formed.nodup.filter _

theorem midway_first (formed : start.WellFormed)
    (renamed : start.renameDirectory failing old new = some t') :
    Midway start old new [] t' := by
  obtain ⟨-, -, free, -, rfl⟩ := renameDirectory_eq_some.mp renamed
  refine ⟨by simp, ?_, rfl, Assoc.nodup_rekey formed.nodup free, by simp⟩
  show Assoc.rekey old new start.folders = _
  rw [Assoc.rekey_eq_map formed.nodup]
  refine List.map_congr_left fun e mem => Prod.ext ?_ rfl
  show (if e.1 = old then new else e.1) = movedName old new [] e.1
  by_cases same : e.1 = old
  · rw [same, if_pos rfl, movedName, if_pos (.inl rfl), shifted_self]
  · rw [if_neg same, movedName, if_neg (by simp [same])]

theorem Midway.renamed {t : MailTree} (mid : Midway start old new ((start.children old).mergeSort
    fun a b => decide (a ≤ b)) t)
    (apart : ∀ child ∈ start.children old, child ∈ start.subscriptions →
      shifted old new child ≠ old) :
    Renamed start old new (t.rewriteSubscription old new) := by
  have among : ∀ n, n ∈ (start.children old).mergeSort (fun a b => decide (a ≤ b)) ↔
      n ∈ start.children old := fun n => (List.mergeSort_perm _ _).mem_iff
  have notOld : old ∉ start.children old := by
    intro mem
    obtain ⟨-, s, parts⟩ := mem_children.mp mem
    have := congrArg List.length parts
    simp at this
  constructor
  · rw [rewriteSubscription_folders, mid.folders]
    simp only [movedName, renamedTo, among]
  · rw [rewriteSubscription_others, mid.others]
  · ext name
    have subscribed : old ∈ t.subscriptions ↔ old ∈ start.subscriptions := by
      rw [mid.subscriptions]
      constructor
      · rintro (⟨mem, -⟩ | ⟨d, mem, known, same⟩)
        · exact mem
        · exact absurd same (apart d ((among d).mp mem) known)
      · exact fun mem => .inl ⟨mem, fun below => notOld ((among old).mp below)⟩
    rw [mem_rewriteSubscription, subscribed, mid.subscriptions, Finset.mem_image]
    simp only [among]
    constructor
    · rintro (⟨mem, rfl⟩ | ⟨other, ⟨mem, out⟩ | ⟨d, below, known, rfl⟩⟩)
      · exact ⟨old, mem, by rw [renamedTo, if_pos (.inl rfl), shifted_self]⟩
      · exact ⟨name, mem, if_neg (by simp [other, out])⟩
      · exact ⟨d, known, if_pos (.inr below)⟩
    · rintro ⟨m, mem, rfl⟩
      by_cases same : m = old
      · subst same
        exact .inl ⟨mem, by rw [renamedTo, if_pos (.inl rfl), shifted_self]⟩
      · by_cases below : m ∈ start.children old
        · have moved : start.renamedTo old new m = shifted old new m := if_pos (.inr below)
          rw [moved]
          exact .inr ⟨apart m below mem, .inr ⟨m, below, mem, rfl⟩⟩
        · have kept : start.renamedTo old new m = m := if_neg (by simp [same, below])
          rw [kept]
          exact .inr ⟨same, .inl ⟨mem, below⟩⟩

/-- How the operation can end. -/
inductive Ending (failing : Failing) (start : MailTree) (source target : String) :
    MailTree × Except MailError Unit → Prop
  | refused (e : MailError) : Ending failing start source target (start, .error e)
  | inbox (content : Folder) (isInbox : source = inbox)
      (here : start.folders.lookup source = some content) (free : target ∉ start.names) :
      Ending failing start source target (start.renameInbox content target, .ok ())
  | failed (moved left : MailTree) (e : MailError) (different : source ≠ target)
      (renamed : start.renameDirectory failing source target = some moved)
      (run : moved.renameEach failing [(target, source)] (start.renames source target) =
        (left, .error e)) : Ending failing start source target (left, .error e)
  | finished (moved left : MailTree) (different : source ≠ target) (notInbox : source ≠ inbox)
      (renamed : start.renameDirectory failing source target = some moved)
      (run : moved.renameEach failing [(target, source)] (start.renames source target) =
        (left, .ok ())) :
      Ending failing start source target (left.rewriteSubscription source target, .ok ())

theorem rename_ending {source target : String} (checked : normalizeFolderName old = .ok source)
    (checked' : normalizeFolderName new = .ok target) :
    Ending failing start source target (start.rename failing old new) := by
  unfold rename
  simp only [checked, checked']
  by_cases same : source = target
  · rw [if_pos same]
    exact .refused _
  rw [if_neg same]
  cases here : start.folders.lookup source with
  | none => exact .refused _
  | some content =>
    simp only
    by_cases taken : (start.folders.lookup target).isSome = true
    · rw [if_pos taken]
      exact .refused _
    rw [if_neg taken]
    by_cases isInbox : source = inbox
    · rw [if_pos isInbox]
      by_cases blocked : start.others.contains target = true
      · rw [if_pos blocked]
        exact .refused _
      · rw [if_neg blocked]
        exact .inbox content isInbox here fun mem => taken (Assoc.lookup_isSome_iff.mpr mem)
    rw [if_neg isInbox]
    cases renamed : start.renameDirectory failing source target with
    | none => exact .refused _
    | some moved =>
      simp only
      cases run : moved.renameEach failing [(target, source)] (start.renames source target) with
      | mk left result =>
        cases result with
        | error e => exact .failed moved left e same renamed run
        | ok u => exact .finished moved left same isInbox renamed run

theorem renames_spec {source target : String} {moved : MailTree} (formed : start.WellFormed)
    (different : source ≠ target)
    (renamed : start.renameDirectory failing source target = some moved) :
    (∀ left, moved.renameEach failing [(target, source)] (start.renames source target) =
        (left, .ok ()) →
      Midway start source target ((start.children source).mergeSort fun a b =>
        decide (a ≤ b)) left) ∧
    ∀ left e, moved.renameEach failing [(target, source)] (start.renames source target) =
        (left, .error e) → Forward failing source target →
      (∀ child ∈ start.children source,
        (normalizeFolderName (shifted source target child)).isOk = true) →
      left.folders = start.folders ∧ left.others = start.others ∧
        SubscribedApart start source target left := by
  obtain ⟨fine, here, free, alone, eq⟩ := renameDirectory_eq_some.mp renamed
  have among : ∀ n, n ∈ (start.children source).mergeSort (fun a b => decide (a ≤ b)) ↔
      n ∈ start.children source := fun n => (List.mergeSort_perm _ _).mem_iff
  have undoable : Forward failing source target →
      Undoable failing start.others start.folders moved.folders [(target, source)] := by
    intro forward
    rw [eq]
    refine .rename .start (fun back => ?_) here free (formed.apart source here) formed.nodup
    exact forth_ne_back different (forward _ _ back) (List.append_nil _).symm
      (List.append_nil _).symm
  obtain ⟨finished, failed⟩ :=
    renameEach_spec formed different (midway_first formed renamed) undoable
    (by simp) (fun n mem => (among n).mp mem) (by simp)
    ((List.mergeSort_perm _ _).nodup_iff.mpr (children_nodup formed))
  refine ⟨finished, fun left e run forward valid => failed left e run forward fun n mem => ?_⟩
  exact valid n ((among n).mp mem)

/-- What renaming does with a folder that is not `INBOX`, where the new names of the folders below
it are valid, and with `INBOX`. -/
theorem rename_all_or_nothing (formed : start.WellFormed) (failing : Failing) (old new : String) :
    (∀ t' e, start.rename failing old new = (t', .error e) →
      t' = start ∨ ∃ source target, normalizeFolderName old = .ok source ∧
        normalizeFolderName new = .ok target ∧
        (Forward failing source target →
          (∀ child ∈ start.children source,
            (normalizeFolderName (shifted source target child)).isOk = true) →
          t'.folders = start.folders ∧ t'.others = start.others ∧
            SubscribedApart start source target t')) ∧
    ∀ t', start.rename failing old new = (t', .ok ()) →
      ∃ source target, normalizeFolderName old = .ok source ∧
        normalizeFolderName new = .ok target ∧
        (source ≠ inbox →
          (∀ child ∈ start.children source, child ∈ start.subscriptions →
            shifted source target child ≠ source) →
          Renamed start source target t') ∧
        (source = inbox → ∃ content, start.folders.lookup inbox = some content ∧
          t' = start.renameInbox content target ∧ target ∉ start.names) := by
  cases checked : normalizeFolderName old with
  | error e =>
    have unchanged : start.rename failing old new = (start, .error e) := by
      unfold rename
      rw [checked]
    rw [unchanged]
    refine ⟨fun t' e' run => ?_, fun t' run => ?_⟩
    · exact .inl (Prod.ext_iff.mp run).1.symm
    · cases run
  | ok source =>
    cases checked' : normalizeFolderName new with
    | error e =>
      have unchanged : start.rename failing old new = (start, .error e) := by
        unfold rename
        rw [checked, checked']
      rw [unchanged]
      refine ⟨fun t' e' run => ?_, fun t' run => ?_⟩
      · exact .inl (Prod.ext_iff.mp run).1.symm
      · cases run
    | ok target =>
      have ending := @rename_ending failing start old new source target checked checked'
      generalize start.rename failing old new = result at ending
      cases ending with
      | refused e =>
        refine ⟨fun t' e' run => ?_, fun t' run => ?_⟩
        · exact .inl (Prod.ext_iff.mp run).1.symm
        · cases run
      | inbox content isInbox here free =>
        refine ⟨fun t' e' run => ?_, fun t' run => ?_⟩
        · cases run
        · cases run
          exact ⟨source, target, rfl, rfl, fun other => absurd isInbox other,
            fun _ => ⟨content, isInbox ▸ here, rfl, free⟩⟩
      | failed moved left e different renamed run =>
        refine ⟨fun t' e' eq => ?_, fun t' eq => ?_⟩
        · cases eq
          exact .inr ⟨source, target, rfl, rfl, (renames_spec formed different renamed).2 _ _ run⟩
        · cases eq
      | finished moved left different notInbox renamed run =>
        refine ⟨fun t' e' eq => ?_, fun t' eq => ?_⟩
        · cases eq
        · cases eq
          have mid := (renames_spec formed different renamed).1 _ run
          exact ⟨source, target, rfl, rfl, fun _ apart => mid.renamed apart,
            fun isInbox => absurd isInbox notInbox⟩

end Whole

def workTree : MailTree where
  folders := [(inbox, .empty), ("Work", .empty), ("Work.a", .empty)]
  others := []
  subscriptions := {"Work.a"}

theorem workTree_formed : workTree.WellFormed where
  nodup := by decide
  valid := by decide
  apart := fun _ _ mem => absurd mem List.not_mem_nil

theorem rename_work : Renamed workTree "Work" "Old" (workTree.rename none "Work" "Old").1 := by
  have finished : workTree.rename none "Work" "Old" =
      ((workTree.rename none "Work" "Old").1, .ok ()) := by
    refine Prod.ext rfl ?_
    decide +kernel
  obtain ⟨source, target, checked, checked', folder, -⟩ :=
    (rename_all_or_nothing workTree_formed none "Work" "Old").2 _ finished
  rw [show normalizeFolderName "Work" = .ok "Work" by decide +kernel] at checked
  rw [show normalizeFolderName "Old" = .ok "Old" by decide +kernel] at checked'
  cases checked
  cases checked'
  exact folder (by decide) (by decide +kernel)

/-- `INBOX` does not move: it is there after it was renamed. -/
theorem inbox_stays : ¬∀ (failing : Failing) (t : MailTree) (old new : String), t.WellFormed →
    AllOrNothing failing t old new := by
  intro claim
  obtain ⟨source, target, checked, checked', renamed⟩ :=
    (claim none workTree inbox "Old" workTree_formed).2 (workTree.renameInbox .empty "Old")
      (Prod.ext (by rfl) (by decide +kernel))
  rw [show normalizeFolderName inbox = .ok inbox by decide +kernel] at checked
  cases checked
  have length := congrArg List.length renamed.folders
  rw [List.length_map] at length
  exact absurd length (by decide)

end MailTree

end MailStack.Maildir
