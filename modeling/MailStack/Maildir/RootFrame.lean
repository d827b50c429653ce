import MailStack.Maildir.Rename
import MailStack.Maildir.StoreRoot

/-! What the calls on folders leave alone in the root of a store. -/

namespace MailStack.Maildir

open Lib

namespace Root

variable {touched : Path → Prop} {start : Root} {path base source target : Path}
  {failing : Path → Path → Bool} {completed : List (Path × Path)} {old : String}

/-- The root is that of the start but under the paths that may be touched. -/
abbrev Near (touched : Path → Prop) (start : Root) : Root → Prop := FileTree.Same touched start

theorem keeps_readText : Keeps (Near touched start) (readText path) := by
  refine .bind .get fun root => ?_
  split
  · exact .pure _
  · exact .throw _
  · split
    · exact .throw _
    · exact .pure _

theorem keeps_normalizedName (name : String) :
    Keeps (Near touched start) (normalizedName name) := by
  unfold normalizedName
  split
  · exact .throw _
  · exact .pure _

theorem keeps_folderPathOf (name : String) : Keeps (Near touched start) (folderPathOf name) := by
  unfold folderPathOf
  split
  · exact .throw _
  · exact .pure _

theorem keeps_scanUsageOf (used : Usage) :
    Keeps (Near touched start) (scanUsageOf path used) := by
  refine .bind .get fun root => ?_
  split
  · exact .pure _
  · exact .throw _
  · exact .pure _

theorem keeps_scanUsageDir (used : Usage) :
    Keeps (Near touched start) (scanUsageDir path used) :=
  .bind (keeps_scanUsageOf used) fun _ => keeps_scanUsageOf _

theorem keeps_scanUsageEach (names : List String) (used : Usage) :
    Keeps (Near touched start) (scanUsageEach names used) := by
  induction names generalizing used with
  | nil => exact .pure _
  | cons name rest ih =>
    unfold scanUsageEach
    exact .ite (ih used)
      (.bind (keeps_folderPathOf name) fun _ => .bind (keeps_scanUsageDir used) ih)

theorem keeps_put {node : RootNode} (inside : touched path) :
    Keeps (Near touched start) (modify (·.put path node) : RootM Unit) :=
  .modify fun _ same => same.put inside

variable {α : Type}

theorem keeps_withLock {action : RootM α} (inside : touched path)
    (kept : Keeps (Near touched start) action) :
    Keeps (Near touched start) (withLock path action) := by
  refine .bind .get fun root => ?_
  split
  · exact .bind (keeps_put inside) fun _ => kept
  · exact kept
  · exact .bind (.throw _) fun _ => kept

theorem keeps_writeAtomic (inside : touched path) (text : String) :
    Keeps (Near touched start) (writeAtomic path text) := by
  refine .bind .get fun root => ?_
  exact .check (keeps_put inside)

theorem keeps_renameEntry (fromHere : ∀ q, source <+: q → touched q)
    (toHere : ∀ q, target <+: q → touched q) :
    Keeps (Near touched start) (renameEntry failing source target) := by
  refine .bind .get fun root => ?_
  have moved : Keeps (Near touched start) (modify (FileTree.move source target) : RootM Unit) :=
    .modify fun _ same => FileTree.Same.move same fromHere toHere
  exact .check moved

theorem keeps_createDirAll (inside : ∀ q, base <+: q → touched q) {done rest : Path}
    (far : base <+: done) : Keeps (Near touched start) (createDirAll done rest) := by
  induction rest generalizing done with
  | nil => exact .pure _
  | cons name rest ih =>
    have further : base <+: done ++ [name] := far.trans (List.prefix_append _ _)
    refine .bind .get fun root => ?_
    split
    · exact .bind (keeps_put (inside _ further)) fun _ => ih further
    · exact ih further
    · exact .throw _

variable {name : String}

theorem keeps_ensureMaildirDirs (inside : ∀ q, [name] <+: q → touched q) :
    Keeps (Near touched start) (ensureMaildirDirs [name]) := by
  have made (sub : String) : Keeps (Near touched start) (createDirAll [] ([name] ++ [sub])) := by
    refine .bind .get fun root => ?_
    split
    · exact .bind (keeps_put (inside _ (List.prefix_rfl))) fun _ =>
        keeps_createDirAll inside List.prefix_rfl
    · exact keeps_createDirAll inside List.prefix_rfl
    · exact .throw _
  exact .bind (made "cur") fun _ => .bind (made "new") fun _ => made "tmp"

theorem keeps_subscribe (file : touched [subscriptionsFile]) (lock : touched [subscriptionsLock])
    (name : String) : Keeps (Near touched start) (subscribe name) := by
  refine .bind (keeps_normalizedName name) fun _ => keeps_withLock lock (.bind .get fun root => ?_)
  exact .ite (keeps_writeAtomic file _) (.pure _)

theorem keeps_unsubscribe (file : touched [subscriptionsFile]) (lock : touched [subscriptionsLock])
    (name : String) : Keeps (Near touched start) (unsubscribe name) := by
  refine .bind (keeps_normalizedName name) fun _ => keeps_withLock lock (.bind .get fun root => ?_)
  exact .ite (keeps_writeAtomic file _) (.pure _)

theorem keeps_rewriteSubscription (file : touched [subscriptionsFile])
    (lock : touched [subscriptionsLock]) (old new : String) :
    Keeps (Near touched start) (rewriteSubscription old new) := by
  refine keeps_withLock lock (.bind .get fun root => ?_)
  exact .ite (keeps_writeAtomic file _) (.pure _)

theorem keeps_cachedOrRecomputeUsage (file : touched [usageFile]) :
    Keeps (Near touched start) cachedOrRecomputeUsage := by
  refine .bind keeps_readText fun text => ?_
  split
  · exact .pure _
  · refine .bind .get fun root => .bind (keeps_scanUsageDir _) fun _ => ?_
    exact .bind (keeps_scanUsageEach _ _) fun _ =>
      .bind (keeps_writeAtomic file _) fun _ => .pure _

theorem keeps_releaseQuota (file : touched [usageFile]) (lock : touched [quotaLock])
    (released : Usage) : Keeps (Near touched start) (releaseQuota released) := by
  refine .bind .get fun root => .ite (.bind (.caught (keeps_withLock lock ?_)) fun _ => .pure _)
    (.pure _)
  exact .bind (keeps_cachedOrRecomputeUsage file) fun used => keeps_writeAtomic file _

/-- The name of the folder that would stand where the script of a mailbox is. -/
def scriptFolder : String := "sieve"

/-- The path of a folder other than that one, or one below it. -/
def InFolder (path : Path) : Prop :=
  ∃ name, normalizeFolderName name = .ok name ∧ name ≠ inbox ∧ name ≠ scriptFolder ∧
    ["." ++ name] <+: path

theorem folderPath_cases (found : folderPath name = .ok path) :
    (isInbox name = true ∧ path = []) ∨
      normalizeFolderName name = .ok name ∧ name ≠ inbox ∧ path = ["." ++ name] := by
  unfold folderPath at found
  cases checked : normalizeFolderName name with
  | error error =>
    rw [checked] at found
    cases found
  | ok normalized =>
    rw [checked] at found
    obtain rfl := Except.ok.inj found
    rcases normal_cases checked with ⟨spelled, rfl⟩ | ⟨rfl, -, other⟩
    · exact .inl ⟨spelled, if_pos rfl⟩
    · exact .inr ⟨rfl, other, if_neg other⟩

theorem inFolder_of_path (found : folderPath name = .ok path)
    (outside : isInbox name = false) (other : name ≠ scriptFolder) :
    ∃ entry, path = [entry] ∧ ∀ q, path <+: q → InFolder q := by
  rcases folderPath_cases found with ⟨spelled, -⟩ | ⟨accepted, notInbox, rfl⟩
  · rw [outside] at spelled
    cases spelled
  · exact ⟨_, rfl, fun q below => ⟨name, accepted, notInbox, other, below⟩⟩

theorem inner_name (inside : '.' ∈ name.toList) :
    isInbox name = false ∧ name ≠ scriptFolder := by
  refine ⟨isInbox_inner inside, ?_⟩
  rintro rfl
  exact absurd inside (by decide)

theorem keeps_normalizedName_bind {f : String → RootM α}
    (next : ∀ normalized, normalizeFolderName name = .ok normalized →
      Keeps (Near touched start) (f normalized)) :
    Keeps (Near touched start) (normalizedName name >>= f) := by
  unfold normalizedName
  cases checked : normalizeFolderName name with
  | error error => exact fun _ good => good
  | ok normalized => exact fun s good => next normalized checked s good

theorem keeps_folderPathOf_bind {f : Path → RootM α}
    (next : ∀ path, folderPath name = .ok path → Keeps (Near touched start) (f path)) :
    Keeps (Near touched start) (folderPathOf name >>= f) := by
  unfold folderPathOf
  cases found : folderPath name with
  | error error => exact fun _ good => good
  | ok path => exact fun s good => next path found s good

section

variable (inside : ∀ q, InFolder q → touched q)
include inside

theorem keeps_create (other : name ≠ scriptFolder) :
    Keeps (Near touched start) (create name) := by
  refine keeps_normalizedName_bind fun normalized checked => ?_
  rcases normal_cases checked with ⟨-, rfl⟩ | ⟨rfl, accepted, notInbox⟩
  · exact fun _ good => good
  · refine .check (keeps_folderPathOf_bind fun path found => .bind .get fun root => .check ?_)
    obtain ⟨entry, rfl, below⟩ :=
      inFolder_of_path found (isInbox_eq_false accepted notInbox) other
    exact keeps_ensureMaildirDirs fun q here => inside q (below q here)

theorem keeps_delete (file : touched [subscriptionsFile]) (lock : touched [subscriptionsLock])
    (usage : touched [usageFile]) (quota : touched [quotaLock])
    (other : name ≠ scriptFolder) : Keeps (Near touched start) (delete name) := by
  refine keeps_normalizedName_bind fun normalized checked => ?_
  rcases normal_cases checked with ⟨-, rfl⟩ | ⟨rfl, accepted, notInbox⟩
  · exact fun _ good => good
  · refine .check (keeps_folderPathOf_bind fun path found => .bind .get fun root => ?_)
    refine .check (.check (.bind (keeps_scanUsageDir _) fun removed => ?_))
    obtain ⟨entry, -, below⟩ := inFolder_of_path found (isInbox_eq_false accepted notInbox) other
    have gone : Keeps (Near touched start) (modify (FileTree.removeBelow path) : RootM Unit) :=
      .modify fun _ same => FileTree.Same.removeBelow same fun q here => inside q (below q here)
    exact .bind gone fun _ => .bind (.caught (keeps_unsubscribe file lock _)) fun _ =>
      keeps_releaseQuota usage quota removed

end

theorem keeps_moveEach (leaving : ∀ name q, [old, name] <+: q → touched q)
    (coming : ∀ q, target <+: q → touched q) (names : List String) :
    Keeps (Near touched start) (moveEach failing [old] target names) := by
  induction names with
  | nil => exact .pure _
  | cons name rest ih =>
    refine .bind .get fun root => ?_
    have moved : Keeps (Near touched start)
        (renameEntry failing ([old] ++ [name]) (target ++ [name])) :=
      keeps_renameEntry (leaving name) fun q below =>
        coming q ((List.prefix_append _ _).trans below)
    split
    · exact .bind moved fun _ => ih
    · exact ih

theorem keeps_moveDirectoryContents
    (leaving : ∀ name q, [old, name] <+: q → touched q)
    (coming : ∀ q, target <+: q → touched q) :
    Keeps (Near touched start) (moveDirectoryContents failing [old] target) := by
  refine .bind .get fun root => ?_
  split
  · exact .pure _
  · exact .throw _
  · exact .bind .get fun root => keeps_moveEach leaving coming _

theorem keeps_moveMeta {files : List String}
    (leaving : ∀ file ∈ files, ∀ q, [file] <+: q → touched q)
    (coming : ∀ q, target <+: q → touched q) :
    Keeps (Near touched start) (moveMeta failing target files) := by
  induction files with
  | nil => exact .pure _
  | cons file rest ih =>
    have later := ih fun file mem => leaving file (List.mem_cons_of_mem _ mem)
    have moved : Keeps (Near touched start) (renameEntry failing [file] (target ++ [file])) :=
      keeps_renameEntry (leaving file List.mem_cons_self) fun q below =>
        coming q ((List.prefix_append _ _).trans below)
    refine .bind .get fun root => ?_
    split
    · exact .bind moved fun _ => later
    · exact later

abbrev Free (touched : Path → Prop) (path : Path) : Prop := ∀ q, path <+: q → touched q

theorem keeps_rollbackRenames
    (free : ∀ e ∈ completed, Free touched e.1 ∧ Free touched e.2) :
    Keeps (Near touched start) (rollbackRenames failing completed) := by
  induction completed with
  | nil => exact .pure _
  | cons e rest ih =>
    obtain ⟨here, there⟩ := free e List.mem_cons_self
    exact .bind (.caught (keeps_renameEntry here there)) fun _ =>
      ih fun e mem => free e (List.mem_cons_of_mem _ mem)

section

variable (inside : ∀ q, InFolder q → touched q)
include inside

theorem free_of_inner (found : folderPath name = .ok path)
    (dot : '.' ∈ name.toList) : Free touched path := by
  obtain ⟨outside, other⟩ := inner_name dot
  obtain ⟨entry, -, below⟩ := inFolder_of_path found outside other
  exact fun q here => inside q (below q here)

variable (file : touched [subscriptionsFile]) (lock : touched [subscriptionsLock])
include file lock

theorem keeps_renameEach
    (free : ∀ e ∈ completed, Free touched e.1 ∧ Free touched e.2) {renames : List (String × String)}
    (inner : ∀ e ∈ renames, '.' ∈ e.1.toList ∧ '.' ∈ e.2.toList) :
    Keeps (Near touched start) (renameEach failing completed renames) := by
  induction renames generalizing completed with
  | nil => exact .pure _
  | cons e rest ih =>
    obtain ⟨dotSource, dotTarget⟩ := inner e List.mem_cons_self
    refine keeps_folderPathOf_bind fun source found => ?_
    refine keeps_folderPathOf_bind fun target found' => .bind .get fun root => ?_
    have freeSource := free_of_inner inside found dotSource
    have freeTarget := free_of_inner inside found' dotTarget
    have rolled : Keeps (Near touched start) (rollbackRenames failing completed) :=
      keeps_rollbackRenames free
    have moved : Keeps (Near touched start) (renameEntry failing source target) :=
      keeps_renameEntry freeSource freeTarget
    have freeAll : ∀ e ∈ (target, source) :: completed, Free touched e.1 ∧ Free touched e.2 := by
      intro e mem
      rcases List.mem_cons.mp mem with rfl | mem
      · exact ⟨freeTarget, freeSource⟩
      · exact free e mem
    have next := ih freeAll fun e mem => inner e (List.mem_cons_of_mem _ mem)
    split
    · exact .bind rolled fun _ => fun _ good => good
    · refine .bind (.caught moved) fun result => ?_
      cases result with
      | error error => exact .bind rolled fun _ => .throw _
      | ok done => exact .bind (keeps_rewriteSubscription file lock _ _) fun _ => next

theorem keeps_renameFolder {folders : List String} {old new : String}
    (accepted : normalizeFolderName old = .ok old) (notInbox : old ≠ inbox)
    (notScript : old ≠ scriptFolder) (accepted' : normalizeFolderName new = .ok new)
    (notInbox' : new ≠ inbox) (notScript' : new ≠ scriptFolder) :
    Keeps (Near touched start) (renameFolder failing folders old new) := by
  refine keeps_folderPathOf_bind fun source found => ?_
  refine keeps_folderPathOf_bind fun target found' => ?_
  obtain ⟨_, -, below⟩ := inFolder_of_path found (isInbox_eq_false accepted notInbox) notScript
  obtain ⟨_, -, below'⟩ := inFolder_of_path found' (isInbox_eq_false accepted' notInbox') notScript'
  have freeSource : Free touched source := fun q here => inside q (below q here)
  have freeTarget : Free touched target := fun q here => inside q (below' q here)
  refine .bind (keeps_renameEntry freeSource freeTarget) fun _ => ?_
  refine .bind (keeps_renameEach inside file lock ?_ ?_) fun _ =>
    keeps_rewriteSubscription file lock _ _
  · intro e mem
    obtain rfl := List.mem_singleton.mp mem
    exact ⟨freeTarget, freeSource⟩
  · intro e mem
    obtain ⟨folder, isChild, rfl⟩ := List.mem_map.mp mem
    obtain ⟨rest, eq⟩ := List.isPrefixOf_iff_prefix.mp (List.mem_filter.mp isChild).2
    rw [String.toList_append] at eq
    have dot : '.' ∈ folder.toList := by
      rw [← eq]
      simp
    have kept : folder.toList.drop old.toList.length = '.' :: rest := by
      rw [← eq, List.append_assoc, List.drop_left]
      rfl
    refine ⟨dot, ?_⟩
    rw [String.toList_append, String.toList_ofList, kept]
    simp

theorem keeps_renameInbox {new : String} (accepted : normalizeFolderName new = .ok new)
    (notInbox : new ≠ inbox) (notScript : new ≠ scriptFolder)
    (messages : ∀ sub ∈ ["cur", "new"], ∀ name, Free touched [sub, name])
    (known : ∀ file ∈ movedMeta, Free touched [file]) :
    Keeps (Near touched start) (renameInbox failing new) := by
  refine keeps_folderPathOf_bind fun destination found => ?_
  obtain ⟨entry, rfl, below⟩ :=
    inFolder_of_path found (isInbox_eq_false accepted notInbox) notScript
  have freeAll : Free touched [entry] := fun q here => inside q (below q here)
  have freeSub (sub : String) : Free touched ([entry] ++ [sub]) := fun q here =>
    freeAll q ((List.prefix_append _ _).trans here)
  refine .bind (keeps_ensureMaildirDirs freeAll) fun _ => ?_
  refine .bind (keeps_moveDirectoryContents (messages "cur" (by simp)) (freeSub "cur")) fun _ => ?_
  refine .bind (keeps_moveDirectoryContents (messages "new" (by simp)) (freeSub "new")) fun _ => ?_
  exact .bind (keeps_moveMeta known freeAll) fun _ => keeps_subscribe file lock _

end

/-- What a call changes on purpose beside folders: the subscriptions, the count of what is used, and
where `INBOX` is renamed, its messages and what is known of them. -/
def Bookkeeping : RootCall → Path → Prop
  | .create _, _ => False
  | .delete _, q =>
    q = [subscriptionsFile] ∨ q = [subscriptionsLock] ∨ q = [usageFile] ∨ q = [quotaLock]
  | .rename old _, q =>
    q = [subscriptionsFile] ∨ q = [subscriptionsLock] ∨ isInbox old = true ∧
      ((∃ sub ∈ ["cur", "new"], ∃ name, [sub, name] <+: q) ∨ ∃ file ∈ movedMeta, [file] <+: q)

/-- The folders that a call is about. -/
def Names : RootCall → String → Prop
  | .create name, folder => name = folder
  | .delete name, folder => name = folder
  | .rename old new, folder => old = folder ∨ new = folder

/-- A call changes folders and what it keeps of them, however it ends. -/
theorem keeps_handler {call : RootCall} (other : ¬Names call scriptFolder) :
    Keeps (Near (fun q => InFolder q ∨ Bookkeeping call q) start) (call.handler failing) := by
  have inside : ∀ q, InFolder q → InFolder q ∨ Bookkeeping call q := fun q here => .inl here
  cases call with
  | create name => exact keeps_create inside other
  | delete name =>
    exact keeps_delete inside (.inr (.inl rfl)) (.inr (.inr (.inl rfl)))
      (.inr (.inr (.inr (.inl rfl)))) (.inr (.inr (.inr (.inr rfl)))) other
  | rename old new =>
    have file : InFolder [subscriptionsFile] ∨ Bookkeeping (.rename old new) [subscriptionsFile] :=
      .inr (.inl rfl)
    have lock : InFolder [subscriptionsLock] ∨ Bookkeeping (.rename old new) [subscriptionsLock] :=
      .inr (.inr (.inl rfl))
    refine keeps_normalizedName_bind fun source checked => ?_
    refine keeps_normalizedName_bind fun target checked' => .check (.bind .get fun root => ?_)
    refine keeps_folderPathOf_bind fun sourcePath found => .check ?_
    refine keeps_folderPathOf_bind fun targetPath found' => ?_
    -- the root is a directory, so what follows is done for another target than `INBOX` only
    have whenFree (error : MailError) (next : RootM Unit) (kept : target ≠ inbox →
        Keeps (Near (fun q => InFolder q ∨ Bookkeeping (.rename old new) q) start) next) :
        Keeps (Near (fun q => InFolder q ∨ Bookkeeping (.rename old new) q) start)
          (if root.isDir targetPath = true then throw error >>= fun _ : Unit => next else next) := by
      by_cases toInbox : target = inbox
      · subst toInbox
        rcases folderPath_cases found' with ⟨-, rfl⟩ | ⟨-, notInbox, -⟩
        · exact fun _ good => good
        · exact absurd rfl notInbox
      · exact .check (f := fun _ => next) (kept toInbox)
    have ofTarget (notInbox' : target ≠ inbox) :
        normalizeFolderName target = .ok target ∧ target ≠ scriptFolder := by
      obtain ⟨rfl, accepted', -⟩ := (normal_cases checked').resolve_left fun h => notInbox' h.2
      exact ⟨accepted', fun eq => other (.inr eq)⟩
    rcases normal_cases checked with ⟨spelled, rfl⟩ | ⟨rfl, accepted, notInbox⟩
    · rw [if_pos rfl]
      refine whenFree _ _ fun notInbox' => ?_
      obtain ⟨accepted', notScript'⟩ := ofTarget notInbox'
      refine keeps_renameInbox inside file lock accepted' notInbox' notScript' ?_ ?_
      · exact fun sub mem name q below => .inr (.inr (.inr ⟨spelled, .inl ⟨sub, mem, name, below⟩⟩))
      · exact fun file mem q below => .inr (.inr (.inr ⟨spelled, .inr ⟨file, mem, below⟩⟩))
    · rw [if_neg notInbox]
      refine whenFree _ _ fun notInbox' => ?_
      obtain ⟨accepted', notScript'⟩ := ofTarget notInbox'
      exact keeps_renameFolder inside file lock accepted notInbox (fun eq => other (.inl eq))
        accepted' notInbox' notScript'

end Root

end MailStack.Maildir
