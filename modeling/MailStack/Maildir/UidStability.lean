import MailStack.Lib.Machine
import MailStack.Maildir.Folder

/-! The UIDs of a folder that any number of processes use at once. A folder is scanned outside its
lock and the list of UIDs is then brought in line with the scan, so a message that came in after the
scan loses the UID that it was given and gets another one later. -/

namespace MailStack.Maildir

open Lib

inductive Process
  | idle
  | appending (staged renamed : List MessageFile)
  | scanning (promote : Bool) (new : List MessageFile)
  | scanned (promote : Bool) (scan : List MessageFile)
  | synced (promote : Bool) (scan : List MessageFile) (mapping : UidList)
  | reading (scan : List MessageFile) (mapping : UidList)

structure Sighting where
  uidvalidity : Nat
  uid : Nat
  base : String
deriving DecidableEq

/-- A folder and the processes that use it. `used` are the bases drawn so far, `given` every entry
that the list of UIDs ever had, `shown` what the operations returned. -/
structure Shared (P : Type) where
  folder : Folder
  procs : P → Process
  used : List String
  given : List Sighting
  shown : List Sighting

inductive SharedStep (P : Type)
  | append (p : P) (staged : List MessageFile)
  | rename (p : P)
  | assign (p : P) (fresh : Nat)
  | openNew (p : P) (promote : Bool)
  | openCur (p : P)
  | sync (p : P) (fresh : Nat)
  | promote (p : P)
  | stat (p : P) (base : String)
  | close (p : P)
  | setFlags (p : P) (uid : Nat) (flags : FlagSet)
  | expunge (p : P) (uids : List Nat)

def UidList.sightings (list : UidList) : List Sighting :=
  list.byUid.map fun e => { uidvalidity := list.uidvalidity, uid := e.uid, base := e.base }

section Processes

variable {P : Type} [DecidableEq P]

/-- The folder as it is found, with nothing under way. -/
def Shared.init (folder : Folder) : Shared P :=
  { folder
    procs := fun _ => .idle
    used := folder.files.map (·.base) ++
      ((loadUidlist folder.uidFile).map fun (l : UidList) => l.byUid.map UidEntry.base).getD []
    given := ((loadUidlist folder.uidFile).map UidList.sightings).getD []
    shown := [] }

def Shared.goto (s : Shared P) (p : P) (next : Process) : Shared P :=
  { s with procs := Function.update s.procs p next }

theorem goto_self (s : Shared P) (p : P) (next : Process) : (s.goto p next).procs p = next :=
  Function.update_self ..

theorem goto_other {s : Shared P} {p q : P} {next : Process} (ne : q ≠ p) :
    (s.goto p next).procs q = s.procs q :=
  Function.update_of_ne ne ..

/-- The section under the lock wrote `list`. -/
def Shared.write (s : Shared P) (list : UidList) : Shared P :=
  { s with
    folder := { s.folder with uidFile := some list, expunged := s.folder.history }
    given := s.given ++ list.sightings }

/-- One step: a call to the file system or a section under the lock. -/
def Shared.step (s : Shared P) : SharedStep P → Option (Shared P)
  | .append p staged =>
    match s.procs p with
    | .idle =>
      if staged ≠ [] ∧ (staged.map MessageFile.base).Nodup ∧
          ∀ f ∈ staged, isValidBase f.base = true ∧ f.base ∉ s.used then
        some ({ s with used := s.used ++ staged.map MessageFile.base }.goto p (.appending staged []))
      else none
    | _ => none
  | .rename p =>
    match s.procs p with
    | .appending (f :: rest) renamed =>
      some ({ s with folder := { s.folder with files := s.folder.files ++ [f] } }.goto p
        (.appending rest (renamed ++ [f])))
    | _ => none
  | .assign p fresh =>
    match s.procs p with
    | .appending [] renamed =>
      if 0 < fresh ∧ fresh ≤ u32Max then
        match assignUidsMany s.folder.uidFile (renamed.map (·.base)) fresh with
        | some (list, uids) =>
          let seen := List.zipWith (fun f uid => Sighting.mk list.uidvalidity uid f.base)
            renamed uids
          some ({ s.write list with shown := s.shown ++ seen }.goto p .idle)
        | none =>
          let left := s.folder.files.filter fun f => !renamed.contains f
          some ({ s with folder := { s.folder with files := left } }.goto p .idle)
      else none
    | _ => none
  | .openNew p promote =>
    match s.procs p with
    | .idle => some (s.goto p (.scanning promote (scanDirectory s.folder.files .new)))
    | _ => none
  | .openCur p =>
    match s.procs p with
    | .scanning promote new =>
      let scan := mergeScan new (scanDirectory s.folder.files .cur)
      some (s.goto p (if scan.length > maxScanEntries then .idle else .scanned promote scan))
    | _ => none
  | .sync p fresh =>
    match s.procs p with
    | .scanned promote scan =>
      if 0 < fresh ∧ fresh ≤ u32Max then
        match syncUidlist s.folder.uidFile (scanBases scan) fresh with
        | some list => some ((s.write list).goto p (.synced promote scan list))
        | none => some (s.goto p .idle)
      else none
    | _ => none
  | .promote p =>
    match s.procs p with
    | .synced true scan mapping =>
      some ({ s with folder :=
          { s.folder with files := promoteFiles scan s.folder.files } }.goto p
        (.reading (promoteScan scan) mapping))
    | .synced false scan mapping => some (s.goto p (.reading scan mapping))
    | _ => none
  | .stat p base =>
    match s.procs p with
    | .reading scan mapping =>
      match scan.find? (·.base = base), mapping.uidOf base with
      | some f, some uid =>
        if s.folder.files.any fun g => g.base = f.base && g.directory = f.directory &&
            g.flags = f.flags then
          some { s with shown := s.shown ++ [⟨mapping.uidvalidity, uid, base⟩] }
        else some s
      | _, _ => some s
    | _ => none
  | .close p =>
    match s.procs p with
    | .reading _ _ => some (s.goto p .idle)
    | _ => none
  | .setFlags p uid flags =>
    match s.procs p with
    | .idle =>
      match s.folder.setFlags uid flags with
      | .ok (folder, list, target) =>
        some
          { s with
            folder
            shown := s.shown ++ [⟨list.uidvalidity, uid, target.base⟩] }
      | .error _ => some s
    | _ => none
  | .expunge p uids =>
    match s.procs p with
    | .idle => some { s with folder := (s.folder.expunge uids).1 }
    | _ => none

/-- A UID is given to one message only, while the UIDVALIDITY stays. -/
def Shared.UidsUnique (s : Shared P) : Prop :=
  ∀ a ∈ s.given, ∀ b ∈ s.given, a.uidvalidity = b.uidvalidity → a.uid = b.uid → a.base = b.base

/-- A message is shown under one UID only, while the UIDVALIDITY stays. -/
def Shared.UidsStable (s : Shared P) : Prop :=
  ∀ a ∈ s.shown, ∀ b ∈ s.shown, a.uidvalidity = b.uidvalidity → a.base = b.base → a.uid = b.uid

/-- The list of UIDs is brought in line with a scan that has every listed message that is there, and
UIDs are assigned to messages that are still there. -/
def Shared.Covered (s : Shared P) : SharedStep P → Prop
  | .sync p _ => ∀ promote scan, s.procs p = .scanned promote scan →
    ∀ list uid base, loadUidlist s.folder.uidFile = some list → list.Lists uid base →
      Present s.folder.files base → base ∈ scanBases scan
  | .assign p _ => ∀ renamed, s.procs p = .appending [] renamed →
    ∀ f ∈ renamed, Present s.folder.files f.base
  | _ => True

/-! ### What one step can do -/

def Process.staged : Process → List MessageFile
  | .appending staged _ => staged
  | _ => []

/-- The files that a process found in the folder or moved into it. -/
def Process.found : Process → List MessageFile
  | .idle => []
  | .appending _ renamed => renamed
  | .scanning _ new => new
  | .scanned _ scan => scan
  | .synced _ scan _ => scan
  | .reading scan _ => scan

def Process.mapping : Process → Option UidList
  | .synced _ _ mapping => some mapping
  | .reading _ mapping => some mapping
  | _ => none

def Shared.withFiles (s : Shared P) (files : List MessageFile) : Shared P :=
  { s with folder := { s.folder with files } }

def returned (list : UidList) (renamed : List MessageFile) (uids : List Nat) : List Sighting :=
  List.zipWith (fun f uid => Sighting.mk list.uidvalidity uid f.base) renamed uids

/-- The outcomes of a step, one constructor each. -/
inductive Shared.Move (s : Shared P) : SharedStep P → Shared P → Prop
  | stay (l : SharedStep P) : Move s l s
  | leave (p : P) (l : SharedStep P) : Move s l (s.goto p .idle)
  | append {p : P} {staged : List MessageFile} (idle : s.procs p = .idle)
      (nodup : (staged.map MessageFile.base).Nodup)
      (fresh : ∀ f ∈ staged, isValidBase f.base = true ∧ f.base ∉ s.used) :
      Move s (.append p staged)
        ({ s with used := s.used ++ staged.map MessageFile.base }.goto p (.appending staged []))
  | rename {p : P} {f : MessageFile} {rest renamed : List MessageFile}
      (at' : s.procs p = .appending (f :: rest) renamed) :
      Move s (.rename p)
        ((s.withFiles (s.folder.files ++ [f])).goto p (.appending rest (renamed ++ [f])))
  | assigned {p : P} {fresh : Nat} {renamed : List MessageFile} {list : UidList} {uids : List Nat}
      (at' : s.procs p = .appending [] renamed) (hfresh : IsUidvalidity fresh)
      (run : assignUidsMany s.folder.uidFile (renamed.map (·.base)) fresh = some (list, uids)) :
      Move s (.assign p fresh)
        ({ s.write list with shown := s.shown ++ returned list renamed uids }.goto p .idle)
  | unassigned {p : P} {fresh : Nat} (left : List MessageFile) (sub : left.Sublist s.folder.files) :
      Move s (.assign p fresh) ((s.withFiles left).goto p .idle)
  | openNew {p : P} {promote : Bool} :
      Move s (.openNew p promote)
        (s.goto p (.scanning promote (scanDirectory s.folder.files .new)))
  | openCur {p : P} {promote : Bool} {new : List MessageFile}
      (at' : s.procs p = .scanning promote new) :
      Move s (.openCur p)
        (s.goto p (.scanned promote (mergeScan new (scanDirectory s.folder.files .cur))))
  | synced {p : P} {fresh : Nat} {promote : Bool} {scan : List MessageFile} {list : UidList}
      (at' : s.procs p = .scanned promote scan) (hfresh : IsUidvalidity fresh)
      (run : syncUidlist s.folder.uidFile (scanBases scan) fresh = some list) :
      Move s (.sync p fresh) ((s.write list).goto p (.synced promote scan list))
  | promote {p : P} {scan : List MessageFile} {mapping : UidList}
      (at' : s.procs p = .synced true scan mapping) :
      Move s (.promote p)
        ((s.withFiles (promoteFiles scan s.folder.files)).goto p
          (.reading (promoteScan scan) mapping))
  | keep {p : P} {scan : List MessageFile} {mapping : UidList}
      (at' : s.procs p = .synced false scan mapping) :
      Move s (.promote p) (s.goto p (.reading scan mapping))
  | stat {p : P} {base : String} {scan : List MessageFile} {mapping : UidList} {uid : Nat}
      (at' : s.procs p = .reading scan mapping) (lists : mapping.Lists uid base)
      (there : Present s.folder.files base) :
      Move s (.stat p base) { s with shown := s.shown ++ [⟨mapping.uidvalidity, uid, base⟩] }
  | setFlags {p : P} {uid : Nat} {flags : FlagSet} {folder : Folder} {list : UidList}
      {target : MessageFile} (run : s.folder.setFlags uid flags = .ok (folder, list, target)) :
      Move s (.setFlags p uid flags)
        { s with folder, shown := s.shown ++ [⟨list.uidvalidity, uid, target.base⟩] }
  | expunge {p : P} {uids : List Nat} :
      Move s (.expunge p uids) { s with folder := (s.folder.expunge uids).1 }

theorem step_move {s t : Shared P} {l : SharedStep P} (h : s.step l = some t) : s.Move l t := by
  cases l with
  | append p staged =>
    simp only [Shared.step] at h
    split at h
    · split at h
      · rename_i idle cond
        cases h
        exact .append idle cond.2.1 cond.2.2
      · cases h
    · cases h
  | rename p =>
    simp only [Shared.step] at h
    split at h
    · cases h
      exact .rename ‹_›
    · cases h
  | assign p fresh =>
    simp only [Shared.step] at h
    split at h
    · split at h
      · rename_i at' hfresh
        split at h
        · cases h
          exact .assigned at' hfresh ‹_›
        · cases h
          exact .unassigned _ List.filter_sublist
      · cases h
    · cases h
  | openNew p promote =>
    simp only [Shared.step] at h
    split at h
    · cases h
      exact .openNew
    · cases h
  | openCur p =>
    simp only [Shared.step] at h
    split at h
    · cases h
      split
      · exact .leave p _
      · exact .openCur ‹_›
    · cases h
  | sync p fresh =>
    simp only [Shared.step] at h
    split at h
    · split at h
      · rename_i at' hfresh
        split at h
        · cases h
          exact .synced at' hfresh ‹_›
        · cases h
          exact .leave p _
      · cases h
    · cases h
  | promote p =>
    simp only [Shared.step] at h
    split at h
    · cases h
      exact .promote ‹_›
    · cases h
      exact .keep ‹_›
    · cases h
  | stat p base =>
    simp only [Shared.step] at h
    split at h
    · rename_i scan mapping at'
      split at h
      · rename_i f uid found hasUid
        split at h
        · rename_i there
          cases h
          obtain ⟨e, mem, huid, hbase⟩ := uidOf_some hasUid
          obtain ⟨g, gmem, same⟩ := List.any_eq_true.mp there
          have fbase : f.base = base := by simpa using List.find?_some found
          simp only [Bool.and_eq_true, decide_eq_true_eq] at same
          exact .stat at' ⟨e, mem, huid, hbase⟩ ⟨g, gmem, same.1.1.trans fbase⟩
        · cases h
          exact .stay _
      · cases h
        exact .stay _
    · cases h
  | close p =>
    simp only [Shared.step] at h
    split at h
    · cases h
      exact .leave p _
    · cases h
  | setFlags p uid flags =>
    simp only [Shared.step] at h
    split at h
    · split at h
      · cases h
        exact .setFlags ‹_›
      · cases h
        exact .stay _
    · cases h
  | expunge p uids =>
    simp only [Shared.step] at h
    split at h
    · cases h
      exact .expunge
    · cases h

end Processes

section Invariants

variable {P : Type} {s : Shared P} {list : UidList} {o : Sighting} {fresh : Nat} {base : String}
  {folder : Folder} {p : P} {f : MessageFile} {next : Process} {bases : List String}
  {uids : List Nat} {renamed : List MessageFile} {files : List MessageFile}
  {scan : List MessageFile} {more : List Sighting} {q : Process}

/-! ### A UID stands for one message -/

def Shared.Given (s : Shared P) (list : UidList) (uid : Nat) (base : String) : Prop :=
  (⟨list.uidvalidity, uid, base⟩ : Sighting) ∈ s.given

structure Shared.Sound (s : Shared P) : Prop where
  listed : ∀ list, loadUidlist s.folder.uidFile = some list →
    ∀ uid base, list.Lists uid base → s.Given list uid base
  below : ∀ o ∈ s.given, ∃ list, loadUidlist s.folder.uidFile = some list ∧
    o.uidvalidity = list.uidvalidity ∧ o.uid < list.uidnext
  unique : s.UidsUnique
  valid : ∀ p, ∀ f ∈ (s.procs p).staged ++ (s.procs p).found, isValidBase f.base = true
  mapped : ∀ p, ∀ m ∈ (s.procs p).mapping, ∀ uid base, m.Lists uid base → s.Given m uid base
  shown : ∀ o ∈ s.shown, o ∈ s.given

theorem mem_sightings :
    o ∈ list.sightings ↔ o.uidvalidity = list.uidvalidity ∧ list.Lists o.uid o.base := by
  constructor
  · intro mem
    obtain ⟨e, he, rfl⟩ := List.mem_map.mp mem
    exact ⟨rfl, e, he, rfl, rfl⟩
  · rintro ⟨validity, e, he, huid, hbase⟩
    refine List.mem_map.mpr ⟨e, he, ?_⟩
    cases o
    simp_all

section

variable (h : s.Sound)

include h

theorem Shared.Sound.loaded (mem : o ∈ s.given)
    (fresh : Nat) : loadUidlist s.folder.uidFile = some (loadOrRebuild s.folder.uidFile fresh) ∧
      o.uidvalidity = (loadOrRebuild s.folder.uidFile fresh).uidvalidity ∧
      o.uid < (loadOrRebuild s.folder.uidFile fresh).uidnext := by
  obtain ⟨list, load, validity, low⟩ := h.below o mem
  have same : loadOrRebuild s.folder.uidFile fresh = list := by simp [loadOrRebuild, load]
  rw [same]
  exact ⟨load, validity, low⟩

theorem Shared.Sound.rebuilt {fresh uid : Nat}
    (lists : (loadOrRebuild s.folder.uidFile fresh).Lists uid base) :
    s.Given (loadOrRebuild s.folder.uidFile fresh) uid base := by
  cases load : loadUidlist s.folder.uidFile with
  | some list =>
    have same : loadOrRebuild s.folder.uidFile fresh = list := by simp [loadOrRebuild, load]
    rw [same] at lists ⊢
    exact h.listed list load uid base lists
  | none =>
    obtain ⟨e, mem, -⟩ := lists
    simp [loadOrRebuild, load] at mem

theorem Shared.Sound.goto [DecidableEq P]
    (valid : ∀ f ∈ next.staged ++ next.found, isValidBase f.base = true)
    (mapped : ∀ m ∈ next.mapping, ∀ uid base, m.Lists uid base → s.Given m uid base) :
    (s.goto p next).Sound := by
  refine ⟨h.listed, h.below, h.unique, ?_, ?_, h.shown⟩
  · exact (Function.forall_update_iff s.procs
      fun _ q => ∀ f ∈ q.staged ++ q.found, isValidBase f.base = true).mpr
        ⟨valid, fun q _ => h.valid q⟩
  · exact (Function.forall_update_iff s.procs
      fun _ q => ∀ m ∈ q.mapping, ∀ uid base, m.Lists uid base → s.Given m uid base).mpr
        ⟨mapped, fun q _ => h.mapped q⟩

theorem Shared.Sound.withFiles (files : List MessageFile) :
    (s.withFiles files).Sound :=
  ⟨h.listed, h.below, h.unique, h.valid, h.mapped, h.shown⟩

theorem Shared.Sound.draw (bases : List String) :
    ({ s with used := s.used ++ bases } : Shared P).Sound :=
  ⟨h.listed, h.below, h.unique, h.valid, h.mapped, h.shown⟩

theorem Shared.Sound.write
    (grown : Grown (loadOrRebuild s.folder.uidFile fresh) list bases) :
    (s.write list).Sound := by
  have load : loadUidlist (s.write list).folder.uidFile = some list :=
    loadUidlist_of_accepted grown.accepted
  refine ⟨?_, ?_, ?_, h.valid, ?_, fun o mem => List.mem_append_left _ (h.shown o mem)⟩
  · intro l hl uid base lists
    obtain rfl : list = l := Option.some.inj (load.symm.trans hl)
    exact List.mem_append_right _ (mem_sightings.mpr ⟨rfl, lists⟩)
  · intro o mem
    rcases List.mem_append.mp mem with old | new
    · obtain ⟨-, validity, low⟩ := h.loaded old fresh
      exact ⟨list, load, validity.trans grown.uidvalidity.symm, lt_of_lt_of_le low grown.later⟩
    · obtain ⟨validity, lists⟩ := mem_sightings.mp new
      exact ⟨list, load, validity, grown.accepted.uid_lt lists⟩
  · -- an entry that was not in the list has a UID that nothing given before has
    have fromList : ∀ a ∈ s.given, ∀ b ∈ list.sightings, a.uid = b.uid → a.base = b.base := by
      intro a ha b hb same
      obtain ⟨-, lists⟩ := mem_sightings.mp hb
      obtain ⟨-, validity, low⟩ := h.loaded ha fresh
      rcases grown.added _ _ lists with old | ⟨high, -⟩
      · have known := h.unique a ha _ (h.rebuilt old) validity same
        exact known
      · omega
    intro a ha b hb validity same
    rcases List.mem_append.mp ha with ha | ha <;> rcases List.mem_append.mp hb with hb | hb
    · exact h.unique a ha b hb validity same
    · exact fromList a ha b hb same
    · exact (fromList b hb a ha same.symm).symm
    · have la := (mem_sightings.mp ha).2
      rw [same] at la
      exact grown.accepted.base_eq la (mem_sightings.mp hb).2
  · exact fun p m hm uid base lists => List.mem_append_left _ (h.mapped p m hm uid base lists)

theorem Shared.Sound.show
    (given : ∀ o ∈ more, o ∈ s.given) : ({ s with shown := s.shown ++ more } : Shared P).Sound := by
  refine ⟨h.listed, h.below, h.unique, h.valid, h.mapped, fun o mem => ?_⟩
  rcases List.mem_append.mp mem with old | new
  · exact h.shown o old
  · exact given o new

theorem Shared.Sound.relist {list list' : UidList}
    {expunged : List Removal}
    (load : loadUidlist s.folder.uidFile = some list) (accepted : list'.Accepted)
    (validity : list'.uidvalidity = list.uidvalidity) (next : list'.uidnext = list.uidnext)
    (lists : ∀ uid base, list'.Lists uid base → list.Lists uid base) :
    ({ s with folder := { s.folder with files, uidFile := some list', expunged } } :
      Shared P).Sound := by
  have load' := loadUidlist_of_accepted accepted
  refine ⟨?_, ?_, h.unique, h.valid, h.mapped, h.shown⟩
  · intro l hl uid base here
    obtain rfl : list' = l := Option.some.inj (load'.symm.trans hl)
    have := h.listed list load uid base (lists uid base here)
    unfold Shared.Given at this ⊢
    rwa [validity]
  · intro o mem
    obtain ⟨l, hl, hv, low⟩ := h.below o mem
    obtain rfl : list = l := Option.some.inj (load.symm.trans hl)
    exact ⟨list', load', hv.trans validity.symm, next ▸ low⟩

end

theorem mem_returned
    (all : List.Forall₂ (fun base uid => list.Lists uid base) (renamed.map (·.base)) uids)
    (mem : o ∈ returned list renamed uids) :
    o ∈ list.sightings ∧ ∃ f ∈ renamed, f.base = o.base := by
  induction renamed generalizing uids with
  | nil => simp [returned] at mem
  | cons f rest ih =>
    cases all with
    | cons lists others =>
      rcases List.mem_cons.mp mem with rfl | later
      · exact ⟨mem_sightings.mpr ⟨rfl, lists⟩, f, List.mem_cons_self, rfl⟩
      · obtain ⟨here, g, hg, same⟩ := ih others later
        exact ⟨here, g, List.mem_cons_of_mem _ hg, same⟩

theorem mem_promoteScan (mem : f ∈ promoteScan scan) :
    ∃ g ∈ scan, g.base = f.base := by
  obtain ⟨g, hg, rfl⟩ := List.mem_map.mp mem
  refine ⟨g, hg, ?_⟩
  split_ifs <;> rfl

theorem Shared.Sound.found_valid (h : s.Sound)
    (at' : s.procs p = q) (mem : f ∈ q.found) : isValidBase f.base = true :=
  h.valid p f (List.mem_append_right _ (at' ▸ mem))

theorem Shared.Sound.assign_spec (h : s.Sound)
    (at' : s.procs p = .appending [] renamed) (hfresh : IsUidvalidity fresh)
    (run : assignUidsMany s.folder.uidFile (renamed.map (·.base)) fresh = some (list, uids)) :
    Grown (loadOrRebuild s.folder.uidFile fresh) list (renamed.map (·.base)) ∧
      (∀ uid base, (loadOrRebuild s.folder.uidFile fresh).Lists uid base → list.Lists uid base) ∧
      List.Forall₂ (fun base uid => list.Lists uid base) (renamed.map (·.base)) uids := by
  refine assignUidsMany_spec hfresh (fun b hb => ?_) run
  obtain ⟨f, hf, rfl⟩ := List.mem_map.mp hb
  exact h.found_valid at' hf

theorem Shared.Sound.sync_spec (h : s.Sound) {promote : Bool}
    (at' : s.procs p = .scanned promote scan) (hfresh : IsUidvalidity fresh)
    (run : syncUidlist s.folder.uidFile (scanBases scan) fresh = some list) :
    Grown (loadOrRebuild s.folder.uidFile fresh) list (scanBases scan) ∧
      ∀ uid base, (loadOrRebuild s.folder.uidFile fresh).Lists uid base → base ∈ scanBases scan →
        list.Lists uid base := by
  refine syncUidlist_spec hfresh (fun b hb => ?_) run
  obtain ⟨f, hf, rfl⟩ := mem_scanBases.mp hb
  exact h.found_valid at' hf

theorem Shared.Sound.step [DecidableEq P] {s t : Shared P} {l : SharedStep P} (h : s.Sound)
    (move : s.Move l t) : t.Sound := by
  cases move with
  | stay => exact h
  | leave p => exact h.goto (by simp [Process.staged, Process.found]) (by simp [Process.mapping])
  | append idle nodup fresh =>
    refine (h.draw _).goto (fun f mem => ?_) (by simp [Process.mapping])
    exact (fresh f (by simpa [Process.staged, Process.found] using mem)).1
  | @rename p f rest renamed at' =>
    refine (h.withFiles _).goto (fun g mem => h.valid p g ?_) (by simp [Process.mapping])
    rw [at']
    simp only [Process.staged, Process.found, List.mem_append, List.mem_cons,
      List.not_mem_nil, or_false] at mem ⊢
    tauto
  | @assigned p fresh renamed list uids at' hfresh run =>
    obtain ⟨grown, -, all⟩ := h.assign_spec at' hfresh run
    refine Shared.Sound.goto ((h.write grown).show fun o mem => ?_)
      (by simp [Process.staged, Process.found]) (by simp [Process.mapping])
    exact List.mem_append_right _ (mem_returned all mem).1
  | unassigned left _ =>
    exact (h.withFiles left).goto (by simp [Process.staged, Process.found])
      (by simp [Process.mapping])
  | openNew =>
    refine h.goto (fun f mem => ?_) (by simp [Process.mapping])
    exact (mem_scanDirectory mem).2
  | @openCur p promote new at' =>
    refine h.goto (fun f mem => ?_) (by simp [Process.mapping])
    rcases mem_mergeScan mem with before | now
    · exact h.found_valid at' before
    · exact (mem_scanDirectory now).2
  | @synced p fresh promote scan list at' hfresh run =>
    obtain ⟨grown, -⟩ := h.sync_spec at' hfresh run
    refine (h.write grown).goto (fun f mem => h.valid p f ?_) fun m hm uid base lists => ?_
    · rw [at']
      exact mem
    cases hm
    exact List.mem_append_right _ (mem_sightings.mpr ⟨rfl, lists⟩)
  | @promote p scan mapping at' =>
    refine (h.withFiles _).goto (fun f mem => ?_) (fun m hm => h.mapped p m (at' ▸ hm))
    obtain ⟨g, hg, same⟩ := mem_promoteScan mem
    rw [← same]
    exact h.found_valid at' hg
  | @keep p scan mapping at' =>
    refine h.goto (fun f mem => h.valid p f ?_) (fun m hm => h.mapped p m (at' ▸ hm))
    rw [at']
    exact mem
  | @stat p base scan mapping uid at' lists there =>
    refine h.show fun o mem => ?_
    rw [List.mem_singleton.mp mem]
    exact h.mapped p mapping (by rw [at']; rfl) uid base lists
  | @setFlags p uid flags folder list target run =>
    obtain ⟨old, source, load, lists, rfl, -, -, rfl⟩ := setFlags_ok run
    refine (h.relist load ((loadUidlist_some load).2.touch uid) rfl rfl ?_).show ?_
    · exact fun _ _ => touch_lists.mp
    · intro o mem
      rw [List.mem_singleton.mp mem]
      exact h.listed old load uid target.base lists
  | @expunge p uids =>
    unfold Folder.expunge
    split
    · exact h
    · rename_i list load
      simp only
      split
      · exact h.withFiles _
      · exact h.relist load ((loadUidlist_some load).2.drop _) rfl rfl
          fun _ _ lists => (drop_lists.mp lists).1

/-! ### No base comes back -/

/-- The message has been in the folder: its file is there, it was given a UID, or a process found
it. -/
def Shared.Circulates (s : Shared P) (base : String) : Prop :=
  Present s.folder.files base ∨ (∃ o ∈ s.given, o.base = base) ∨
    ∃ p, ∃ f ∈ (s.procs p).found, f.base = base

structure Shared.Distinct (s : Shared P) : Prop where
  files : (s.folder.files.map MessageFile.base).Nodup
  staged : ∀ p, ((s.procs p).staged.map MessageFile.base).Nodup
  apart : ∀ p q, p ≠ q → ∀ f ∈ (s.procs p).staged, ∀ g ∈ (s.procs q).staged, f.base ≠ g.base
  drawn : ∀ base, s.Circulates base → base ∈ s.used
  pending : ∀ p, ∀ f ∈ (s.procs p).staged, f.base ∈ s.used ∧ ¬s.Circulates f.base

theorem Shared.Distinct.step_of {s t : Shared P} (h : s.Distinct)
    (files : (t.folder.files.map MessageFile.base).Nodup)
    (staged : ∀ p, (t.procs p).staged.Sublist (s.procs p).staged)
    (circulates : ∀ base, t.Circulates base → s.Circulates base) (used : t.used = s.used) :
    t.Distinct := by
  refine ⟨files, fun p => (h.staged p).sublist ((staged p).map _), ?_, ?_, ?_⟩
  · exact fun p q ne f hf g hg =>
      h.apart p q ne f ((staged p).subset hf) g ((staged q).subset hg)
  · exact fun base circ => used ▸ h.drawn base (circulates base circ)
  · intro p f hf
    obtain ⟨mem, out⟩ := h.pending p f ((staged p).subset hf)
    exact ⟨used ▸ mem, fun circ => out (circulates _ circ)⟩

theorem staged_goto [DecidableEq P]
    (sub : next.staged.Sublist (s.procs p).staged) (q : P) :
    ((s.goto p next).procs q).staged.Sublist (s.procs q).staged := by
  by_cases same : q = p
  · subst same
    rwa [goto_self]
  · rw [goto_other same]

/-- What is in circulation after a step of `p` is what was before, if this is so of what `p` found
and of the new files and UIDs. -/
theorem circulates_goto [DecidableEq P] {s t : Shared P}
    (procs : t.procs = s.procs) (files : ∀ base, Present t.folder.files base → s.Circulates base)
    (given : ∀ o ∈ t.given, s.Circulates o.base) (found : ∀ f ∈ next.found, s.Circulates f.base)
    (circ : (t.goto p next).Circulates base) : s.Circulates base := by
  rcases circ with there | ⟨o, ho, rfl⟩ | ⟨q, f, hf, rfl⟩
  · exact files base there
  · exact given o ho
  · by_cases same : q = p
    · subst same
      rw [goto_self] at hf
      exact found f hf
    · rw [goto_other same, procs] at hf
      exact .inr (.inr ⟨q, f, hf, rfl⟩)

theorem found_circulates (at' : s.procs p = q)
    (mem : f ∈ q.found) : s.Circulates f.base :=
  .inr (.inr ⟨p, f, at' ▸ mem, rfl⟩)

theorem Shared.Sound.write_circulates (h : s.Sound)
    (grown : Grown (loadOrRebuild s.folder.uidFile fresh) list bases)
    (known : ∀ b ∈ bases, s.Circulates b) (mem : o ∈ (s.write list).given) :
    s.Circulates o.base := by
  rcases List.mem_append.mp mem with old | new
  · exact .inr (.inl ⟨o, old, rfl⟩)
  · rcases grown.added _ _ (mem_sightings.mp new).2 with old | ⟨-, given, -⟩
    · exact .inr (.inl ⟨_, h.rebuilt old, rfl⟩)
    · exact known _ given

theorem promoteFiles_bases (scan files : List MessageFile) :
    (promoteFiles scan files).map MessageFile.base = files.map MessageFile.base := by
  rw [promoteFiles, List.map_map]
  refine List.map_congr_left fun f _ => ?_
  simp only [Function.comp]
  split_ifs <;> rfl

theorem present_iff :
    Present files base ↔ base ∈ files.map MessageFile.base := by
  simp [Present]

theorem setFlags_bases {folder folder' : Folder} {uid : Nat} {flags : FlagSet}
    {target : MessageFile} (h : folder.setFlags uid flags = .ok (folder', list, target)) :
    folder'.files.map MessageFile.base = folder.files.map MessageFile.base := by
  obtain ⟨-, source, -, -, -, -, rfl, rfl⟩ := setFlags_ok h
  simp only [List.map_map]
  refine List.map_congr_left fun f _ => ?_
  simp only [Function.comp]
  split_ifs with same
  · rw [same]
  · rfl

theorem Shared.Distinct.goto [DecidableEq P] {s t : Shared P}
    (h : s.Distinct) (procs : t.procs = s.procs) (used : t.used = s.used)
    (files : (t.folder.files.map MessageFile.base).Sublist (s.folder.files.map MessageFile.base))
    (given : ∀ o ∈ t.given, s.Circulates o.base)
    (staged : next.staged = []) (found : ∀ f ∈ next.found, s.Circulates f.base) :
    (t.goto p next).Distinct := by
  have present : ∀ base, Present t.folder.files base → s.Circulates base := fun base there =>
    .inl (present_iff.mpr (files.subset (present_iff.mp there)))
  refine h.step_of (h.files.sublist files) (fun q => ?_)
    (fun base circ => circulates_goto procs present given found circ) used
  rw [← procs]
  exact staged_goto (staged ▸ List.nil_sublist _) q

theorem Shared.Distinct.stay {s t : Shared P} (h : s.Distinct) (procs : t.procs = s.procs)
    (used : t.used = s.used) (given : t.given = s.given)
    (files : (t.folder.files.map MessageFile.base).Sublist (s.folder.files.map MessageFile.base)) :
    t.Distinct := by
  refine h.step_of (h.files.sublist files) (fun q => by rw [procs]) (fun base circ => ?_) used
  rcases circ with there | uid | found
  · exact .inl (present_iff.mpr (files.subset (present_iff.mp there)))
  · exact .inr (.inl (given ▸ uid))
  · exact .inr (.inr (procs ▸ found))

theorem given_circulates (mem : o ∈ s.given) :
    s.Circulates o.base :=
  .inr (.inl ⟨o, mem, rfl⟩)

theorem Shared.Distinct.append [DecidableEq P] (h : s.Distinct)
    {staged : List MessageFile} (idle : s.procs p = .idle)
    (nodup : (staged.map MessageFile.base).Nodup) (fresh : ∀ f ∈ staged, f.base ∉ s.used) :
    Shared.Distinct
      ({ s with used := s.used ++ staged.map MessageFile.base }.goto p (.appending staged [])) := by
  have circ : ∀ base, Shared.Circulates ({ s with
      used := s.used ++ staged.map MessageFile.base }.goto p (.appending staged [])) base →
      s.Circulates base := fun base =>
    circulates_goto rfl (fun base there => .inl there) (fun o ho => given_circulates ho)
      (by simp [Process.found])
  refine ⟨h.files, fun q => ?_, fun q r ne f hf g hg same => ?_, fun base hb => ?_,
    fun q f hf => ?_⟩
  · by_cases same : q = p
    · subst same
      rwa [goto_self]
    · rw [goto_other same]
      exact h.staged q
  · by_cases hq : q = p <;> by_cases hr : r = p
    · exact ne (hq.trans hr.symm)
    · subst hq
      rw [goto_self] at hf
      rw [goto_other hr] at hg
      exact fresh f hf (same ▸ (h.pending r g hg).1)
    · subst hr
      rw [goto_self] at hg
      rw [goto_other hq] at hf
      exact fresh g hg (same ▸ (h.pending q f hf).1)
    · rw [goto_other hq] at hf
      rw [goto_other hr] at hg
      exact h.apart q r ne f hf g hg same
  · exact List.mem_append_left _ (h.drawn base (circ base hb))
  · by_cases same : q = p
    · subst same
      rw [goto_self] at hf
      exact ⟨List.mem_append_right _ (List.mem_map_of_mem hf),
        fun out => fresh f hf (h.drawn _ (circ _ out))⟩
    · rw [goto_other same] at hf
      obtain ⟨mem, out⟩ := h.pending q f hf
      exact ⟨List.mem_append_left _ mem, fun c => out (circ _ c)⟩

theorem Shared.Distinct.rename [DecidableEq P] {s : Shared P} (h : s.Distinct) {p : P}
    {f : MessageFile} {rest renamed : List MessageFile}
    (at' : s.procs p = .appending (f :: rest) renamed) :
    ((s.withFiles (s.folder.files ++ [f])).goto p
      (.appending rest (renamed ++ [f]))).Distinct := by
  have mine : f ∈ (s.procs p).staged := by
    rw [at']
    exact List.mem_cons_self
  have nodup := h.staged p
  rw [at'] at nodup
  simp only [Process.staged, List.map_cons, List.nodup_cons] at nodup
  obtain ⟨drawn, absent⟩ := h.pending p f mine
  have circ : ∀ base, ((s.withFiles (s.folder.files ++ [f])).goto p
      (.appending rest (renamed ++ [f]))).Circulates base → base = f.base ∨ s.Circulates base := by
    rintro base (⟨g, hg, rfl⟩ | ⟨o, ho, rfl⟩ | ⟨q, g, hg, rfl⟩)
    · rcases List.mem_append.mp hg with old | new
      · exact .inr (.inl ⟨g, old, rfl⟩)
      · exact .inl (by rw [List.mem_singleton.mp new])
    · exact .inr (given_circulates ho)
    · by_cases same : q = p
      · subst same
        rw [goto_self] at hg
        rcases List.mem_append.mp hg with old | new
        · exact .inr (found_circulates at' old)
        · exact .inl (by rw [List.mem_singleton.mp new])
      · rw [goto_other same] at hg
        exact .inr (found_circulates rfl hg)
  -- what is pending now was pending before, under another base than that of `f`
  have pending : ∀ q, ∀ g ∈ (((s.withFiles (s.folder.files ++ [f])).goto p
      (.appending rest (renamed ++ [f]))).procs q).staged,
      g ∈ (s.procs q).staged ∧ g.base ≠ f.base := by
    intro q g hg
    by_cases same : q = p
    · subst same
      rw [goto_self] at hg
      refine ⟨by rw [at']; exact List.mem_cons_of_mem _ hg, fun eq => nodup.1 ?_⟩
      rw [← eq]
      exact List.mem_map_of_mem hg
    · rw [goto_other same] at hg
      exact ⟨hg, h.apart q p same g hg f mine⟩
  refine ⟨?_, fun q => ?_, fun q r ne g hg k hk => ?_, fun base hb => ?_, fun q g hg => ?_⟩
  · simp only [Shared.withFiles, Shared.goto, List.map_append, List.map_cons, List.map_nil]
    refine List.nodup_append.mpr ⟨h.files, List.nodup_singleton _, ?_⟩
    intro base mem other hother same
    rw [List.mem_singleton.mp hother] at same
    exact absent (.inl (present_iff.mpr (same ▸ mem)))
  · by_cases same : q = p
    · subst same
      rw [goto_self]
      exact nodup.2
    · rw [goto_other same]
      exact h.staged q
  · exact h.apart q r ne g (pending q g hg).1 k (pending r k hk).1
  · rcases circ base hb with rfl | old
    · exact drawn
    · exact h.drawn base old
  · obtain ⟨before, other⟩ := pending q g hg
    obtain ⟨mem, out⟩ := h.pending q g before
    exact ⟨mem, fun c => (circ _ c).elim other out⟩

theorem Shared.Distinct.step [DecidableEq P] {s t : Shared P} {l : SharedStep P} (h : s.Distinct)
    (sound : s.Sound) (move : s.Move l t) : t.Distinct := by
  cases move with
  | stay => exact h
  | leave p =>
    exact h.goto rfl rfl (.refl _) (fun _ => given_circulates (s := s)) rfl
      (by simp [Process.found])
  | append idle nodup fresh => exact h.append idle nodup fun f mem => (fresh f mem).2
  | rename at' => exact h.rename at'
  | @assigned p fresh renamed list uids at' hfresh run =>
    obtain ⟨grown, -⟩ := sound.assign_spec at' hfresh run
    refine h.goto rfl rfl (.refl _) (fun o mem => sound.write_circulates grown ?_ mem) rfl
      (by simp [Process.found])
    intro b hb
    obtain ⟨f, hf, rfl⟩ := List.mem_map.mp hb
    exact found_circulates at' hf
  | unassigned left sub =>
    exact h.goto rfl rfl (sub.map _) (fun _ => given_circulates (s := s)) rfl
      (by simp [Process.found])
  | openNew =>
    refine h.goto rfl rfl (.refl _) (fun _ => given_circulates (s := s)) rfl fun f mem => ?_
    exact .inl ⟨f, (mem_scanDirectory mem).1, rfl⟩
  | @openCur p promote new at' =>
    refine h.goto rfl rfl (.refl _) (fun _ => given_circulates (s := s)) rfl fun f mem => ?_
    rcases mem_mergeScan mem with before | now
    · exact found_circulates at' before
    · exact .inl ⟨f, (mem_scanDirectory now).1, rfl⟩
  | @synced p fresh promote scan list at' hfresh run =>
    obtain ⟨grown, -⟩ := sound.sync_spec at' hfresh run
    have known : ∀ f ∈ scan, s.Circulates f.base := fun f mem => found_circulates at' mem
    refine h.goto rfl rfl (.refl _) (fun o mem => sound.write_circulates grown ?_ mem) rfl known
    intro b hb
    obtain ⟨f, hf, rfl⟩ := mem_scanBases.mp hb
    exact known f hf
  | @promote p scan mapping at' =>
    refine h.goto rfl rfl ?_ (fun _ => given_circulates (s := s)) rfl fun f mem => ?_
    · rw [Shared.withFiles, promoteFiles_bases]
    · obtain ⟨g, hg, same⟩ := mem_promoteScan mem
      rw [← same]
      exact found_circulates at' hg
  | keep at' =>
    exact h.goto rfl rfl (.refl _) (fun _ => given_circulates (s := s)) rfl fun f mem =>
      found_circulates at' mem
  | stat at' lists there => exact h.stay rfl rfl rfl (.refl _)
  | setFlags run => exact h.stay rfl rfl rfl (by rw [setFlags_bases run])
  | expunge => exact h.stay rfl rfl rfl ((expunge_files _ _).map _)

/-! ### A message keeps its UID -/

/-- A message whose file is there is on the list under every UID that it was given. -/
def Shared.Kept (s : Shared P) : Prop :=
  ∀ o ∈ s.given, Present s.folder.files o.base →
    ∃ list, loadUidlist s.folder.uidFile = some list ∧ list.Lists o.uid o.base

theorem Shared.Kept.uid_eq (h : s.Kept) {a b : Sighting} (ha : a ∈ s.given)
    (hb : b ∈ s.given) (same : a.base = b.base) (there : Present s.folder.files b.base) :
    a.uid = b.uid := by
  obtain ⟨list, load, lists⟩ := h a ha (same ▸ there)
  obtain ⟨list', load', lists'⟩ := h b hb there
  obtain rfl : list = list' := Option.some.inj (load.symm.trans load')
  exact (loadUidlist_some load).2.uid_eq (same ▸ lists) lists'

theorem Shared.Kept.write (h : s.Kept) (sound : s.Sound)
    (grown : Grown (loadOrRebuild s.folder.uidFile fresh) list bases)
    (kept : ∀ uid base, (loadOrRebuild s.folder.uidFile fresh).Lists uid base →
      Present s.folder.files base → list.Lists uid base) : (s.write list).Kept := by
  intro o mem there
  refine ⟨list, loadUidlist_of_accepted grown.accepted, ?_⟩
  rcases List.mem_append.mp mem with old | new
  · obtain ⟨before, load, lists⟩ := h o old there
    have load' := (sound.loaded old fresh).1
    obtain rfl : before = _ := Option.some.inj (load.symm.trans load')
    exact kept _ _ lists there
  · exact (mem_sightings.mp new).2

theorem UidsStable.show (stable : s.UidsStable)
    (across : ∀ a ∈ s.shown, ∀ b ∈ more, a.base = b.base → a.uid = b.uid)
    (within : ∀ a ∈ more, ∀ b ∈ more, a.base = b.base → a.uid = b.uid) :
    ({ s with shown := s.shown ++ more } : Shared P).UidsStable := by
  intro a ha b hb validity same
  rcases List.mem_append.mp ha with ha | ha <;> rcases List.mem_append.mp hb with hb | hb
  · exact stable a ha b hb validity same
  · exact across a ha b hb same
  · exact (across b hb a ha same.symm).symm
  · exact within a ha b hb same

theorem Shared.Kept.show_one (h : s.Kept) (sound : s.Sound)
    (stable : s.UidsStable) (given : o ∈ s.given) (there : Present s.folder.files o.base) :
    ({ s with shown := s.shown ++ [o] } : Shared P).UidsStable := by
  refine UidsStable.show stable (fun a ha b hb same => ?_) (fun a ha b hb _ => ?_)
  · rw [List.mem_singleton.mp hb] at same ⊢
    exact h.uid_eq (sound.shown a ha) given same there
  · rw [List.mem_singleton.mp ha, List.mem_singleton.mp hb]

theorem Shared.Kept.relist (h : s.Kept)
    (files : ∀ base, Present folder.files base → Present s.folder.files base)
    (lists : ∀ list uid base, loadUidlist s.folder.uidFile = some list → list.Lists uid base →
      Present folder.files base →
      ∃ list', loadUidlist folder.uidFile = some list' ∧ list'.Lists uid base) :
    ({ s with folder } : Shared P).Kept := by
  intro o mem there
  obtain ⟨list, load, here⟩ := h o mem (files _ there)
  exact lists list _ _ load here there

theorem expunge_lists {uid : Nat}
    (distinct : (folder.files.map MessageFile.base).Nodup)
    (load : loadUidlist folder.uidFile = some list) (lists : list.Lists uid base)
    (there : Present (folder.expunge uids).1.files base) :
    ∃ list', loadUidlist (folder.expunge uids).1.uidFile = some list' ∧ list'.Lists uid base := by
  have accepted := (loadUidlist_some load).2
  obtain ⟨⟨left, removed, bytes⟩, run⟩ : ∃ result, expungeLoop list uids folder.files = result :=
    ⟨_, rfl⟩
  obtain ⟨sub, only⟩ := expungeLoop_spec run
  rw [expunge_of_load load run] at there ⊢
  by_cases nothing : removed.isEmpty
  · rw [if_pos nothing]
    exact ⟨list, load, lists⟩
  · rw [if_neg nothing] at there ⊢
    refine ⟨_, loadUidlist_of_accepted (accepted.drop removed),
      drop_lists.mpr ⟨lists, fun mem => ?_⟩⟩
    obtain ⟨f, hf, out, named⟩ := only distinct.of_map uid mem
    obtain ⟨g, hg, same⟩ := there
    have one : f = g := List.inj_on_of_nodup_map distinct hf (sub.subset hg)
      ((accepted.base_eq named lists).trans same.symm)
    exact out (one ▸ hg)

theorem Shared.Kept.step [DecidableEq P] {s t : Shared P} {l : SharedStep P}
    (h : s.Kept) (stable : s.UidsStable) (sound : s.Sound) (distinct : s.Distinct)
    (covered : s.Covered l) (move : s.Move l t) : t.Kept ∧ t.UidsStable := by
  cases move with
  | stay => exact ⟨h, stable⟩
  | leave p => exact ⟨h, stable⟩
  | append idle nodup fresh => exact ⟨h, stable⟩
  | @rename p f rest renamed at' =>
    refine ⟨fun o mem there => ?_, stable⟩
    obtain ⟨g, hg, same⟩ := there
    rcases List.mem_append.mp hg with old | new
    · exact h o mem ⟨g, old, same⟩
    · -- nothing was given to a message that is only now moved in
      have pending := (distinct.pending p f (at' ▸ List.mem_cons_self)).2
      rw [List.mem_singleton.mp new] at same
      exact absurd (given_circulates (s := s) mem) (same ▸ pending)
  | @assigned p fresh renamed list uids at' hfresh run =>
    obtain ⟨grown, kept, all⟩ := sound.assign_spec at' hfresh run
    have after : (s.write list).Kept := h.write sound grown fun uid base lists _ =>
      kept uid base lists
    refine ⟨after, UidsStable.show (s := s.write list) stable ?_ ?_⟩
    · intro a ha b hb same
      obtain ⟨seen, f, hf, fbase⟩ := mem_returned all hb
      exact after.uid_eq (List.mem_append_left _ (sound.shown a ha))
        (List.mem_append_right _ seen) same (fbase ▸ covered renamed at' f hf)
    · intro a ha b hb same
      have la := (mem_sightings.mp (mem_returned all ha).1).2
      exact grown.accepted.uid_eq (same ▸ la) (mem_sightings.mp (mem_returned all hb).1).2
  | unassigned left sub =>
    refine ⟨h.relist (fun base there => ?_) fun list _ _ load here _ => ⟨list, load, here⟩, stable⟩
    obtain ⟨g, hg, same⟩ := there
    exact ⟨g, sub.subset hg, same⟩
  | openNew => exact ⟨h, stable⟩
  | openCur at' => exact ⟨h, stable⟩
  | @synced p fresh promote scan list at' hfresh run =>
    obtain ⟨grown, kept⟩ := sound.sync_spec at' hfresh run
    refine ⟨h.write sound grown fun uid base lists there => ?_, stable⟩
    have load := (sound.loaded (sound.rebuilt lists) fresh).1
    exact kept uid base lists (covered promote scan at' _ uid base load lists there)
  | @promote p scan mapping at' =>
    refine ⟨h.relist (fun base there => ?_) fun list _ _ load here _ => ⟨list, load, here⟩, stable⟩
    exact present_iff.mpr (promoteFiles_bases scan s.folder.files ▸ present_iff.mp there)
  | keep at' => exact ⟨h, stable⟩
  | @stat p base scan mapping uid at' lists there =>
    refine ⟨h, h.show_one sound stable ?_ there⟩
    exact sound.mapped p mapping (by rw [at']; rfl) uid base lists
  | @setFlags p uid flags folder list target run =>
    have bases := setFlags_bases run
    obtain ⟨old, source, load, lists, rfl, mem, target_eq, folder_eq⟩ := setFlags_ok run
    have there : Present s.folder.files target.base := ⟨source, mem, by rw [target_eq]⟩
    refine ⟨h.relist (fun base now => ?_) fun l u base load' here now => ?_, ?_⟩
    · rwa [present_iff, bases, ← present_iff] at now
    · obtain rfl : old = l := Option.some.inj (load.symm.trans load')
      refine ⟨old.touch uid, ?_, touch_lists.mpr here⟩
      rw [folder_eq]
      exact loadUidlist_of_accepted ((loadUidlist_some load).2.touch uid)
    · exact h.show_one sound stable (sound.listed old load uid target.base lists) there
  | expunge =>
    refine ⟨h.relist (fun base there => ?_) fun l u base load here there => ?_, stable⟩
    · obtain ⟨g, hg, same⟩ := there
      exact ⟨g, (expunge_files _ _).subset hg, same⟩
    · exact expunge_lists distinct.files load here there

/-! ### Runs -/

theorem Shared.Sound.init (folder : Folder) : (Shared.init folder : Shared P).Sound := by
  have given : ∀ o ∈ (Shared.init folder : Shared P).given, ∃ list,
      loadUidlist folder.uidFile = some list ∧ o ∈ list.sightings := by
    intro o mem
    cases load : loadUidlist folder.uidFile with
    | none => simp [Shared.init, load] at mem
    | some list => exact ⟨list, rfl, by simpa [Shared.init, load] using mem⟩
  refine ⟨?_, ?_, ?_, ?_, ?_, by simp [Shared.init]⟩
  · intro list load uid base lists
    have load' : loadUidlist folder.uidFile = some list := load
    simp only [Shared.Given, Shared.init, load', Option.map_some, Option.getD_some]
    exact mem_sightings.mpr ⟨rfl, lists⟩
  · intro o mem
    obtain ⟨list, load, here⟩ := given o mem
    obtain ⟨validity, lists⟩ := mem_sightings.mp here
    exact ⟨list, load, validity, (loadUidlist_some load).2.uid_lt lists⟩
  · intro a ha b hb _ same
    obtain ⟨list, load, la⟩ := given a ha
    obtain ⟨list', load', lb⟩ := given b hb
    obtain rfl : list = list' := Option.some.inj (load.symm.trans load')
    exact (loadUidlist_some load).2.base_eq (same ▸ (mem_sightings.mp la).2)
      (mem_sightings.mp lb).2
  · intro p f mem
    simp [Shared.init, Process.staged, Process.found] at mem
  · intro p m hm
    simp [Shared.init, Process.mapping] at hm

theorem Shared.Distinct.init (distinct : (folder.files.map MessageFile.base).Nodup) :
    (Shared.init folder : Shared P).Distinct := by
  refine ⟨distinct, ?_, ?_, ?_, ?_⟩
  · intro p
    simp [Shared.init, Process.staged]
  · intro p q _ f hf
    simp [Shared.init, Process.staged] at hf
  · rintro base (there | ⟨o, ho, rfl⟩ | ⟨p, f, hf, -⟩)
    · exact List.mem_append_left _ (present_iff.mp there)
    · refine List.mem_append_right _ ?_
      cases load : loadUidlist folder.uidFile with
      | none => simp [Shared.init, load] at ho
      | some list =>
        simp only [Shared.init, load, Option.map_some, Option.getD_some] at ho ⊢
        obtain ⟨e, he, rfl⟩ := List.mem_map.mp ho
        exact List.mem_map_of_mem he
    · simp [Shared.init, Process.found] at hf
  · intro p f hf
    simp [Shared.init, Process.staged] at hf

theorem Shared.Kept.init (folder : Folder) : (Shared.init folder : Shared P).Kept := by
  intro o mem _
  obtain ⟨list, load, -⟩ := (Shared.Sound.init folder).below o mem
  refine ⟨list, load, ?_⟩
  have load' : loadUidlist folder.uidFile = some list := load
  simp only [Shared.init, load', Option.map_some, Option.getD_some] at mem
  exact (mem_sightings.mp mem).2

variable [DecidableEq P]

theorem Shared.Sound.run {ls : List (SharedStep P)} {t : Shared P}
    (run : Reaches Shared.step (Shared.init folder) ls t) : t.Sound :=
  run.invariant (Shared.Sound.init folder) fun _ _ _ sound _ step => sound.step (step_move step)

/-- What holds in every state of a run whose steps are covered. -/
structure Shared.Settled (s : Shared P) : Prop where
  sound : s.Sound
  distinct : s.Distinct
  kept : s.Kept
  stable : s.UidsStable

omit [DecidableEq P] in
theorem Shared.Settled.init (distinct : (folder.files.map MessageFile.base).Nodup) :
    (Shared.init folder : Shared P).Settled :=
  ⟨.init folder, .init distinct, .init folder, fun _ mem => by cases mem⟩

theorem Shared.Settled.step {s t : Shared P} {l : SharedStep P} (h : s.Settled)
    (covered : s.Covered l) (step : s.step l = some t) : t.Settled := by
  have move := step_move step
  have both := h.kept.step h.stable h.sound h.distinct covered move
  exact ⟨h.sound.step move, h.distinct.step h.sound move, both.1, both.2⟩

/-- In every run no UID is given to two messages under one UIDVALIDITY. In every run that brings the
list in line only with scans that have each listed message that is there, and that assigns UIDs only
to messages that are still there, a message is always shown under the same UID. -/
theorem uids_unique_and_stable {folder : Folder}
    (distinct : (folder.files.map MessageFile.base).Nodup) {ls : List (SharedStep P)}
    {t : Shared P} :
    (Reaches Shared.step (Shared.init folder) ls t → t.UidsUnique) ∧
      (Runs Shared.step Shared.Covered (Shared.init folder) ls t → t.UidsStable) := by
  refine ⟨fun run => (Shared.Sound.run run).unique, fun run => ?_⟩
  have settled : t.Settled :=
    run.invariant (.init distinct) fun _ _ _ h covered step => h.step covered step
  exact settled.stable

end Invariants

/-! ### A message that came in during an open -/

def letter : MessageFile := { base := "1.M2P3Q1.host", directory := .new, flags := ∅, size := 3 }

def appendLetter : List (SharedStep Bool) := [.append true [letter], .rename true, .assign true 7]

def openFully (p : Bool) : List (SharedStep Bool) :=
  [.openNew p true, .openCur p, .sync p 7, .promote p, .stat p letter.base, .close p]

/-- A check that is enough for `Covered`: the scan has all files, and the renamed files are as they
were. -/
def Shared.covers (s : Shared Bool) : SharedStep Bool → Bool
  | .sync p _ =>
    match s.procs p with
    | .scanned _ scan => s.folder.files.all fun f => (scanBases scan).contains f.base
    | _ => true
  | .assign p _ =>
    match s.procs p with
    | .appending [] renamed => renamed.all fun f => s.folder.files.contains f
    | _ => true
  | _ => true

theorem covered_of_covers (s : Shared Bool) (l : SharedStep Bool) (h : s.covers l = true) :
    s.Covered l := by
  cases l with
  | sync p fresh =>
    rintro promote scan at' - - base - - ⟨f, mem, rfl⟩
    simp only [Shared.covers, at', List.all_eq_true] at h
    simpa using h f mem
  | assign p fresh =>
    intro renamed at' f mem
    simp only [Shared.covers, at', List.all_eq_true] at h
    exact ⟨f, by simpa using h f mem, rfl⟩
  | _ => trivial

theorem uids_stable_after_append :
    ∃ t, Runs Shared.step Shared.Covered (Shared.init Folder.empty)
        (appendLetter ++ openFully false) t ∧
      t.shown = [⟨7, 1, letter.base⟩, ⟨7, 1, letter.base⟩] ∧ t.UidsStable := by
  have ran : (checkedExec Shared.step Shared.covers (Shared.init Folder.empty)
      (appendLetter ++ openFully false)).map (·.shown) =
        some [⟨7, 1, letter.base⟩, ⟨7, 1, letter.base⟩] := by decide +kernel
  obtain ⟨t, exec_eq, shown⟩ := Option.map_eq_some_iff.mp ran
  have run := runs_of_checkedExec covered_of_covers exec_eq
  have distinct : (Folder.empty.files.map MessageFile.base).Nodup := List.nodup_nil
  exact ⟨t, run, shown, (uids_unique_and_stable distinct).2 run⟩

/-- A process scans the folder, another one appends a message and is told its UID, and the first
then drops the message from the list. The next one to open the folder shows it under another UID. -/
theorem open_changes_uid_of_appended_message :
    ¬∀ (folder : Folder) (ls : List (SharedStep Bool)) (t : Shared Bool),
      (folder.files.map MessageFile.base).Nodup →
      Reaches Shared.step (Shared.init folder) ls t → t.UidsUnique ∧ t.UidsStable := by
  intro claim
  have ran : (exec Shared.step (Shared.init Folder.empty)
      ((openFully false).take 2 ++ appendLetter ++ (openFully false).drop 2 ++
        openFully true)).map (·.shown) =
        some [⟨7, 1, letter.base⟩, ⟨7, 2, letter.base⟩] := by decide +kernel
  obtain ⟨t, exec_eq, shown⟩ := Option.map_eq_some_iff.mp ran
  have stable := (claim Folder.empty _ t List.nodup_nil (reaches_of_exec exec_eq)).2
  have same := stable ⟨7, 1, letter.base⟩ (by simp [shown]) ⟨7, 2, letter.base⟩ (by simp [shown])
    rfl rfl
  simp at same

end MailStack.Maildir
