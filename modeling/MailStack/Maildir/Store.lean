import MailStack.Lib.Assoc
import MailStack.Maildir.Folder

/-! A Maildir store: its folders, and the limits and the counted use of its quota. -/

namespace MailStack.Maildir

open Lib

def inbox : String := "INBOX"

def delimiter : Char := '.'

def maxFolderName : Nat := 200

def reservedFolderPrefix : String := "mailstack-"

def isInbox (name : String) : Bool := eqIgnoreAsciiCase name inbox

def forbiddenInNames : List Char := ['/', '\\', ':', '*', '?', '"', '<', '>', '|', '%']

def segmentError (segment : List Char) : Option MailError :=
  if segment.isEmpty then some (.invalid "mailbox name has an empty segment")
  else if segment.head? = some '.' then
    some (.invalid "mailbox name segment may not start with '.'")
  else none

def normalizeFolderName (name : String) : Except MailError String :=
  if isInbox name then .ok inbox
  else if name.isEmpty then .error (.invalid "mailbox name is empty")
  else if (bytes name).length > maxFolderName then .error (.invalid "mailbox name is too long")
  else if eqIgnoreAsciiCase (String.ofList (name.toList.take reservedFolderPrefix.length))
      reservedFolderPrefix then
    .error (.invalid "mailbox name is reserved")
  else if name.toList.head? = some delimiter || name.toList.getLast? = some delimiter then
    .error (.invalid "mailbox name may not start or end with the hierarchy delimiter")
  else
    match (name.toList.splitOn delimiter).findSome? segmentError with
    | some error => .error error
    | none =>
      if name.toList.any fun c => isControl c || forbiddenInNames.contains c then
        .error (.invalid "mailbox name contains invalid characters")
      else .ok name

theorem isInbox_inbox : isInbox inbox = true := by decide

theorem isInbox_inner {name : String} (inside : '.' ∈ name.toList) : isInbox name = false := by
  rw [Bool.eq_false_iff]
  intro spelled
  have eq : toAsciiLowercase name = toAsciiLowercase inbox := beq_iff_eq.mp spelled
  have dot : Char.toLower '.' ∈ (toAsciiLowercase name).toList := by
    rw [toList_toAsciiLowercase]
    exact List.mem_map_of_mem inside
  rw [eq] at dot
  exact absurd dot (by decide)

theorem normalizeFolderName_ok {name normalized : String}
    (h : normalizeFolderName name = .ok normalized) :
    normalized = name ∨ isInbox name = true ∧ normalized = inbox := by
  unfold normalizeFolderName at h
  split_ifs at h with first
  · exact .inr ⟨first, (Except.ok.inj h).symm⟩
  all_goals
    split at h
    · cases h
    · cases h
      try exact .inl rfl

theorem normalizeFolderName_eq {name normalized : String} (inside : '.' ∈ name.toList)
    (h : normalizeFolderName name = .ok normalized) : normalized = name := by
  refine (normalizeFolderName_ok h).resolve_right fun both => ?_
  rw [isInbox_inner inside] at both
  cases both.1

theorem normal_cases {name normalized : String} (h : normalizeFolderName name = .ok normalized) :
    (isInbox name = true ∧ normalized = inbox) ∨
      normalized = name ∧ normalizeFolderName name = .ok name ∧ name ≠ inbox := by
  rcases normalizeFolderName_ok h with rfl | both
  · by_cases same : normalized = inbox
    · rw [same]
      exact .inl ⟨isInbox_inbox, rfl⟩
    · exact .inr ⟨rfl, h, same⟩
  · exact .inl both

theorem isInbox_eq_false {name : String} (accepted : normalizeFolderName name = .ok name)
    (other : name ≠ inbox) : isInbox name = false := by
  rw [Bool.eq_false_iff]
  intro spelled
  rw [normalizeFolderName, if_pos spelled] at accepted
  exact other (Except.ok.inj accepted).symm

structure QuotaLimits where
  messages : Option Nat
  storageBytes : Option Nat

def QuotaLimits.isUnlimited (limits : QuotaLimits) : Bool :=
  limits.messages.isNone && limits.storageBytes.isNone

abbrev Usage := Nat × Nat

/-- `folders` are the directories whose names pass the check, `INBOX` among them; `quota` and
`usage` are what the files of these names hold. -/
structure MailStore where
  folders : List (String × Folder)
  quota : Option QuotaLimits
  usage : Option Usage

abbrev Outcome (α : Type) := MailStore × Except MailError α

structure QuotaStatus where
  limits : QuotaLimits
  usage : Usage

namespace MailStore

def find (s : MailStore) (name : String) : Option Folder := s.folders.lookup name

/-- The folder of the name, under the name that it has on disk. -/
def openDir (s : MailStore) (name : String) : Except MailError (String × Folder) :=
  match normalizeFolderName name with
  | .error error => .error error
  | .ok normalized =>
    match s.find normalized with
    | some folder => .ok (normalized, folder)
    | none => .error (.notFound name)

/-- A limit of 0 in the file is none. -/
def quotaLimits (s : MailStore) : QuotaLimits :=
  match s.quota with
  | none => { messages := none, storageBytes := none }
  | some written =>
    { messages := written.messages.filter (0 < ·)
      storageBytes := written.storageBytes.filter (0 < ·) }

def setQuota (s : MailStore) (messages storageBytes : Option Nat) : MailStore :=
  { s with
    usage := none
    quota :=
      if messages.isNone && storageBytes.isNone then none else some { messages, storageBytes } }

def scanUsageDir (files : List MessageFile) (used : Usage) : Usage :=
  files.foldl (fun u f => (satAdd u64Max u.1 1, satAdd u64Max u.2 f.size)) used

def scanUsage (s : MailStore) : Usage :=
  s.folders.foldl (fun u e => scanUsageDir e.2.files u) (0, 0)

def recomputeUsage (s : MailStore) : Usage × MailStore :=
  (s.scanUsage, { s with usage := some s.scanUsage })

def cachedOrRecomputeUsage (s : MailStore) : Usage × MailStore :=
  match s.usage with
  | some usage => (usage, s)
  | none => s.recomputeUsage

def quotaStatus (s : MailStore) : QuotaStatus × MailStore :=
  let (usage, s') := s.cachedOrRecomputeUsage
  ({ limits := s.quotaLimits, usage }, s')

def exceeds (limit : Option Nat) (used : Nat) : Bool :=
  match limit with
  | some max => used > max
  | none => false

def reserveQuota (s : MailStore) (messages size : Nat) : Outcome (Option Usage) :=
  let limits := s.quotaLimits
  if limits.isUnlimited then (s, .ok none)
  else
    let (used, s') := s.cachedOrRecomputeUsage
    let usedMessages := satAdd u64Max used.1 messages
    let usedBytes := satAdd u64Max used.2 size
    if exceeds limits.messages usedMessages then
      (s', .error (.quotaExceeded ("message quota exceeded (" ++ toString usedMessages ++ "/" ++
        toString (limits.messages.getD 0) ++ ")")))
    else if exceeds limits.storageBytes usedBytes then
      (s', .error (.quotaExceeded ("storage quota exceeded (" ++ toString usedBytes ++ " bytes)")))
    else ({ s' with usage := some (usedMessages, usedBytes) }, .ok (some (messages, size)))

/-- What was counted is taken back, if there is a file of limits. -/
def releaseQuota (s : MailStore) (reservation : Option Usage) : MailStore :=
  match reservation with
  | none => s
  | some (messages, size) =>
    if s.quota.isNone then s
    else
      let (used, s') := s.cachedOrRecomputeUsage
      { s' with usage := some (used.1 - messages, used.2 - size) }

end MailStore

structure NewMessage where
  size : Nat
  flags : FlagSet

/-- The file that a message goes to. -/
def NewMessage.stage (message : NewMessage) (base : String) : MessageFile :=
  { base
    directory := if message.flags = ∅ then .new else .cur
    flags := message.flags
    size := message.size }

/-- The next value of a `u64` that wraps around. -/
def wrap64 (n : Nat) : Nat := n % 2 ^ 64

/-- A folder that a message is delivered to, with the base and the UIDVALIDITY that may be drawn. -/
structure Target where
  folder : String
  base : String
  fresh : Nat

/-- A message as an opened folder shows it. -/
structure MessageMeta where
  uid : Nat
  base : String
  size : Nat
  modseq : Nat
  flags : FlagSet
  recent : Bool
deriving DecidableEq

namespace MailStore

/-- The files are moved in and get their UIDs; if there are none left, the files are removed
again. -/
def appendReserved (s : MailStore) (name : String) (folder : Folder) (staged : List MessageFile)
    (fresh : Nat) : Outcome (Nat × List Nat) :=
  match assignUidsMany folder.uidFile (staged.map (·.base)) fresh with
  | some (list, uids) =>
    let grow (f : Folder) : Folder :=
      { f with files := f.files ++ staged, uidFile := some list, expunged := f.history }
    ({ s with folders := Assoc.modify name grow s.folders }, .ok (list.uidvalidity, uids))
  | none => (s, .error (.storage "UID space exhausted"))

/-- The part that `append` and `append_many` share. -/
def appendCounted (s : MailStore) (name : String) (messages size : Nat)
    (staged : List MessageFile) (fresh : Nat) : Outcome (Nat × List Nat) :=
  match s.openDir name with
  | .error error => (s, .error error)
  | .ok (normalized, folder) =>
    match s.reserveQuota messages size with
    | (reserved, .error error) => (reserved, .error error)
    | (reserved, .ok reservation) =>
      match reserved.appendReserved normalized folder staged fresh with
      | (left, .error error) => (left.releaseQuota reservation, .error error)
      | (left, .ok result) => (left, .ok result)

def append (s : MailStore) (name base : String) (message : NewMessage) (fresh : Nat) :
    Outcome (Nat × List Nat) :=
  s.appendCounted name 1 message.size [message.stage base] fresh

def appendMany (s : MailStore) (name : String) (messages : List (String × NewMessage))
    (fresh : Nat) : Outcome (Nat × List Nat) :=
  if messages.isEmpty then (s, .error (.invalid "no messages to append"))
  else
    s.appendCounted name messages.length (wrap64 (messages.map fun m => m.2.size).sum)
      (messages.map fun m => m.2.stage m.1) fresh

/-- The loop that assigns the UIDs of a delivery to several folders. -/
@[grind =] def assignEach :
    List (String × Folder) → List (String × Target) → List (String × Folder) × Bool
  | folders, [] => (folders, true)
  | folders, (name, target) :: rest =>
    match assignUidsMany ((folders.lookup name).bind (·.uidFile)) [target.base] target.fresh with
    | some (list, _) =>
      let listed (f : Folder) : Folder := { f with uidFile := some list, expunged := f.history }
      assignEach (Assoc.modify name listed folders) rest
    | none => (folders, false)

/-- The loop that moves the files of a delivery in. -/
def moveEach (message : NewMessage) (folders : List (String × Folder))
    (placed : List (String × Target)) : List (String × Folder) :=
  placed.foldl (fun fs p => Assoc.modify p.1
    (fun f => { f with files := f.files ++ [message.stage p.2.base] }) fs) folders

/-- The names on disk of the folders of a delivery. -/
@[grind =] def place (s : MailStore) : List Target → Except MailError (List (String × Target))
  | [] => .ok []
  | target :: rest =>
    match s.openDir target.folder with
    | .error error => .error error
    | .ok (name, _) =>
      match place s rest with
      | .error error => .error error
      | .ok placed => .ok ((name, target) :: placed)

/-- When UIDs run out, the files are removed again and only the lists of UIDs stay changed. -/
def appendManyFolders (s : MailStore) (targets : List Target) (message : NewMessage) :
    Outcome Unit :=
  if targets.isEmpty then (s, .error (.invalid "no folders to deliver to"))
  else
    match s.place targets with
    | .error error => (s, .error error)
    | .ok placed =>
      match s.reserveQuota targets.length (wrap64 (message.size * targets.length)) with
      | (reserved, .error error) => (reserved, .error error)
      | (reserved, .ok reservation) =>
        match assignEach reserved.folders placed with
        | (folders, true) =>
          ({ reserved with folders := moveEach message folders placed }, .ok ())
        | (folders, false) =>
          ({ reserved with folders }.releaseQuota reservation,
            .error (.storage "UID space exhausted"))

def setFlags (s : MailStore) (name : String) (uid : Nat) (flags : FlagSet) :
    Outcome MessageMeta :=
  match s.openDir name with
  | .error error => (s, .error error)
  | .ok (normalized, folder) =>
    match folder.setFlags uid flags with
    | .error error => (s, .error error)
    | .ok (changed, list, target) =>
      ({ s with folders := Assoc.modify normalized (fun _ => changed) s.folders },
        .ok
          { uid
            base := target.base
            size := target.size
            modseq := list.highestModseq
            flags
            recent := false })

def expunge (s : MailStore) (name : String) (uids : List Nat) : Outcome Nat :=
  match s.openDir name with
  | .error error => (s, .error error)
  | .ok (normalized, folder) =>
    let (changed, removed, size) := folder.expunge uids
    let left := { s with folders := Assoc.modify normalized (fun _ => changed) s.folders }
    if removed.isEmpty then (left, .ok 0)
    else (left.releaseQuota (some (removed.length, size)), .ok removed.length)

def create (s : MailStore) (name : String) : Outcome Unit :=
  match normalizeFolderName name with
  | .error error => (s, .error error)
  | .ok normalized =>
    if normalized = inbox then (s, .error (.alreadyExists inbox))
    else if (s.find normalized).isSome then (s, .error (.alreadyExists normalized))
    else ({ s with folders := s.folders ++ [(normalized, Folder.empty)] }, .ok ())

def children (s : MailStore) (name : String) : List String :=
  (s.folders.map (·.1)).filter fun n => (name ++ ".").toList.isPrefixOf n.toList

def delete (s : MailStore) (name : String) : Outcome Unit :=
  match normalizeFolderName name with
  | .error error => (s, .error error)
  | .ok normalized =>
    if normalized = inbox then (s, .error (.invalid "INBOX cannot be deleted"))
    else
      match s.find normalized with
      | none => (s, .error (.notFound normalized))
      | some folder =>
        if !(s.children normalized).isEmpty then
          (s, .error (.invalid ("mailbox " ++ normalized ++ " has children and cannot be deleted")))
        else
          let removed := scanUsageDir folder.files (0, 0)
          ({ s with folders := Assoc.remove normalized s.folders }.releaseQuota (some removed),
            .ok ())

/-- The loop over the folders below a renamed one. When a name is taken, everything is moved back;
when a name does not pass the check, it is not. -/
@[grind =] def renameChildren (before : List (String × Folder)) :
    List (String × Folder) → List (String × String) → List (String × Folder) × Except MailError Unit
  | folders, [] => (folders, .ok ())
  | folders, (source, target) :: rest =>
    match normalizeFolderName target with
    | .error error => (folders, .error error)
    | .ok normalized =>
      if (folders.lookup normalized).isSome then (before, .error (.alreadyExists target))
      else renameChildren before (Assoc.rekey source normalized folders) rest

def rename (s : MailStore) (old new : String) : Outcome Unit :=
  match normalizeFolderName old, normalizeFolderName new with
  | .error error, _ => (s, .error error)
  | .ok _, .error error => (s, .error error)
  | .ok old, .ok new =>
    if old = new then (s, .error (.invalid "source and destination are the same"))
    else
      match s.find old with
      | none => (s, .error (.notFound old))
      | some folder =>
        if (s.find new).isSome then (s, .error (.alreadyExists new))
        else if old = inbox then
          let emptied :=
            Assoc.modify inbox (fun f => { f with files := [], uidFile := none, expunged := [] })
              s.folders
          ({ s with folders := emptied ++ [(new, { folder with acl := [] })] }, .ok ())
        else
          let moves := ((s.children old).mergeSort fun a b => decide (a ≤ b)).map fun n =>
            (n, new ++ String.ofList (n.toList.drop old.length))
          let (folders, result) := renameChildren s.folders (Assoc.rekey old new s.folders) moves
          ({ s with folders }, result)

def expungedSince (s : MailStore) (name : String) (since : Nat) : Except MailError (List Nat) :=
  (s.openDir name).map fun (_, folder) => folder.expungedSince since

end MailStore

def Folder.opened (folder : Folder) (promote : Bool) (list : UidList) : Folder :=
  { folder with
    files := if promote then promoteFiles folder.scan folder.files else folder.files
    uidFile := some list
    expunged := folder.history }

structure FolderState where
  name : String
  uidvalidity : Nat
  uidnext : Nat
  highestModseq : Nat
  messages : List MessageMeta
deriving DecidableEq

/-- The scanned files under the UIDs of the list, in the order of these. -/
def UidList.messages (list : UidList) (scan : List MessageFile) : List MessageMeta :=
  let metas := scan.filterMap fun f => (list.byUid.find? (·.base = f.base)).map fun e =>
    { uid := e.uid
      base := f.base
      size := f.size
      modseq := e.modseq
      flags := f.flags
      recent := f.directory = .new }
  metas.mergeSort fun a b => a.uid ≤ b.uid

namespace MailStore

/-- `open_folder` with nobody else at work. -/
def openFolder (s : MailStore) (name : String) (promote : Bool) (fresh : Nat) :
    Outcome FolderState :=
  match normalizeFolderName name with
  | .error error => (s, .error error)
  | .ok normalized =>
    match s.find normalized with
    | none => (s, .error (.notFound normalized))
    | some folder =>
      let scan := mergeScan (scanDirectory folder.files .new) (scanDirectory folder.files .cur)
      if scan.length > maxScanEntries then
        (s, .error (.storage ("mailbox has more than " ++ toString maxScanEntries ++ " messages")))
      else
        match syncUidlist folder.uidFile (scanBases scan) fresh with
        | none => (s, .error (.storage "UID space exhausted"))
        | some list =>
          let files := if promote then promoteFiles scan folder.files else folder.files
          let opened (f : Folder) : Folder :=
            { f with files, uidFile := some list, expunged := f.history }
          ({ s with folders := Assoc.modify normalized opened s.folders },
            .ok
              { name := normalized
                uidvalidity := list.uidvalidity
                uidnext := list.uidnext
                highestModseq := list.highestModseq
                messages := list.messages scan })

/-- What an opening that succeeds does and shows. -/
structure Opened (s t : MailStore) (name : String) (promote : Bool) (fresh : Nat)
    (state : FolderState) (normalized : String) (folder : Folder) (list : UidList) : Prop where
  normal : normalizeFolderName name = .ok normalized
  found : s.find normalized = some folder
  scanned : folder.scan.length ≤ maxScanEntries
  sync : syncUidlist folder.uidFile (scanBases folder.scan) fresh = some list
  after : ∃ change, t.folders = Assoc.modify normalized change s.folders ∧
    change folder = folder.opened promote list
  uidvalidity : state.uidvalidity = list.uidvalidity
  highestModseq : state.highestModseq = list.highestModseq
  messages : state.messages = list.messages folder.scan

theorem openFolder_cases (s : MailStore) (name : String) (promote : Bool) (fresh : Nat) :
    (∃ error, s.openFolder name promote fresh = (s, .error error)) ∨
      ∃ t state normalized folder list, s.openFolder name promote fresh = (t, .ok state) ∧
        Opened s t name promote fresh state normalized folder list := by
  unfold openFolder
  split
  · exact .inl ⟨_, rfl⟩
  rename_i normalized normal
  split
  · exact .inl ⟨_, rfl⟩
  rename_i folder found
  simp only
  split
  · exact .inl ⟨_, rfl⟩
  rename_i few
  split
  · exact .inl ⟨_, rfl⟩
  rename_i list sync
  exact .inr ⟨_, _, normalized, folder, list, rfl, normal, found, not_lt.mp few, sync,
    ⟨_, rfl, rfl⟩, rfl, rfl, rfl⟩

variable {s t : MailStore} {name normalized : String} {promote : Bool} {fresh : Nat}
  {state : FolderState} {folder : Folder} {list : UidList}

/-- An opening succeeds in one way only. -/
theorem opened_of_ok (ran : s.openFolder name promote fresh = (t, .ok state)) :
    ∃ normalized folder list, Opened s t name promote fresh state normalized folder list := by
  rcases openFolder_cases s name promote fresh with ⟨error, run⟩ | ⟨_, _, _, _, _, run, o⟩
  · cases ran.symm.trans run
  · cases ran.symm.trans run
    exact ⟨_, _, _, o⟩

theorem Opened.find (o : Opened s t name promote fresh state normalized folder list) (k : String) :
    t.find k = if k = normalized then some (folder.opened promote list) else s.find k := by
  obtain ⟨change, changed, opened⟩ := o.after
  rw [MailStore.find, changed, Assoc.lookup_modify]
  by_cases same : k = normalized
  · have here : s.folders.lookup k = some folder := same ▸ o.found
    rw [if_pos same, if_pos same, here, ← opened]
    rfl
  · rw [if_neg same, if_neg same, MailStore.find]

/-- The loop of `copy_many`, with the UIDVALIDITY of the last copy. A copy is never recent; those
made before an error stay. -/
def copyLoop (s : MailStore) (target : String) (fresh uidvalidity : Nat) :
    List (MessageMeta × String) → Outcome (Nat × List Nat)
  | [] => (s, .ok (uidvalidity, []))
  | (message, base) :: rest =>
    let file : MessageFile :=
      { base, directory := .cur, flags := message.flags, size := message.size }
    match s.appendCounted target 1 message.size [file] fresh with
    | (left, .error error) => (left, .error error)
    | (left, .ok (validity, uids)) =>
      match left.copyLoop target fresh validity rest with
      | (last, .error error) => (last, .error error)
      | (last, .ok (validity, copies)) => (last, .ok (validity, uids ++ copies))

/-- The messages of the UIDs, or the first UID that none has. -/
@[grind =] def sources
    (messages : List MessageMeta) : List Nat → Except MailError (List MessageMeta)
  | [] => .ok []
  | uid :: rest =>
    match messages.find? (·.uid = uid) with
    | none => .error (uidMissing uid)
    | some message => (sources messages rest).map (message :: ·)

/-- `drawn` are the names that are drawn for the copies. -/
def copyMany (s : MailStore) (source : String) (uids : List Nat) (target : String)
    (drawn : Nat → String) (fresh : Nat) : Outcome (Nat × List Nat) :=
  if uids.isEmpty then (s, .ok (0, []))
  else
    match s.openFolder source false fresh with
    | (opened, .error error) => (opened, .error error)
    | (opened, .ok state) =>
      match sources state.messages uids with
      | .error error => (opened, .error error)
      | .ok messages =>
        opened.copyLoop target fresh 0 (messages.zipIdx.map fun (m, i) => (m, drawn i))

end MailStore

end MailStack.Maildir
