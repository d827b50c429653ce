import MailStack.Lib.FileTree
import MailStack.Maildir.Store

/-! The root of a mail store as a tree of files. The folders of a store, the files that it keeps
beside them and the script area share one directory, so what a name stands for is only the path that
is made of it. -/

namespace MailStack.Maildir

open Lib

inductive RootNode
  | file (data : List UInt8)
  | dir
deriving DecidableEq

abbrev Root := FileTree RootNode

abbrev RootM := EStateM MailError Root

namespace Root

def uidlistFile : String := ".mailstack-uidlist"
def uidlistLock : String := ".mailstack-uidlist.lock"
def keywordsFile : String := ".mailstack-keywords"
def keywordsLock : String := ".mailstack-keywords.lock"
def specialUseFile : String := ".mailstack-special-use"
def expungedFile : String := ".mailstack-expunged"
def quotaFile : String := ".mailstack-quota"
def quotaLock : String := ".mailstack-quota.lock"
def metadataFile : String := ".mailstack-metadata"
def metadataLock : String := ".mailstack-metadata.lock"
def serverMetadataFile : String := ".mailstack-metadata-server"
def serverMetadataLock : String := ".mailstack-metadata-server.lock"
def aclFile : String := ".mailstack-acl"
def aclLock : String := ".mailstack-acl.lock"
def usageFile : String := ".mailstack-usage"
def subscriptionsFile : String := "subscriptions"
def subscriptionsLock : String := "subscriptions.lock"

def pathText (path : Path) : String := String.intercalate "/" path

/-- The path of a folder below the root, which is that of `INBOX`. -/
def folderPath (name : String) : Except MailError Path :=
  match normalizeFolderName name with
  | .error error => .error error
  | .ok normalized => .ok (if normalized = inbox then [] else ["." ++ normalized])

def isDir (root : Root) (path : Path) : Bool := path.isEmpty || root.get path == some .dir

def present (root : Root) (path : Path) : Bool := path.isEmpty || (root.get path).isSome

def isFile (root : Root) (path : Path) : Bool :=
  match root.get path with
  | some (.file _) => true
  | _ => false

/-- A file that is read as text. -/
def readText (path : Path) : RootM (Option String) := do
  match (← get).get path with
  | none => pure none
  | some .dir => throw (.io (pathText path))
  | some (.file data) =>
    match fromUtf8 data with
    | none => throw (.io (pathText path))
    | some text => pure (some text)

/-- `done` is there already. -/
@[grind =] def createDirAll : Path → Path → RootM Unit
  | _, [] => pure ()
  | done, name :: rest => do
    match (← get).get (done ++ [name]) with
    | none =>
      modify (·.put (done ++ [name]) .dir)
      createDirAll (done ++ [name]) rest
    | some .dir => createDirAll (done ++ [name]) rest
    | some (.file _) => throw (.io (pathText (done ++ [name])))

def ensureMaildirDirs (path : Path) : RootM Unit := do
  createDirAll [] (path ++ ["cur"])
  createDirAll [] (path ++ ["new"])
  createDirAll [] (path ++ ["tmp"])

/-- The file of a lock is made where there is none. -/
def withLock {α : Type} (lock : Path) (action : RootM α) : RootM α := do
  match (← get).get lock with
  | none => modify (·.put lock (.file []))
  | some (.file _) => pure ()
  | some .dir => throw (.io (pathText lock))
  action

def writeAtomic (path : Path) (text : String) : RootM Unit := do
  if (← get).isDir path then throw (.io (pathText path))
  modify (·.put path (.file (bytes text)))

/-- An entry takes the place of a file only if it is a file, and that of a directory only if it is
one and the other is empty. -/
def mayReplace (root : Root) (source target : Path) : Bool :=
  if root.isDir target then root.isDir source && (FileTree.children target root).isEmpty
  else !root.present target || !root.isDir source

/-- `failing` are the renamings that the system refuses for other reasons. -/
def renameEntry (failing : Path → Path → Bool) (source target : Path) : RootM Unit := do
  let root ← get
  if failing source target || !root.present source || !root.mayReplace source target then
    throw (.io (pathText target))
  modify (FileTree.move source target)

/-- The names of the folders, of which `INBOX` is always one. -/
def folders (root : Root) : List String :=
  let names := (FileTree.children [] root).filterMap fun raw =>
    if root.isDir [raw] then
      (stripPrefix "." raw).filter fun name => !name.isEmpty && (normalizeFolderName name).isOk
    else none
  (inbox :: names).dedup.mergeSort fun a b => decide (a ≤ b)

def readLinesSet (path : Path) (root : Root) : List String :=
  match root.get path with
  | some (.file data) =>
    match fromUtf8 data with
    | none => []
    | some text =>
      (((lines text).map trim).filterMap fun line =>
        if line.isEmpty then none else (normalizeFolderName line).toOption).dedup
  | _ => []

def writeLinesSorted (path : Path) (names : List String) : RootM Unit :=
  writeAtomic path (String.join ((names.mergeSort fun a b => decide (a ≤ b)).map (· ++ "\n")))

def normalizedName (name : String) : RootM String :=
  match normalizeFolderName name with
  | .error error => throw error
  | .ok normalized => pure normalized

def folderPathOf (name : String) : RootM Path :=
  match folderPath name with
  | .error error => throw error
  | .ok path => pure path

def subscribe (name : String) : RootM Unit := do
  let normalized ← normalizedName name
  withLock [subscriptionsLock] do
    let names := readLinesSet [subscriptionsFile] (← get)
    if normalized ∉ names then writeLinesSorted [subscriptionsFile] (normalized :: names)

def unsubscribe (name : String) : RootM Unit := do
  let normalized ← normalizedName name
  withLock [subscriptionsLock] do
    let names := readLinesSet [subscriptionsFile] (← get)
    if normalized ∈ names then writeLinesSorted [subscriptionsFile] (names.erase normalized)

def rewriteSubscription (source target : String) : RootM Unit :=
  withLock [subscriptionsLock] do
    let names := readLinesSet [subscriptionsFile] (← get)
    if source ∈ names then
      writeLinesSorted [subscriptionsFile] (insert target (names.erase source))

/-- The limits that the lines of a text give, of which the last one of a kind counts. -/
@[grind =] def parseLimits : List String → QuotaLimits → Except MailError QuotaLimits
  | [], limits => .ok limits
  | line :: rest, limits =>
    match splitOnce ' ' (trim line) with
    | some ("messages", value) =>
      match parseUnsigned u32Max value with
      | some n => parseLimits rest { limits with messages := if n > 0 then some n else none }
      | none => .error (.storage "invalid quota file")
    | some ("storage", value) =>
      match parseUnsigned u64Max value with
      | some n => parseLimits rest { limits with storageBytes := if n > 0 then some n else none }
      | none => .error (.storage "invalid quota file")
    | _ => parseLimits rest limits

def quotaLimits (root : Root) : Except MailError QuotaLimits :=
  match root.get [quotaFile] with
  | none => .ok { messages := none, storageBytes := none }
  | some .dir => .error (.io quotaFile)
  | some (.file data) =>
    match fromUtf8 data with
    | none => .error (.io quotaFile)
    | some text => parseLimits (lines text) { messages := none, storageBytes := none }

def parseUsage (text : String) : Option Usage :=
  let field (key : String) (found : Option Nat) (line : String) : Option Nat :=
    match splitOnce ' ' (trim line) with
    | some (name, value) => if name = key then parseUnsigned u64Max value else found
    | none => found
  match (lines text).foldl (field "messages") none, (lines text).foldl (field "bytes") none with
  | some messages, some size => some (messages, size)
  | _, _ => none

def writeUsage (used : Usage) : RootM Unit :=
  writeAtomic [usageFile] ("messages " ++ toString used.1 ++ "\nbytes " ++ toString used.2 ++ "\n")

/-- The files of one directory of messages, which may be missing. -/
def scanUsageOf (directory : Path) (used : Usage) : RootM Usage := do
  let root ← get
  match root.get directory with
  | none => pure used
  | some (.file _) => throw (.io (pathText directory))
  | some .dir =>
    pure <| (FileTree.children directory root).foldl
      (fun used name =>
        match root.get (directory ++ [name]) with
        | some (.file data) => (satAdd u64Max used.1 1, satAdd u64Max used.2 data.length)
        | _ => used)
      used

def scanUsageDir (folder : Path) (used : Usage) : RootM Usage := do
  scanUsageOf (folder ++ ["new"]) (← scanUsageOf (folder ++ ["cur"]) used)

@[grind =] def scanUsageEach : List String → Usage → RootM Usage
  | [], used => pure used
  | name :: rest, used => do
    if name = inbox then scanUsageEach rest used
    else scanUsageEach rest (← scanUsageDir (← folderPathOf name) used)

def recomputeUsage : RootM Usage := do
  let used ← scanUsageEach (← get).folders (← scanUsageDir [] (0, 0))
  writeUsage used
  pure used

def cachedOrRecomputeUsage : RootM Usage := do
  match (← readText [usageFile]).bind parseUsage with
  | some used => pure used
  | none => recomputeUsage

/-- A failure is only logged. -/
def releaseQuota (released : Usage) : RootM Unit := do
  if (← get).present [quotaFile] then
    let _ ← caught <| withLock [quotaLock] do
      let used ← cachedOrRecomputeUsage
      writeUsage (used.1 - released.1, used.2 - released.2)

def create (name : String) : RootM Unit := do
  let normalized ← normalizedName name
  if normalized = inbox then throw (.alreadyExists inbox)
  let path ← folderPathOf normalized
  if (← get).present path then throw (.alreadyExists normalized)
  ensureMaildirDirs path

def delete (name : String) : RootM Unit := do
  let normalized ← normalizedName name
  if normalized = inbox then throw (.invalid "INBOX cannot be deleted")
  let path ← folderPathOf normalized
  let root ← get
  if !root.isDir path then throw (.notFound normalized)
  if root.folders.any fun folder => (normalized ++ ".").toList.isPrefixOf folder.toList then
    throw (.invalid ("mailbox " ++ normalized ++ " has children and cannot be deleted"))
  let removed ← scanUsageDir path (0, 0)
  modify (FileTree.removeBelow path)
  let _ ← caught (unsubscribe normalized)
  releaseQuota removed

section

variable (failing : Path → Path → Bool)

/-- The files of a directory move to another one. -/
@[grind =] def moveEach (source target : Path) : List String → RootM Unit
  | [] => pure ()
  | name :: rest => do
    if (← get).isFile (source ++ [name]) then
      renameEntry failing (source ++ [name]) (target ++ [name])
    moveEach source target rest

def moveDirectoryContents (source target : Path) : RootM Unit := do
  match (← get).get source with
  | none => pure ()
  | some (.file _) => throw (.io (pathText source))
  | some .dir => moveEach failing source target (FileTree.children source (← get))

@[grind =] def moveMeta (destination : Path) : List String → RootM Unit
  | [] => pure ()
  | file :: rest => do
    if (← get).present [file] then renameEntry failing [file] (destination ++ [file])
    moveMeta destination rest

def movedMeta : List String := [uidlistFile, keywordsFile, expungedFile]

def renameInbox (new : String) : RootM Unit := do
  let destination ← folderPathOf new
  ensureMaildirDirs destination
  moveDirectoryContents failing ["cur"] (destination ++ ["cur"])
  moveDirectoryContents failing ["new"] (destination ++ ["new"])
  moveMeta failing destination movedMeta
  subscribe new

/-- `completed` are the renamed directories, the last one first, each with where it was. A failure
is only logged. -/
@[grind =] def rollbackRenames : List (Path × Path) → RootM Unit
  | [] => pure ()
  | (current, original) :: rest => do
    let _ ← caught (renameEntry failing current original)
    rollbackRenames rest

/-- The loop over the folders below a renamed one. -/
@[grind =] def renameEach : List (Path × Path) → List (String × String) → RootM Unit
  | _, [] => pure ()
  | completed, (source, target) :: rest => do
    let sourcePath ← folderPathOf source
    let targetPath ← folderPathOf target
    if (← get).present targetPath then
      rollbackRenames failing completed
      throw (.alreadyExists target)
    match ← caught (renameEntry failing sourcePath targetPath) with
    | .error error =>
      rollbackRenames failing completed
      throw error
    | .ok () =>
      rewriteSubscription source target
      renameEach ((targetPath, sourcePath) :: completed) rest

def renameFolder (folders : List String) (old new : String) : RootM Unit := do
  let source ← folderPathOf old
  let destination ← folderPathOf new
  renameEntry failing source destination
  let below := folders.filter fun folder => (old ++ ".").toList.isPrefixOf folder.toList
  let renames := below.map fun folder =>
    (folder, new ++ String.ofList (folder.toList.drop old.toList.length))
  renameEach failing [(destination, source)] renames
  rewriteSubscription old new

def rename (old new : String) : RootM Unit := do
  let old ← normalizedName old
  let new ← normalizedName new
  if old = new then throw (.invalid "source and destination are the same")
  let root ← get
  if !root.isDir (← folderPathOf old) then throw (.notFound old)
  if root.isDir (← folderPathOf new) then throw (.alreadyExists new)
  if old = inbox then renameInbox failing new else renameFolder failing root.folders old new

end

end Root

inductive RootCall
  | create (name : String)
  | delete (name : String)
  | rename (old new : String)

def RootCall.handler (failing : Path → Path → Bool) : RootCall → RootM Unit
  | .create name => Root.create name
  | .delete name => Root.delete name
  | .rename old new => Root.rename failing old new

def Root.after (failing : Path → Path → Bool) (root : Root) (calls : List RootCall) : Root :=
  calls.foldl (fun root call => finalState (call.handler failing) root) root

end MailStack.Maildir
