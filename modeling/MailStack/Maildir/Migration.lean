import MailStack.Maildir.Store
import MailStack.Maildir.UidImport

/-! The take-over of the folders of a store that Dovecot has served before: the UIDs and the
keywords are read from the files that it left in them. -/

namespace MailStack.Maildir

open Lib

def dovecotUidlist : String := "dovecot-uidlist"

def dovecotKeywords : String := ".dovecot-keywords"

def dovecotUidlistMaxVersion : Nat := 3

structure MigrationReport where
  folders : Nat := 0
  uidlistsImported : Nat := 0
  messagesMapped : Nat := 0
  messagesUnresolved : Nat := 0
  keywordsImported : Nat := 0
  rebuiltFromDisk : Nat := 0
deriving DecidableEq

/-- What `parse_dovecot_uidlist` takes from a file. -/
structure DovecotUidList where
  uidvalidity : UInt32
  uidnext : UInt32
  records : List Candidate

/-- A file as `read_to_string` finds it. -/
inductive TextFile
  | absent
  | text (contents : String)
  | unreadable

def parseU32 (s : String) : Option UInt32 := (parseUnsigned u32Max s).map UInt32.ofNat

/-- The name of a message without the flags. -/
def dovecotBase (field : String) : String :=
  let field := (stripPrefix ":" field).getD field
  match splitOnceText ":2," field with
  | some (base, _) => base
  | none => field

/-- One line after the header. Lines that are no record are passed over. -/
def dovecotRecord (line : String) : Option Candidate :=
  let line := trim line
  if line.isEmpty then none
  else
    match splitOnce ' ' line with
    | none => none
    | some (uidField, rest) =>
      match parseU32 uidField with
      | none => none
      | some uid =>
        let base := dovecotBase rest
        if base.isEmpty then none else some (uid, base)

/-- The version, the UIDVALIDITY and the next UID. -/
def dovecotHeader (header : String) : Option (UInt32 × UInt32) :=
  let fields := splitWhitespace header
  match fields[0]?.bind (parseUnsigned u32Max) with
  | none => none
  | some version =>
    if version = 0 ∨ version > dovecotUidlistMaxVersion then none
    else
      match fields[1]?.bind parseU32, fields[2]?.bind parseU32 with
      | some uidvalidity, some uidnext =>
        if uidvalidity = 0 then none else some (uidvalidity, uidnext)
      | _, _ => none

/-- `parse_dovecot_uidlist` on what the file contains. -/
def readDovecotUidlist (contents : String) : Option DovecotUidList :=
  match lines contents with
  | [] => none
  | header :: rest =>
    match dovecotHeader header with
    | none => none
    | some (uidvalidity, uidnext) =>
      some { uidvalidity, uidnext, records := rest.filterMap dovecotRecord }

def parseDovecotUidlist (file : TextFile) : Except MailError (Option DovecotUidList) :=
  match file with
  | .absent => .ok none
  | .unreadable => .error (.io dovecotUidlist)
  | .text contents => .ok (readDovecotUidlist contents)

/-- Keywords by the letters that stand for them in names of files, in the order of these. -/
abbrev Keywords := List (Char × String)

def Keywords.insert (map : Keywords) (letter : Char) (keyword : String) : Keywords :=
  (map.filter (·.1 ≠ letter)).orderedInsert (fun a b => a.1 ≤ b.1) (letter, keyword)

def dovecotKeyword (line : String) : Option (Char × String) :=
  let line := trim line
  if line.isEmpty then none
  else
    match splitOnce ' ' line with
    | none => none
    | some (indexField, keyword) =>
      match parseUnsigned u32Max indexField with
      | none => none
      | some index => if index > 25 then none else some (Char.ofNat ('a'.toNat + index), keyword)

def parseDovecotKeywords (file : TextFile) : Except MailError (Option Keywords) :=
  match file with
  | .absent => .ok none
  | .unreadable => .error (.io dovecotKeywords)
  | .text contents =>
    let map := ((lines contents).filterMap dovecotKeyword).foldl
      (fun map (letter, keyword) => Keywords.insert map letter keyword) []
    .ok (if map.isEmpty then none else some map)

def keywordsName : String := ".mailstack-keywords"

def forbiddenInKeywords : List Char :=
  ['(', ')', '\x7b', '\x7d', '%', '*', '"', '\\']

/-- The check of `validate_keyword`. -/
def isValidKeyword (keyword : String) : Bool :=
  !keyword.isEmpty && (bytes keyword).length ≤ 64 &&
    keyword.toList.all fun c => isAsciiGraphic c && !forbiddenInKeywords.contains c

def isAsciiLowercase (c : Char) : Bool := 'a' ≤ c && c ≤ 'z'

/-- `import_keywords` on the keywords that the folder has. -/
def importKeywords (native : Option Keywords) (map : Keywords) :
    Except MailError (Option Keywords × Nat) :=
  if native.isSome then .error (.alreadyExists keywordsName)
  else
    let imported := (map.filter fun e => isAsciiLowercase e.1 && isValidKeyword e.2).map
      fun e => (e.1, toAsciiLowercase e.2)
    if imported.isEmpty then .ok (none, 0) else .ok (some imported, imported.length)

/-- The keywords of a folder. That they cannot be taken over is no error. -/
def migrateKeywords (file : TextFile) (native : Option Keywords) (report : MigrationReport) :
    Option Keywords × Except MailError MigrationReport :=
  match parseDovecotKeywords file with
  | .error error => (native, .error error)
  | .ok none => (native, .ok report)
  | .ok (some map) =>
    match importKeywords native map with
    | .ok (keywords, imported) =>
      (keywords, .ok { report with keywordsImported := report.keywordsImported + imported })
    | .error _ => (native, .ok report)

/-- The UIDs of a folder. -/
def migrateUidlist (file : TextFile) (folder : Folder) (report : MigrationReport) :
    Folder × Except MailError MigrationReport :=
  match parseDovecotUidlist file with
  | .error error => (folder, .error error)
  | .ok none => (folder, .ok { report with rebuiltFromDisk := report.rebuiltFromDisk + 1 })
  | .ok (some parsed) =>
    match folder.importUidlist parsed.uidvalidity parsed.uidnext parsed.records with
    | .ok (folder', result) =>
      let report :=
        { report with messagesUnresolved := report.messagesUnresolved + result.unresolved }
      if result.mapped > 0 then
        (folder', .ok
          { report with
            uidlistsImported := report.uidlistsImported + 1
            messagesMapped := report.messagesMapped + result.mapped })
      else (folder', .ok { report with rebuiltFromDisk := report.rebuiltFromDisk + 1 })
    | .error (.alreadyExists _) => (folder, .ok report)
    | .error error => (folder, .error error)

structure DovecotFiles where
  uidlist : TextFile
  keywords : TextFile

/-- A store with the keywords of its folders and what Dovecot left in these, by their names on
disk. -/
structure DovecotStore where
  store : MailStore
  keywords : String → Option Keywords
  dovecot : String → DovecotFiles

/-- `folders`, the names in their order. -/
def MailStore.folderNames (s : MailStore) : List String :=
  (s.folders.map (·.1)).dedup.mergeSort fun a b => decide (a ≤ b)

namespace DovecotStore

/-- One folder of the loop of `migrate_maildir`. A name without a directory has no files to read. -/
def migrateFolder (m : DovecotStore) (name : String) (report : MigrationReport) :
    DovecotStore × Except MailError MigrationReport :=
  match normalizeFolderName name with
  | .error error => (m, .error error)
  | .ok normalized =>
    let report := { report with folders := report.folders + 1 }
    match m.store.find normalized with
    | none => (m, .ok { report with rebuiltFromDisk := report.rebuiltFromDisk + 1 })
    | some folder =>
      let files := m.dovecot normalized
      match migrateKeywords files.keywords (m.keywords normalized) report with
      | (_, .error error) => (m, .error error)
      | (keywords, .ok report) =>
        let (folder', result) := migrateUidlist files.uidlist folder report
        ({ m with
            store :=
              { m.store with folders := Assoc.modify normalized (fun _ => folder') m.store.folders }
            keywords := Function.update m.keywords normalized keywords },
          result)

def migrateFolders (m : DovecotStore) (report : MigrationReport) :
    List String → DovecotStore × Except MailError MigrationReport
  | [] => (m, .ok report)
  | name :: rest =>
    match m.migrateFolder name report with
    | (m', .error error) => (m', .error error)
    | (m', .ok report) => m'.migrateFolders report rest

/-- `migrate_maildir`. What was done before an error stays. -/
def migrateMaildir (m : DovecotStore) : DovecotStore × Except MailError MigrationReport :=
  m.migrateFolders {} m.store.folderNames

end DovecotStore

end MailStack.Maildir
