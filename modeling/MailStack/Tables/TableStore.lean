import MailStack.Core.Validate

/-! The tables of domains and of aliases: two text files, which each call reads and writes as a
whole. -/

namespace MailStack.Tables

open Lib Core

abbrev TableRow := List String

def maxAliasDestinations : Nat := 50

inductive StoreError
  | invalid (message : String)
  | postmap (message : String)

structure AliasEntry where
  source : String
  destinations : List String
deriving DecidableEq

structure PostmapOutcome where
  postmapOk : Bool
  checkOk : Bool
  reloadOk : Bool

def PostmapOutcome.done : PostmapOutcome := ⟨true, true, true⟩

inductive TablePath
  | domains
  | aliases

structure TableFiles where
  domains : Option String
  aliases : Option String

def isComment (line : String) : Bool := line.toList.head? == some '#'

def rowsFromText (text : String) : List TableRow :=
  (lines text).filterMap fun line =>
    let line := trim line
    if line.isEmpty || isComment line then none else some (splitWhitespace line)

/-- `atomic::rows`, which the listings use. -/
def rows : Option String → List TableRow
  | none => []
  | some text =>
    ((lines text).filter fun line => !(trim line).isEmpty && !isComment (trim line)).map
      splitWhitespace

def readRowsForUpdate : Option String → List TableRow
  | none => []
  | some text => rowsFromText text

def rowText : TableRow → String
  | [] => ""
  | first :: rest => sentence first rest

def rowsText (table : List TableRow) : String := String.join (table.map (rowText · ++ "\n"))

def requirePostfixSync (outcome : PostmapOutcome) : Except StoreError Unit :=
  let failed := (if outcome.postmapOk then [] else ["postmap"]) ++
    (if outcome.checkOk then [] else ["postfix check"]) ++
    if outcome.reloadOk then [] else ["postfix reload"]
  if failed.isEmpty then .ok ()
  else .error (.postmap ("table file written, but Postfix update failed at: " ++
    String.intercalate ", " failed))

def hasNoWhitespaceOrControl (value : String) : Bool :=
  !value.isEmpty && !value.toList.any fun c => isWhitespace c || isControl c

def isValidDomain (domain : String) : Bool := hasNoWhitespaceOrControl domain && domainRe domain

def isValidAddress (address : String) : Bool :=
  hasNoWhitespaceOrControl address && addressRe address

@[irreducible] def validatedDomain (input : String) : Except StoreError String :=
  let domain := toAsciiLowercase (trim input)
  if !isValidDomain domain then .error (.invalid "invalid domain") else .ok domain

def domainPart (source : String) : String := ((rsplitOnce '@' source).map (·.2)).getD ""

/-- A source that `addAlias` and `deleteAlias` take, each with its own text for a bad domain. -/
@[irreducible] def validatedSource (badDomain source : String) : Except StoreError String :=
  let source := toAsciiLowercase (trim source)
  if !isValidAddress source then .error (.invalid "invalid alias")
  else if !isValidDomain (domainPart source) then .error (.invalid badDomain)
  else .ok source

def validatedDestination (destination : String) : Except StoreError String :=
  let destination := toAsciiLowercase (trim destination)
  if !hasNoWhitespaceOrControl destination || !(userRe destination || addressRe destination) then
    .error (.invalid "invalid alias destination")
  else .ok destination

@[irreducible] def validatedDestinations
    (destinations : List String) : Except StoreError (List String) :=
  if destinations.isEmpty then
    .error (.invalid "invalid alias: at least one destination is required")
  else
    match destinations.mapM validatedDestination with
    | .error error => .error error
    | .ok normalised =>
      if normalised.length > maxAliasDestinations then
        .error (.invalid "invalid alias: too many destinations")
      else .ok normalised

namespace TableFiles

def file (files : TableFiles) : TablePath → Option String
  | .domains => files.domains
  | .aliases => files.aliases

def listDomains (files : TableFiles) : List String := (rows files.domains).filterMap List.head?

def listAliases (files : TableFiles) : List AliasEntry :=
  (rows files.aliases).filterMap fun
    | source :: first :: rest => some ⟨source, first :: rest⟩
    | _ => none

def writeRows (files : TableFiles) (table : List TableRow) : TablePath → TableFiles
  | .domains => { files with domains := some (rowsText table) }
  | .aliases => { files with aliases := some (rowsText table) }

end TableFiles

def without (name : String) (table : List TableRow) : List TableRow :=
  table.filter (·.head? ≠ some name)

section

variable (outcome : TablePath → PostmapOutcome)

/-! What each call does under its locks, with names that passed the checks. -/

def putDomain (domain : String) (files : TableFiles) :
    Except StoreError (List String) × TableFiles :=
  let table := without domain (readRowsForUpdate files.domains) ++ [[domain, "OK"]]
  let written := files.writeRows table .domains
  match requirePostfixSync (outcome .domains) with
  | .error error => (.error error, written)
  | .ok () => (.ok written.listDomains, written)

def dropDomain (domain : String) (files : TableFiles) :
    Except StoreError (List String) × TableFiles :=
  let suffix := ("@" ++ domain).toList
  let domains := without domain (readRowsForUpdate files.domains)
  let aliases := (readRowsForUpdate files.aliases).filter fun row =>
    !row.head?.any fun source => suffix.isSuffixOf source.toList
  let half := files.writeRows aliases .aliases
  match requirePostfixSync (outcome .aliases) with
  | .error error => (.error error, half)
  | .ok () =>
    let written := half.writeRows domains .domains
    match requirePostfixSync (outcome .domains) with
    | .error error => (.error error, written)
    | .ok () => (.ok written.listDomains, written)

def putAliases (table : List TableRow) (files : TableFiles) :
    Except StoreError (List AliasEntry) × TableFiles :=
  let written := files.writeRows table .aliases
  match requirePostfixSync (outcome .aliases) with
  | .error error => (.error error, written)
  | .ok () => (.ok written.listAliases, written)

def putAlias (source : String) (normalised : List String) (files : TableFiles) :
    Except StoreError (List AliasEntry) × TableFiles :=
  putAliases outcome
    (without source (readRowsForUpdate files.aliases) ++ [source :: normalised]) files

def dropAlias (source : String) (files : TableFiles) :
    Except StoreError (List AliasEntry) × TableFiles :=
  putAliases outcome (without source (readRowsForUpdate files.aliases)) files

def addDomain (name : String) (files : TableFiles) :
    Except StoreError (List String) × TableFiles :=
  match validatedDomain name with
  | .error error => (.error error, files)
  | .ok domain => putDomain outcome domain files

def deleteDomain (name : String) (files : TableFiles) :
    Except StoreError (List String) × TableFiles :=
  match validatedDomain name with
  | .error error => (.error error, files)
  | .ok domain => dropDomain outcome domain files

def addAlias (source : String) (destinations : List String) (files : TableFiles) :
    Except StoreError (List AliasEntry) × TableFiles :=
  match validatedSource "invalid alias domain" source with
  | .error error => (.error error, files)
  | .ok source =>
    match validatedDestinations destinations with
    | .error error => (.error error, files)
    | .ok normalised => putAlias outcome source normalised files

def deleteAlias (source : String) (files : TableFiles) :
    Except StoreError (List AliasEntry) × TableFiles :=
  match validatedSource "invalid alias" source with
  | .error error => (.error error, files)
  | .ok source => dropAlias outcome source files

end

inductive Call
  | addDomain (name : String)
  | deleteDomain (name : String)
  | addAlias (source : String) (destinations : List String)
  | deleteAlias (source : String)

inductive Answer
  | domains (names : List String)
  | aliases (entries : List AliasEntry)
  | refused (error : StoreError)

def Answer.ofResult {α : Type} (listing : α → Answer) : Except StoreError α → Answer
  | .ok a => listing a
  | .error error => .refused error

def Call.run (outcome : TablePath → PostmapOutcome) (call : Call) (files : TableFiles) :
    Answer × TableFiles :=
  match call with
  | .addDomain name => (Tables.addDomain outcome name files).map (.ofResult .domains) id
  | .deleteDomain name => (Tables.deleteDomain outcome name files).map (.ofResult .domains) id
  | .addAlias source destinations =>
    (Tables.addAlias outcome source destinations files).map (.ofResult .aliases) id
  | .deleteAlias source => (Tables.deleteAlias outcome source files).map (.ofResult .aliases) id

def TableFiles.after (outcome : TablePath → PostmapOutcome) (files : TableFiles)
    (calls : List Call) : TableFiles :=
  calls.foldl (fun files call => (call.run outcome files).2) files

/-- The listings read a file as the updates do. -/
theorem rows_eq (file : Option String) : rows file = readRowsForUpdate file := by
  cases file with
  | none => rfl
  | some text =>
    rw [rows, readRowsForUpdate, rowsFromText]
    induction lines text with
    | nil => rfl
    | cons line rest ih =>
      rw [List.filterMap_cons, List.filter_cons, ← ih]
      by_cases skipped : ((trim line).isEmpty || isComment (trim line)) = true
      · have dropped : ¬(!(trim line).isEmpty && !isComment (trim line)) = true := by
          rw [← Bool.not_or, skipped]
          decide
        rw [if_neg dropped]
        simp only [skipped, if_true]
      · have kept : (!(trim line).isEmpty && !isComment (trim line)) = true := by
          rw [← Bool.not_or, Bool.not_eq_true']
          exact Bool.eq_false_iff.mpr skipped
        rw [if_pos kept]
        simp only [skipped]
        rw [splitWhitespace_trim]
        rfl

/-- A row that is read as it is written: words, of which the first does not begin a comment. -/
structure IsRow (row : TableRow) : Prop where
  full : row ≠ []
  words : ∀ word ∈ row, IsWord word
  first : row.head?.any isComment = false

variable {row : TableRow}

theorem IsRow.last (h : IsRow row) {c : Char}
    (last : (rowText row).toList.getLast? = some c) : isWhitespace c = false := by
  cases row with
  | nil => exact absurd rfl h.full
  | cons first rest =>
    rw [rowText, sentence_toList, List.getLast?_append] at last
    cases rest using List.reverseRecOn with
    | nil =>
      exact (h.words first List.mem_cons_self).inside c (List.mem_of_getLast? (by simpa using last))
    | append_singleton rest word =>
      have isWord := h.words word (by simp)
      have full : word.toList.getLast? ≠ none := by simpa using isWord.some
      have atWord : word.toList.getLast? = some c := by
        cases here : word.toList.getLast? with
        | none => exact absurd here full
        | some d =>
          rw [List.flatMap_append, List.getLast?_append] at last
          simpa [List.getLast?_cons, here] using last
      exact isWord.inside c (List.mem_of_getLast? atWord)

theorem mem_rowText (h : ∀ word ∈ row, IsWord word) {c : Char}
    (mem : c ∈ (rowText row).toList) : c = ' ' ∨ isWhitespace c = false := by
  cases row with
  | nil => exact absurd mem List.not_mem_nil
  | cons first rest =>
    rw [rowText, sentence_toList, List.mem_append, List.mem_flatMap] at mem
    rcases mem with here | ⟨word, inRest, here⟩
    · exact .inr ((h first List.mem_cons_self).inside c here)
    · rcases List.mem_cons.mp here with rfl | here
      · exact .inl rfl
      · exact .inr ((h word (List.mem_cons_of_mem _ inRest)).inside c here)

theorem IsRow.read (h : IsRow row) :
    trim (rowText row) = rowText row ∧ (rowText row).isEmpty = false ∧
      isComment (rowText row) = false ∧ splitWhitespace (rowText row) = row := by
  cases row with
  | nil => exact absurd rfl h.full
  | cons first rest =>
    have isWord := h.words first List.mem_cons_self
    have full := isWord.some
    have head : (rowText (first :: rest)).toList.head? = first.toList.head? := by
      rw [rowText, sentence_toList, List.head?_append]
      cases here : first.toList with
      | nil => exact absurd here full
      | cons c cs => rfl
    refine ⟨?_, ?_, ?_, ?_⟩
    · refine trim_eq_self (fun c mem => ?_) fun c last => h.last last
      rw [head] at mem
      exact isWord.inside c (List.mem_of_mem_head? mem)
    · rw [Bool.eq_false_iff, ne_eq, String.isEmpty_iff, ← String.toList_inj]
      intro empty
      rw [empty] at head
      cases here : first.toList with
      | nil => exact full here
      | cons c cs =>
        rw [here] at head
        cases head
    · rw [isComment, head]
      exact h.first
    · exact splitWhitespace_sentence isWord fun word mem => h.words word
        (List.mem_cons_of_mem _ mem)

/-- What is written is what is read: no row is a comment, is another row or has other fields. -/
theorem rowsFromText_rowsText {table : List TableRow} (all : ∀ row ∈ table, IsRow row) :
    rowsFromText (rowsText table) = table := by
  have written : lines (rowsText table) = table.map rowText := by
    have text : rowsText table = String.join ((table.map rowText).map (· ++ "\n")) := by
      rw [rowsText, List.map_map]
      rfl
    rw [text]
    refine lines_join fun line mem => ?_
    obtain ⟨row, inTable, rfl⟩ := List.mem_map.mp mem
    constructor
    · intro broken
      rcases mem_rowText (all row inTable).words broken with eq | eq
      · exact absurd eq (by decide)
      · exact absurd eq (by decide)
    · intro last
      have visible := (all row inTable).last last
      exact absurd visible (by decide)
  rw [rowsFromText, written, List.filterMap_map]
  calc table.filterMap _ = table.filterMap some := by
        refine List.filterMap_congr fun row mem => ?_
        obtain ⟨same, full, code, words⟩ := (all row mem).read
        simp only [Function.comp_apply, same, full, code, words]
        rfl
    _ = table := List.filterMap_some

end MailStack.Tables
