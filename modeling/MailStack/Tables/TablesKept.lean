import Mathlib.Data.Finset.Basic
import MailStack.Lib.Checks
import MailStack.Tables.TableStore

/-! The tables are two maps, from calls on empty tables on. -/

namespace MailStack.Tables

open Lib Core

/-! ### The maps -/

/-- What the tables stand for: the domains, and for each source of an alias its destinations. -/
structure Directory where
  domains : Finset String
  aliases : String → Option (List String)

def Directory.empty : Directory where
  domains := ∅
  aliases := fun _ => none

/-- A call with the names as they are stored. -/
inductive Change
  | addDomain (domain : String)
  | deleteDomain (domain : String)
  | addAlias (source : String) (destinations : List String)
  | deleteAlias (source : String)

/-- The change that a call asks for, where it passes validation. -/
def Call.change : Call → Except StoreError Change
  | .addDomain name => (validatedDomain name).map .addDomain
  | .deleteDomain name => (validatedDomain name).map .deleteDomain
  | .addAlias source destinations =>
    match validatedSource "invalid alias domain" source with
    | .error error => .error error
    | .ok source => (validatedDestinations destinations).map (.addAlias source)
  | .deleteAlias source => (validatedSource "invalid alias" source).map .deleteAlias

def Directory.apply (directory : Directory) : Change → Directory
  | .addDomain domain => { directory with domains := insert domain directory.domains }
  | .deleteDomain domain =>
    { domains := directory.domains.erase domain
      aliases := fun source =>
        if domainPart source = domain then none else directory.aliases source }
  | .addAlias source destinations =>
    { directory with
      aliases := fun other => if other = source then some destinations else directory.aliases other }
  | .deleteAlias source =>
    { directory with
      aliases := fun other => if other = source then none else directory.aliases other }

/-- A call that is refused changes nothing. -/
def Directory.next (directory : Directory) (call : Call) : Directory :=
  match call.change with
  | .error _ => directory
  | .ok change => directory.apply change

def Directory.after (calls : List Call) : Directory := calls.foldl Directory.next .empty

/-- The listings are those of a directory, and each row of a file is an entry of its listing. -/
structure TableFiles.Lists (files : TableFiles) (directory : Directory) : Prop where
  domainsOnce : files.listDomains.Nodup
  domains : ∀ domain, domain ∈ files.listDomains ↔ domain ∈ directory.domains
  aliasesOnce : (files.listAliases.map (·.source)).Nodup
  aliases : ∀ entry, entry ∈ files.listAliases ↔
    directory.aliases entry.source = some entry.destinations
  domainRows : readRowsForUpdate files.domains = files.listDomains.map fun domain => [domain, "OK"]
  aliasRows : readRowsForUpdate files.aliases =
    files.listAliases.map fun entry => entry.source :: entry.destinations

/-- The changes that are about a domain. -/
def Change.NamesDomain (change : Change) (domain : String) : Prop :=
  change = .addDomain domain ∨ change = .deleteDomain domain

/-- The changes that are about an alias. -/
def Change.NamesAlias (change : Change) (source : String) : Prop :=
  (∃ destinations, change = .addAlias source destinations) ∨ change = .deleteAlias source ∨
    change = .deleteDomain (domainPart source)

/-! ### Names that pass -/

theorem isWord_of_check {value : String} (passes : hasNoWhitespaceOrControl value = true) :
    IsWord value := by
  rw [hasNoWhitespaceOrControl, Bool.and_eq_true, Bool.not_eq_true', Bool.not_eq_true',
    List.any_eq_false] at passes
  obtain ⟨full, visible⟩ := passes
  constructor
  · simpa [String.toList_eq_nil_iff] using full
  · intro c mem
    have neither := visible c mem
    rw [Bool.not_eq_true, Bool.or_eq_false_iff] at neither
    exact neither.1

variable {name : String} {destinations : List String} {rest : List String} {row : TableRow}
  {call : Call}

theorem isComment_eq_false (other : name.toList.head? ≠ some '#') :
    isComment name = false := by
  simpa [isComment] using other

variable {domain : String}

theorem domainRe_first (valid : domainRe domain = true) :
    isComment domain = false := by
  refine isComment_eq_false fun hash => ?_
  simp only [domainRe, Bool.and_eq_true, decide_eq_true_eq] at valid
  obtain ⟨⟨two, labels⟩, -⟩ := valid
  obtain ⟨cs, here⟩ : ∃ cs, domain.toList = '#' :: cs := by
    cases here : domain.toList with
    | nil =>
      rw [here] at hash
      cases hash
    | cons c cs =>
      rw [here] at hash
      exact ⟨cs, by rw [Option.some.inj hash]⟩
  rw [here, List.splitOn_cons_eq_if_modifyHead, if_neg (by decide)] at two labels
  cases parts : cs.splitOn '.' with
  | nil => exact absurd parts (List.splitOn_ne_nil '.' cs)
  | cons first rest =>
    rw [parts] at two labels
    cases rest with
    | nil => exact absurd two (by simp)
    | cons second rest =>
      rw [List.modifyHead_cons, List.dropLast_cons_of_ne_nil (by simp), List.all_cons,
        Bool.and_eq_true] at labels
      have label := labels.1
      rw [isDomainLabel, Bool.and_eq_true, Bool.and_eq_true, Bool.and_eq_true] at label
      have letter : Char.isAlphanum '#' = true := label.1.1.1
      exact absurd letter (by decide)

theorem addressRe_first {address : String} (valid : addressRe address = true) :
    isComment address = false := by
  refine isComment_eq_false fun hash => ?_
  obtain ⟨localPart, domain, parts, full, chars, -⟩ := addressRe_parts valid
  rw [(splitOnce_eq_some parts).1] at hash
  cases here : localPart.toList with
  | nil => exact full (by simpa using here)
  | cons c cs =>
    rw [here] at hash
    have first : c = '#' := Option.some.inj hash
    have allowed := chars c (by rw [here]; exact List.mem_cons_self)
    rw [first] at allowed
    exact absurd allowed (by decide)

theorem domainPart_append (before : String) {after : String} (unbroken : '@' ∉ after.toList) :
    domainPart (before ++ String.singleton '@' ++ after) = after := by
  rw [domainPart, rsplitOnce_append before unbroken]
  rfl

/-- The source of an alias ends in `@` and a domain just where that is its domain. -/
theorem isSuffixOf_iff {source domain : String} (valid : addressRe source = true)
    (unbroken : '@' ∉ domain.toList) :
    ("@" ++ domain).toList.isSuffixOf source.toList = true ↔ domainPart source = domain := by
  obtain ⟨localPart, here, parts, -, -, chars⟩ := addressRe_parts valid
  have split := (splitOnce_eq_some parts).1
  have unbrokenHere : '@' ∉ here.toList := by
    intro mem
    rcases chars '@' mem with h | h | h
    · exact absurd h (by decide)
    · exact absurd h (by decide)
    · exact absurd h (by decide)
  have whole : source = localPart ++ String.singleton '@' ++ here := by
    rw [← String.toList_inj, split]
    simp
  have part : domainPart source = here := by
    rw [whole]
    exact domainPart_append localPart unbrokenHere
  have text : ("@" ++ domain).toList = '@' :: domain.toList := by
    rw [String.toList_append]
    rfl
  rw [part, List.isSuffixOf_iff_suffix, text, split]
  constructor
  · intro suffix
    have longer : '@' :: here.toList <:+ localPart.toList ++ '@' :: here.toList :=
      List.suffix_append _ _
    rw [← String.toList_inj]
    -- of two ends of one text, each of which has its only `@` first, none is longer
    rcases List.suffix_or_suffix_of_suffix suffix longer with inner | inner
    · rcases List.suffix_cons_iff.mp inner with same | later
      · exact (List.cons.inj same).2.symm
      · exact absurd (later.subset List.mem_cons_self) unbrokenHere
    · rcases List.suffix_cons_iff.mp inner with same | later
      · exact (List.cons.inj same).2
      · exact absurd (later.subset List.mem_cons_self) unbroken
  · rintro rfl
    exact List.suffix_append _ _

theorem validatedDomain_ok {input domain : String} (passes : validatedDomain input = .ok domain) :
    isValidDomain domain = true := by
  unfold validatedDomain at passes
  obtain ⟨valid, eq⟩ := ok_of_ite passes
  obtain rfl := Except.ok.inj eq
  simpa using valid

theorem validatedSource_ok {badDomain input source : String}
    (passes : validatedSource badDomain input = .ok source) :
    isValidAddress source = true ∧ isValidDomain (domainPart source) = true := by
  unfold validatedSource at passes
  obtain ⟨address, passes⟩ := ok_of_ite passes
  obtain ⟨domain, eq⟩ := ok_of_ite passes
  obtain rfl := Except.ok.inj eq
  exact ⟨by simpa using address, by simpa using domain⟩

theorem validatedDestinations_ok {destinations normalised : List String}
    (passes : validatedDestinations destinations = .ok normalised) :
    normalised ≠ [] ∧ ∀ destination ∈ normalised, IsWord destination := by
  unfold validatedDestinations at passes
  obtain ⟨full, passes⟩ := ok_of_ite passes
  cases checked : destinations.mapM validatedDestination with
  | error error =>
    rw [checked] at passes
    cases passes
  | ok names =>
    rw [checked] at passes
    obtain ⟨-, eq⟩ := ok_of_ite passes
    cases eq
    constructor
    · rintro rfl
      cases destinations with
      | nil => exact full rfl
      | cons first rest =>
        rw [List.mapM_cons] at checked
        obtain ⟨_, -, later⟩ := ok_of_bind checked
        obtain ⟨_, -, eq⟩ := ok_of_bind later
        cases eq
    · intro destination mem
      obtain ⟨input, -, passes⟩ := mem_of_mapM_ok checked mem
      unfold validatedDestination at passes
      obtain ⟨valid, eq⟩ := ok_of_ite passes
      obtain rfl := Except.ok.inj eq
      rw [Bool.or_eq_true, not_or] at valid
      exact isWord_of_check (by simpa using valid.1)

theorem mem_part {c sep : Char} {cs : List Char} (other : c ≠ sep) (mem : c ∈ cs) :
    ∃ part ∈ cs.splitOn sep, c ∈ part := by
  induction cs with
  | nil => exact absurd mem List.not_mem_nil
  | cons d cs ih =>
    rw [List.splitOn_cons_eq_if_modifyHead]
    split
    · rename_i here
      have later : c ∈ cs :=
        (List.mem_cons.mp mem).resolve_left fun eq => other (eq.trans (eq_of_beq here))
      obtain ⟨part, inParts, inside⟩ := ih later
      exact ⟨part, List.mem_cons_of_mem _ inParts, inside⟩
    · cases parts : cs.splitOn sep with
      | nil => exact absurd parts (List.splitOn_ne_nil sep cs)
      | cons first rest =>
        rw [parts] at ih
        rcases List.mem_cons.mp mem with rfl | later
        · exact ⟨c :: first, List.mem_cons_self, List.mem_cons_self⟩
        · obtain ⟨part, inParts, inside⟩ := ih later
          rcases List.mem_cons.mp inParts with rfl | inRest
          · exact ⟨d :: part, List.mem_cons_self, List.mem_cons_of_mem _ inside⟩
          · exact ⟨part, List.mem_cons_of_mem _ inRest, inside⟩

theorem domain_unbroken (valid : domainRe domain = true) :
    '@' ∉ domain.toList := by
  intro mem
  obtain ⟨part, inParts, inside⟩ := mem_part (show '@' ≠ '.' by decide) mem
  simp only [domainRe, Bool.and_eq_true] at valid
  obtain ⟨⟨-, labels⟩, top⟩ := valid
  have split := List.dropLast_concat_getLast (List.splitOn_ne_nil '.' domain.toList)
  rw [List.getLast?_eq_some_getLast (List.splitOn_ne_nil '.' domain.toList)] at top
  rw [← split] at inParts
  rcases List.mem_append.mp inParts with inLabels | last
  · have label := List.all_eq_true.mp labels part inLabels
    simp only [isDomainLabel, Bool.and_eq_true] at label
    exact absurd (List.all_eq_true.mp label.1.2 '@' inside) (by decide)
  · rw [← List.mem_singleton.mp last] at top
    simp only [Option.any_some, Bool.and_eq_true] at top
    exact absurd (List.all_eq_true.mp top.1.1 '@' inside) (by decide)

/-! ### Tables and maps -/

/-- The rows of a table are the entries of a map, each once, and are read as they are written. -/
structure Shows (table : List TableRow) (entry : String → Option (List String)) : Prop where
  once : (table.map List.head?).Nodup
  holds : ∀ name rest, name :: rest ∈ table ↔ entry name = some rest
  rows : ∀ row ∈ table, IsRow row

namespace Shows

variable {table : List TableRow} {entry : String → Option (List String)}

section

variable (shows : Shows table entry)

include shows

theorem congr {other : String → Option (List String)}
    (same : ∀ name, other name = entry name) : Shows table other := by
  rwa [show other = entry from funext same]

theorem filter (keep : String → Bool) :
    Shows (table.filter fun row => row.head?.all keep)
      (fun name => if keep name then entry name else none) := by
  constructor
  case once => exact shows.once.sublist (List.filter_sublist.map _)
  case rows => exact fun row mem => shows.rows row (List.mem_of_mem_filter mem)
  case holds =>
    intro name rest
    rw [List.mem_filter, shows.holds]
    by_cases kept : keep name = true
    · simp [kept]
    · simp [kept]

theorem without (name : String) :
    Shows (Tables.without name table) (fun other =>
      if other = name then none else entry other) := by
  have same : Tables.without name table = table.filter fun row => row.head?.all (· ≠ name) := by
    refine List.filter_congr fun row mem => ?_
    cases row with
    | nil => exact absurd rfl (shows.rows _ mem).full
    | cons first rest => simp
  rw [same]
  refine (shows.filter _).congr fun other => ?_
  by_cases eq : other = name
  · simp [eq]
  · simp [eq]

theorem push
    (fresh : entry name = none) (isRow : IsRow (name :: rest)) :
    Shows (table ++ [name :: rest])
      (fun other => if other = name then some rest else entry other) := by
  constructor
  case once =>
    rw [List.map_append, List.nodup_append]
    refine ⟨shows.once, by simp, ?_⟩
    rintro first inTable last added rfl
    obtain rfl : first = some name := by simpa using added
    obtain ⟨row, mem, head⟩ := List.mem_map.mp inTable
    cases row with
    | nil => cases head
    | cons other others =>
      obtain rfl : other = name := Option.some.inj head
      rw [(shows.holds other others).mp mem] at fresh
      cases fresh
  case rows =>
    intro row mem
    rcases List.mem_append.mp mem with old | new
    · exact shows.rows row old
    · rwa [List.mem_singleton.mp new]
  case holds =>
    intro other others
    rw [List.mem_append, shows.holds, List.mem_singleton, List.cons.injEq]
    by_cases eq : other = name
    · subst eq
      simp [fresh, eq_comm]
    · simp [eq]

theorem put (isRow : IsRow (name :: rest)) :
    Shows (Tables.without name table ++ [name :: rest])
      (fun other => if other = name then some rest else entry other) := by
  refine ((shows.without name).push (by simp) isRow).congr fun other => ?_
  by_cases eq : other = name
  · simp [eq]
  · simp [eq]

theorem read :
    Shows (readRowsForUpdate (some (rowsText table))) entry := by
  rwa [readRowsForUpdate, rowsFromText_rowsText shows.rows]

end

end Shows

structure TableFiles.Holds (files : TableFiles) (directory : Directory) : Prop where
  domains : Shows (readRowsForUpdate files.domains)
    (fun name => if name ∈ directory.domains then some ["OK"] else none)
  aliases : Shows (readRowsForUpdate files.aliases) directory.aliases
  addressed : ∀ source destinations, directory.aliases source = some destinations →
    addressRe source = true ∧ destinations ≠ []

section

variable {files : TableFiles} {directory : Directory} {outcome : TablePath → PostmapOutcome}

theorem map_filterMap_self {α : Type} {table : List TableRow} {f : TableRow → Option α}
    {g : α → TableRow} (same : ∀ row ∈ table, (f row).map g = some row) :
    (table.filterMap f).map g = table := by
  rw [List.map_filterMap]
  exact (List.filterMap_congr same).trans List.filterMap_some

theorem TableFiles.Holds.domain_row (holds : files.Holds directory)
    (mem : row ∈ readRowsForUpdate files.domains) :
    ∃ domain ∈ directory.domains, row = [domain, "OK"] := by
  cases row with
  | nil => exact absurd rfl (holds.domains.rows _ mem).full
  | cons domain rest =>
    have entry := (holds.domains.holds domain rest).mp mem
    by_cases known : domain ∈ directory.domains
    · rw [if_pos known] at entry
      exact ⟨domain, known, by rw [← Option.some.inj entry]⟩
    · rw [if_neg known] at entry
      cases entry

theorem TableFiles.Holds.alias_row (holds : files.Holds directory)
    (mem : row ∈ readRowsForUpdate files.aliases) : ∃ source first rest,
      row = source :: first :: rest ∧ directory.aliases source = some (first :: rest) := by
  cases row with
  | nil => exact absurd rfl (holds.aliases.rows _ mem).full
  | cons source destinations =>
    have entry := (holds.aliases.holds source destinations).mp mem
    cases destinations with
    | nil => exact absurd rfl (holds.addressed source [] entry).2
    | cons first rest => exact ⟨source, first, rest, rfl, entry⟩

/-- What is held is what is listed. -/
theorem TableFiles.Holds.lists (holds : files.Holds directory) : files.Lists directory := by
  have domainRows : readRowsForUpdate files.domains =
      files.listDomains.map fun domain => [domain, "OK"] := by
    rw [TableFiles.listDomains, rows_eq]
    refine (map_filterMap_self fun row mem => ?_).symm
    obtain ⟨domain, -, rfl⟩ := holds.domain_row mem
    rfl
  have aliasRows : readRowsForUpdate files.aliases =
      files.listAliases.map fun entry => entry.source :: entry.destinations := by
    rw [TableFiles.listAliases, rows_eq]
    refine (map_filterMap_self fun row mem => ?_).symm
    obtain ⟨source, first, rest, rfl, -⟩ := holds.alias_row mem
    rfl
  constructor
  case domainRows => exact domainRows
  case aliasRows => exact aliasRows
  case domainsOnce =>
    have once := holds.domains.once
    rw [domainRows, List.map_map] at once
    exact once.of_map
  case aliasesOnce =>
    have once := holds.aliases.once
    rw [aliasRows, List.map_map] at once
    have heads : List.head? ∘ (fun entry : AliasEntry => entry.source :: entry.destinations) =
        some ∘ (·.source) := rfl
    rw [heads, ← List.map_map] at once
    exact once.of_map
  case domains =>
    intro domain
    have entry := holds.domains.holds domain ["OK"]
    rw [domainRows, List.mem_map] at entry
    constructor
    · intro listed
      by_contra unknown
      have shown := entry.mp ⟨domain, listed, rfl⟩
      rw [if_neg unknown] at shown
      cases shown
    · intro known
      obtain ⟨other, listed, eq⟩ := entry.mpr (if_pos known)
      rwa [← (List.cons.inj eq).1]
  case aliases =>
    intro entry
    have shown := holds.aliases.holds entry.source entry.destinations
    rw [aliasRows, List.mem_map] at shown
    rw [← shown]
    constructor
    · exact fun listed => ⟨entry, listed, rfl⟩
    · rintro ⟨other, listed, eq⟩
      obtain ⟨source, destinations⟩ := List.cons.inj eq
      have same : other = entry := by
        cases other
        cases entry
        simp only at source destinations
        rw [source, destinations]
      rwa [← same]

/-! ### What a call does -/

theorem requirePostfixSync_done (synced : ∀ path, outcome path = .done) (path : TablePath) :
    requirePostfixSync (outcome path) = .ok () := by
  rw [synced path]
  rfl

theorem isRow_domain (valid : isValidDomain domain = true) :
    IsRow [domain, "OK"] := by
  rw [isValidDomain, Bool.and_eq_true] at valid
  constructor
  case full => simp
  case first => exact domainRe_first valid.2
  case words =>
    intro word mem
    rcases List.mem_pair.mp mem with rfl | rfl
    · exact isWord_of_check valid.1
    · exact isWord_of_check (by decide)

variable {source : String}

theorem isRow_alias
    (valid : isValidAddress source = true) (words : ∀ word ∈ destinations, IsWord word) :
    IsRow (source :: destinations) := by
  rw [isValidAddress, Bool.and_eq_true] at valid
  constructor
  case full => simp
  case first => exact addressRe_first valid.2
  case words =>
    intro word mem
    rcases List.mem_cons.mp mem with rfl | inRest
    · exact isWord_of_check valid.1
    · exact words word inRest

section

variable (synced : ∀ path, outcome path = .done)

include synced

theorem putDomain_eq (domain : String) :
    let written := files.writeRows
      (without domain (readRowsForUpdate files.domains) ++ [[domain, "OK"]]) .domains
    putDomain outcome domain files = (.ok written.listDomains, written) := by
  unfold putDomain
  dsimp only
  rw [requirePostfixSync_done synced]

theorem putDomain_holds (holds : files.Holds directory)
    (valid : isValidDomain domain = true) : ∃ written,
      putDomain outcome domain files = (.ok written.listDomains, written) ∧
        written.Holds (directory.apply (.addDomain domain)) := by
  refine ⟨_, putDomain_eq synced domain, ?_⟩
  constructor
  case aliases => exact holds.aliases
  case addressed => exact holds.addressed
  case domains =>
    refine (holds.domains.put (isRow_domain valid)).read.congr fun name => ?_
    by_cases eq : name = domain
    · simp [Directory.apply, eq]
    · simp [Directory.apply, eq]

theorem dropDomain_eq (domain : String) :
    let aliases := (readRowsForUpdate files.aliases).filter fun row =>
      !row.head?.any fun source => ("@" ++ domain).toList.isSuffixOf source.toList
    let written := (files.writeRows aliases .aliases).writeRows
      (without domain (readRowsForUpdate files.domains)) .domains
    dropDomain outcome domain files = (.ok written.listDomains, written) := by
  unfold dropDomain
  dsimp only
  rw [requirePostfixSync_done synced, requirePostfixSync_done synced]

theorem dropDomain_holds (holds : files.Holds directory)
    (valid : isValidDomain domain = true) : ∃ written,
      dropDomain outcome domain files = (.ok written.listDomains, written) ∧
        written.Holds (directory.apply (.deleteDomain domain)) := by
  rw [isValidDomain, Bool.and_eq_true] at valid
  refine ⟨_, dropDomain_eq synced domain, ?_⟩
  constructor
  case domains =>
    refine (holds.domains.without domain).read.congr fun name => ?_
    by_cases eq : name = domain
    · simp [Directory.apply, eq]
    · simp [Directory.apply, eq]
  case addressed =>
    intro source destinations held
    rw [Directory.apply] at held
    dsimp only at held
    split at held
    · cases held
    · exact holds.addressed source destinations held
  case aliases =>
    have kept : ((readRowsForUpdate files.aliases).filter fun row =>
        !row.head?.any fun source => ("@" ++ domain).toList.isSuffixOf source.toList) =
        (readRowsForUpdate files.aliases).filter fun row =>
          row.head?.all fun source => domainPart source ≠ domain := by
      refine List.filter_congr fun row mem => ?_
      obtain ⟨source, first, rest, rfl, entry⟩ := holds.alias_row mem
      have suffix := isSuffixOf_iff (holds.addressed source _ entry).1
        (domain_unbroken valid.2)
      rw [List.head?_cons, Option.any_some, Option.all_some, Bool.eq_iff_iff, Bool.not_eq_true',
        Bool.eq_false_iff, ne_eq, suffix]
      simp
    rw [kept]
    refine (holds.aliases.filter _).read.congr fun source => ?_
    by_cases eq : domainPart source = domain
    · simp [Directory.apply, eq]
    · simp [Directory.apply, eq]

theorem putAliases_eq (table : List TableRow) :
    putAliases outcome table files =
      (.ok (files.writeRows table .aliases).listAliases, files.writeRows table .aliases) := by
  unfold putAliases
  dsimp only
  rw [requirePostfixSync_done synced]

theorem putAlias_holds (holds : files.Holds directory)
    (valid : isValidAddress source = true)
    (full : destinations ≠ []) (words : ∀ word ∈ destinations, IsWord word) : ∃ written,
      putAlias outcome source destinations files = (.ok written.listAliases, written) ∧
        written.Holds (directory.apply (.addAlias source destinations)) := by
  refine ⟨_, putAliases_eq synced _, ?_⟩
  constructor
  case domains => exact holds.domains
  case aliases => exact (holds.aliases.put (isRow_alias valid words)).read
  case addressed =>
    intro other others held
    rw [Directory.apply] at held
    dsimp only at held
    split at held
    · rename_i same
      obtain rfl := Option.some.inj held
      rw [isValidAddress, Bool.and_eq_true] at valid
      exact ⟨same ▸ valid.2, full⟩
    · exact holds.addressed other others held

theorem dropAlias_holds (holds : files.Holds directory)
    (source : String) : ∃ written,
      dropAlias outcome source files = (.ok written.listAliases, written) ∧
        written.Holds (directory.apply (.deleteAlias source)) := by
  refine ⟨_, putAliases_eq synced _, ?_⟩
  constructor
  case domains => exact holds.domains
  case aliases => exact (holds.aliases.without source).read
  case addressed =>
    intro other others held
    rw [Directory.apply] at held
    dsimp only at held
    split at held
    · cases held
    · exact holds.addressed other others held

end

/-- A call that does not pass validation says why, and changes nothing. -/
theorem run_refused {error : StoreError} (refused : call.change = .error error)
    (files : TableFiles) : call.run outcome files = (.refused error, files) := by
  cases call with
  | addDomain name =>
    rw [Call.change] at refused
    have checked := error_of_map refused
    rw [Call.run, addDomain, checked]
    rfl
  | deleteDomain name =>
    rw [Call.change] at refused
    have checked := error_of_map refused
    rw [Call.run, deleteDomain, checked]
    rfl
  | addAlias source destinations =>
    rw [Call.change] at refused
    rw [Call.run, addAlias]
    cases checked : validatedSource "invalid alias domain" source with
    | error reason =>
      rw [checked] at refused
      rw [Except.error.inj refused]
      rfl
    | ok name =>
      rw [checked] at refused
      dsimp only at refused ⊢
      rw [error_of_map refused]
      rfl
  | deleteAlias source =>
    rw [Call.change] at refused
    have checked := error_of_map refused
    rw [Call.run, deleteAlias, checked]
    rfl

def Change.answer : Change → TableFiles → Answer
  | .addDomain _, files | .deleteDomain _, files => .domains files.listDomains
  | .addAlias _ _, files | .deleteAlias _, files => .aliases files.listAliases

variable {change : Change}

/-- A call that passes validation makes its change, and answers with the listing after it. -/
theorem run_change (synced : ∀ path, outcome path = .done) (holds : files.Holds directory)
    (passes : call.change = .ok change) : ∃ written,
      call.run outcome files = (change.answer written, written) ∧
        written.Holds (directory.apply change) := by
  cases call with
  | addDomain name =>
    rw [Call.change] at passes
    obtain ⟨domain, checked, rfl⟩ := ok_of_map passes
    obtain ⟨written, ran, after⟩ := putDomain_holds synced holds (validatedDomain_ok checked)
    refine ⟨written, ?_, after⟩
    rw [Call.run, addDomain, checked]
    dsimp only
    rw [ran]
    rfl
  | deleteDomain name =>
    rw [Call.change] at passes
    obtain ⟨domain, checked, rfl⟩ := ok_of_map passes
    obtain ⟨written, ran, after⟩ := dropDomain_holds synced holds (validatedDomain_ok checked)
    refine ⟨written, ?_, after⟩
    rw [Call.run, deleteDomain, checked]
    dsimp only
    rw [ran]
    rfl
  | addAlias source destinations =>
    rw [Call.change] at passes
    rw [Call.run, addAlias]
    cases checked : validatedSource "invalid alias domain" source with
    | error reason =>
      rw [checked] at passes
      exact absurd passes (fun h => by cases h)
    | ok name =>
      rw [checked] at passes
      dsimp only at passes ⊢
      obtain ⟨names, normal, rfl⟩ := ok_of_map passes
      obtain ⟨full, words⟩ := validatedDestinations_ok normal
      obtain ⟨written, ran, after⟩ :=
        putAlias_holds synced holds (validatedSource_ok checked).1 full words
      refine ⟨written, ?_, after⟩
      rw [normal]
      dsimp only
      rw [ran]
      rfl
  | deleteAlias source =>
    rw [Call.change] at passes
    obtain ⟨name, checked, rfl⟩ := ok_of_map passes
    obtain ⟨written, ran, after⟩ := dropAlias_holds synced holds name
    refine ⟨written, ?_, after⟩
    rw [Call.run, deleteAlias, checked]
    dsimp only
    rw [ran]
    rfl

theorem next_holds (synced : ∀ path, outcome path = .done) (holds : files.Holds directory)
    (call : Call) : (call.run outcome files).2.Holds (directory.next call) := by
  rw [Directory.next]
  cases passes : call.change with
  | error error => rwa [run_refused passes files]
  | ok change =>
    obtain ⟨written, ran, after⟩ := run_change synced holds passes
    rwa [ran]

theorem after_holds (synced : ∀ path, outcome path = .done) (holds : files.Holds directory)
    (calls : List Call) :
    (files.after outcome calls).Holds (calls.foldl Directory.next directory) := by
  induction calls generalizing files directory with
  | nil => exact holds
  | cons call calls ih => exact ih (next_holds synced holds call)

theorem holds_empty (empty : ∀ path, readRowsForUpdate (files.file path) = []) :
    files.Holds .empty := by
  have domains : readRowsForUpdate files.domains = [] := empty .domains
  have aliases : readRowsForUpdate files.aliases = [] := empty .aliases
  constructor
  case domains =>
    rw [domains]
    exact ⟨List.nodup_nil, by simp [Directory.empty], by simp⟩
  case aliases =>
    rw [aliases]
    exact ⟨List.nodup_nil, by simp [Directory.empty], by simp⟩
  case addressed => simp [Directory.empty]

end

theorem Directory.apply_domains (other : ¬change.NamesDomain domain) (directory : Directory) :
    domain ∈ (directory.apply change).domains ↔ domain ∈ directory.domains := by
  cases change with
  | addDomain name =>
    have ne : domain ≠ name := fun eq => other (.inl (by rw [eq]))
    simp [Directory.apply, ne]
  | deleteDomain name =>
    have ne : domain ≠ name := fun eq => other (.inr (by rw [eq]))
    simp [Directory.apply, ne]
  | addAlias source destinations => exact Iff.rfl
  | deleteAlias source => exact Iff.rfl

theorem Directory.apply_aliases (other : ¬change.NamesAlias source) (directory : Directory) :
    (directory.apply change).aliases source = directory.aliases source := by
  cases change with
  | addDomain name => rfl
  | deleteDomain name => exact if_neg fun eq => other (.inr (.inr (by rw [eq])))
  | addAlias name destinations => exact if_neg fun eq => other (.inl ⟨destinations, by rw [eq]⟩)
  | deleteAlias name => exact if_neg fun eq => other (.inr (.inl (by rw [eq])))

/-- From empty tables on, and while Postfix takes each table, the listings are those of the maps
that the calls stand for, and a row of a file is one entry of its listing. A call that passes
validation leaves alone what it does not name. -/
theorem tables_are_maps {outcome : TablePath → PostmapOutcome}
    (synced : ∀ path, outcome path = .done)
    {start : TableFiles} (empty : ∀ path, readRowsForUpdate (start.file path) = [])
    (calls : List Call) :
    (start.after outcome calls).Lists (.after calls) ∧
      ∀ call : Call,
        (∀ error, call.change = .error error →
          call.run outcome (start.after outcome calls) =
            (.refused error, start.after outcome calls)) ∧
        ∀ change, call.change = .ok change → ∃ written,
          call.run outcome (start.after outcome calls) = (change.answer written, written) ∧
            written.Lists ((Directory.after calls).apply change) ∧
            (∀ domain, ¬change.NamesDomain domain →
              (domain ∈ written.listDomains ↔
                domain ∈ (start.after outcome calls).listDomains)) ∧
            ∀ entry : AliasEntry, ¬change.NamesAlias entry.source →
              (entry ∈ written.listAliases ↔
                entry ∈ (start.after outcome calls).listAliases) := by
  have holds := after_holds synced (holds_empty empty) calls
  refine ⟨holds.lists, fun call => ⟨fun error refused => run_refused refused _, ?_⟩⟩
  intro change passes
  obtain ⟨written, ran, after⟩ := run_change synced holds passes
  refine ⟨written, ran, after.lists, ?_, ?_⟩
  · intro domain other
    rw [after.lists.domains, holds.lists.domains]
    exact Directory.apply_domains other _
  · intro entry other
    rw [after.lists.aliases, holds.lists.aliases, Directory.apply_aliases other]

theorem tables_are_maps_info :
    let start : TableFiles := ⟨some "# none yet\n", none⟩
    let calls : List Call := [.addDomain " Example.COM ", .addDomain "example.org",
      .addAlias "Info@example.com" ["bob", "Eve@example.org"], .addAlias "info@example.org" ["bob"],
      .deleteDomain "example.org", .addDomain "no domain"]
    (start.after (fun _ => .done) calls).Lists (.after calls) ∧
      (start.after (fun _ => .done) calls).listDomains = ["example.com"] ∧
      (start.after (fun _ => .done) calls).listAliases =
        [⟨"info@example.com", ["bob", "eve@example.org"]⟩] := by
  refine ⟨(tables_are_maps (fun _ => rfl) (fun path => ?_) _).1, ?_, ?_⟩
  · cases path
    case domains => decide +kernel
    case aliases => rfl
  · decide +kernel
  · decide +kernel

end MailStack.Tables
