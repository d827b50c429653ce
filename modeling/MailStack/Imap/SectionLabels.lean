import Mathlib
import MailStack.Imap.Render
import MailStack.Maildir.UidlistText

/-! How a section is read from the brackets of a FETCH, and that its label is read as the same
section. -/

namespace MailStack.Imap

open Lib Maildir

def invalidSection (content : String) : MailError := .invalid ("invalid section: " ++ content)

def isFieldNameChar (c : Char) : Bool := isAsciiGraphic c && !"():\"\\".toList.contains c

/-- A name after `HEADER.FIELDS`. -/
def fieldName (token : String) : Except MailError String :=
  let name := trim token
  if name ≠ "" ∧ name.toList.all isFieldNameChar = true then .ok name
  else .error (.invalid "invalid header field name")

/-- The loop over the segments: the numbers, and the keyword that ends it. -/
@[grind =] def sectionPath (content : String) :
    Nat → List String → Except MailError (List Nat × Option String)
  | _, [] => .ok ([], none)
  | index, segment :: rest =>
    if segment ∈ ["MIME", "HEADER", "TEXT"] ∧ 0 < index then .ok ([], some segment)
    else if segment.toList.all Char.isDigit = true ∧ segment ≠ "" then
      match parseUnsigned (2 ^ 32 - 1) segment with
      | none => .error (.invalid "invalid part number")
      | some 0 => .error (.invalid "part numbers start at 1")
      | some (number + 1) =>
        match sectionPath content (index + 1) rest with
        | .ok (path, suffix) => .ok ((number + 1) :: path, suffix)
        | .error error => .error error
    else .error (invalidSection content)

def suffixSection (path : List Nat) : Option String → Section
  | none => .part path
  | some "MIME" => .mime path
  | some "HEADER" => .headerPart path
  | some _ => .textPart path

def withoutParens (content : String) : String :=
  String.ofList (content.toList.map fun c => if c = '(' ∨ c = ')' then ' ' else c)

def parseSection (content : String) : Except MailError Section :=
  match splitWhitespace (withoutParens content) with
  | [] => .ok .full
  | first :: tokens =>
    let upper := toAsciiUppercase first
    if upper = "HEADER" ∧ tokens = [] then .ok .header
    else if upper = "TEXT" ∧ tokens = [] then .ok .text
    else if upper = "HEADER.FIELDS" ∨ upper = "HEADER.FIELDS.NOT" then
      match tokens.mapM fieldName with
      | .error error => .error error
      | .ok [] => .error (.invalid "HEADER.FIELDS requires field names")
      | .ok names => .ok (.headerFields names (upper = "HEADER.FIELDS.NOT"))
    else if upper = "MIME" ∧ tokens = [] then .ok (.mime [])
    else
      match sectionPath content 0 ((upper.toList.splitOn '.').map String.ofList) with
      | .error error => .error error
      | .ok ([], _) => .error (invalidSection content)
      | .ok (path, suffix) => .ok (suffixSection path suffix)

def IsPath (path : List Nat) : Prop := ∀ number ∈ path, 0 < number ∧ number ≤ 2 ^ 32 - 1

structure IsFieldName (name : String) : Prop where
  some : name ≠ ""
  inside : ∀ c ∈ name.toList, isFieldNameChar c = true

/-- The section is one that is read from some brackets. -/
def Section.Wellformed : Section → Prop
  | .full | .header | .text => True
  | .headerFields names _ => names ≠ [] ∧ ∀ name ∈ names, IsFieldName name
  | .mime path => IsPath path
  | .part path | .headerPart path | .textPart path => path ≠ [] ∧ IsPath path

theorem fieldName_ok {token name : String} (h : fieldName token = .ok name) : IsFieldName name := by
  simp only [fieldName] at h
  split at h
  · next valid =>
    rw [← Except.ok.inj h]
    exact ⟨valid.1, List.all_eq_true.mp valid.2⟩
  · cases h

theorem mapM_fieldName_ok {tokens names : List String} (h : tokens.mapM fieldName = .ok names) :
    ∀ name ∈ names, IsFieldName name := by
  induction tokens generalizing names with
  | nil =>
    cases h
    simp
  | cons token tokens ih =>
    rw [List.mapM_cons] at h
    cases first : fieldName token with
    | error error =>
      rw [first] at h
      cases h
    | ok name =>
      cases others : tokens.mapM fieldName with
      | error error =>
        rw [first, others] at h
        cases h
      | ok more =>
        rw [first, others] at h
        cases h
        exact List.forall_mem_cons.mpr ⟨fieldName_ok first, ih others⟩

theorem sectionPath_ok {content : String} {index : Nat} {segments : List String} {path : List Nat}
    {suffix : Option String} (h : sectionPath content index segments = .ok (path, suffix)) :
    IsPath path := by
  induction segments generalizing index path with
  | nil =>
    cases h
    simp [IsPath]
  | cons segment rest ih =>
    rw [sectionPath] at h
    split at h
    · cases h
      simp [IsPath]
    split at h
    · split at h
      · cases h
      · cases h
      · next number value =>
        split at h
        · next later =>
          cases h
          have bound := parseUnsigned_le value
          exact List.forall_mem_cons.mpr ⟨⟨Nat.succ_pos number, bound⟩, ih later⟩
        · cases h
    · cases h

theorem suffixSection_wellformed {path : List Nat} (some : path ≠ []) (numbers : IsPath path)
    (suffix : Option String) : (suffixSection path suffix).Wellformed := by
  unfold suffixSection
  split
  · exact ⟨some, numbers⟩
  · exact numbers
  · exact ⟨some, numbers⟩
  · exact ⟨some, numbers⟩

theorem parseSection_wellformed {content : String} {read : Section}
    (h : parseSection content = .ok read) : read.Wellformed := by
  unfold parseSection at h
  split at h
  · cases h
    trivial
  simp only at h
  split at h
  · cases h
    trivial
  split at h
  · cases h
    trivial
  split at h
  · split at h
    · cases h
    · cases h
    · next names some valid =>
      cases h
      exact ⟨some, mapM_fieldName_ok valid⟩
  split at h
  · cases h
    simp [Section.Wellformed, IsPath]
  split at h
  · cases h
  · cases h
  · next path suffix some numbers =>
    cases h
    exact suffixSection_wellformed some (sectionPath_ok numbers) _

theorem withoutParens_append (s t : String) :
    withoutParens (s ++ t) = withoutParens s ++ withoutParens t := by
  simp [withoutParens]

theorem withoutParens_eq_self {s : String} (h : ∀ c ∈ s.toList, c ≠ '(' ∧ c ≠ ')') :
    withoutParens s = s := by
  have same : (s.toList.map fun c => if c = '(' ∨ c = ')' then ' ' else c) = s.toList :=
    (List.map_congr_left fun c mem => if_neg (not_or.mpr (h c mem))).trans (List.map_id _)
  rw [withoutParens, same, String.ofList_toList]

variable {c : Char} {name : String}

theorem IsFieldName.graphic (h : IsFieldName name)
    (mem : c ∈ name.toList) : isAsciiGraphic c = true := by
  have own := h.inside c mem
  rw [isFieldNameChar, Bool.and_eq_true] at own
  exact own.1

theorem IsFieldName.isWord (h : IsFieldName name) : IsWord name :=
  ⟨by simpa using h.some, fun _ mem => not_isWhitespace_of_graphic (h.graphic mem)⟩

theorem IsFieldName.no_parens (h : IsFieldName name)
    (mem : c ∈ name.toList) : c ≠ '(' ∧ c ≠ ')' := by
  have own := h.inside c mem
  constructor
  · rintro rfl
    exact absurd own (by decide)
  · rintro rfl
    exact absurd own (by decide)

theorem fieldName_eq (h : IsFieldName name) : fieldName name = .ok name := by
  have same : trim name = name := trim_visible h.isWord.inside
  simp only [fieldName, same]
  rw [if_pos ⟨h.some, List.all_eq_true.mpr h.inside⟩]

variable {names : List String}

theorem mapM_fieldName_eq (h : ∀ name ∈ names, IsFieldName name) :
    names.mapM fieldName = .ok names := by
  induction names with
  | nil => rfl
  | cons name names ih =>
    rw [List.mapM_cons, fieldName_eq (h name List.mem_cons_self),
      ih fun n mem => h n (List.mem_cons_of_mem _ mem)]
    rfl

theorem intercalate_eq_sentence (first : String) (rest : List String) :
    " ".intercalate (first :: rest) = sentence first rest := by
  apply String.toList_inj.mp
  rw [String.toList_intercalate, sentence_toList]
  induction rest generalizing first with
  | nil => simp
  | cons second rest ih =>
    rw [List.map_cons, List.map_cons, List.intercalate_cons_cons, ← List.map_cons, ih second]
    simp

/-- Names in parentheses after a word are the words that follow it. -/
theorem words_of_names {keyword : String} (word : IsWord keyword)
    (plain : ∀ c ∈ keyword.toList, c ≠ '(' ∧ c ≠ ')') (some : names ≠ [])
    (h : ∀ name ∈ names, IsFieldName name) :
    splitWhitespace (withoutParens (keyword ++ " (" ++ " ".intercalate names ++ ")")) =
      keyword :: names := by
  obtain ⟨first, rest, rfl⟩ := List.exists_cons_of_ne_nil some
  obtain ⟨own, others⟩ := List.forall_mem_cons.mp h
  have inner : ∀ c ∈ (sentence first rest).toList, c ≠ '(' ∧ c ≠ ')' := by
    intro c mem
    rw [sentence_toList] at mem
    rcases List.mem_append.mp mem with mem | mem
    · exact own.no_parens mem
    · obtain ⟨name, inRest, mem⟩ := List.mem_flatMap.mp mem
      rcases List.mem_cons.mp mem with rfl | mem
      · decide
      · exact (others name inRest).no_parens mem
  have cleaned : withoutParens (keyword ++ " (" ++ sentence first rest ++ ")") =
      keyword ++ " " ++ ("" ++ " " ++ (sentence first rest ++ " " ++ "")) := by
    rw [withoutParens_append, withoutParens_append, withoutParens_append,
      withoutParens_eq_self plain, withoutParens_eq_self inner,
      show withoutParens " (" = "  " from rfl, show withoutParens ")" = " " from rfl]
    apply String.toList_inj.mp
    simp
  rw [intercalate_eq_sentence, cleaned, splitWhitespace_blank, splitWhitespace_blank,
    splitWhitespace_blank, splitWhitespace_word word,
    splitWhitespace_sentence own.isWord fun name mem => (others name mem).isWord,
    show splitWhitespace "" = [] from rfl]
  simp

theorem parseSection_headerFields (not : Bool) (some : names ≠ [])
    (h : ∀ name ∈ names, IsFieldName name) :
    parseSection (Section.headerFields names not).label = .ok (.headerFields names not) := by
  obtain ⟨first, rest, rfl⟩ := List.exists_cons_of_ne_nil some
  have read := mapM_fieldName_eq h
  cases not with
  | true =>
    have words := words_of_names (show IsWord "HEADER.FIELDS.NOT" from ⟨by decide, by decide⟩)
      (by decide) some h
    have upper : toAsciiUppercase "HEADER.FIELDS.NOT" = "HEADER.FIELDS.NOT" := by decide
    simp only [Section.label, parseSection, if_true, words, upper, read]
    simp
  | false =>
    have words := words_of_names (show IsWord "HEADER.FIELDS" from ⟨by decide, by decide⟩)
      (by decide) some h
    have upper : toAsciiUppercase "HEADER.FIELDS" = "HEADER.FIELDS" := by decide
    simp only [Section.label, parseSection, Bool.false_eq_true, if_false, words, upper, read]
    simp

def IsSuffix (suffix : Option String) : Prop := ∀ word ∈ suffix, word ∈ ["MIME", "HEADER", "TEXT"]

theorem sectionPath_eq (content : String) {index : Nat} {path : List Nat} {suffix : Option String}
    (numbers : IsPath path) (keyword : IsSuffix suffix) (later : 0 < index + path.length) :
    sectionPath content index (path.map toString ++ suffix.toList) = .ok (path, suffix) := by
  induction path generalizing index with
  | nil =>
    cases suffix with
    | none => rfl
    | some word =>
      have start : 0 < index := later
      rw [List.map_nil, List.nil_append, Option.toList_some, sectionPath,
        if_pos ⟨keyword word rfl, start⟩]
  | cons number path ih =>
    obtain ⟨⟨positive, bound⟩, others⟩ := List.forall_mem_cons.mp numbers
    have digits : (toString number).toList.all Char.isDigit = true :=
      List.all_eq_true.mpr fun c mem => isDigit_of_mem_toString mem
    have none_ : toString number ≠ "" := by simp
    have noKeyword : toString number ∉ ["MIME", "HEADER", "TEXT"] := by
      intro mem
      simp only [List.mem_cons, List.not_mem_nil, or_false] at mem
      rcases mem with eq | eq | eq <;> rw [eq] at digits <;> exact absurd digits (by decide)
    obtain ⟨before, rfl⟩ := Nat.exists_eq_succ_of_ne_zero (Nat.ne_of_gt positive)
    rw [List.map_cons, List.cons_append, sectionPath, if_neg fun h => noKeyword h.1,
      if_pos ⟨digits, none_⟩, parseUnsigned_toString bound, ih others (by omega)]

def IsPathChar (c : Char) : Prop := c.isDigit = true ∨ c.isUpper = true ∨ c = '.'

theorem IsPathChar.plain (h : IsPathChar c) :
    isWhitespace c = false ∧ (c ≠ '(' ∧ c ≠ ')') ∧ c.toUpper = c := by
  have range : 46 ≤ c.toNat ∧ c.toNat ≤ 90 := by
    rcases h with digit | upper | rfl
    · simp only [Char.isDigit, Bool.and_eq_true, decide_eq_true_eq, ge_iff_le,
        UInt32.le_iff_toNat_le, UInt32.reduceToNat, Char.reduceVal] at digit
      show 46 ≤ c.val.toNat ∧ c.val.toNat ≤ 90
      omega
    · rw [isUpper_iff] at upper
      simp only [ge_iff_le, UInt32.le_iff_toNat_le, UInt32.reduceToNat, Char.reduceVal] at upper
      show 46 ≤ c.val.toNat ∧ c.val.toNat ≤ 90
      omega
    · decide
  refine ⟨isWhitespace_eq_false ⟨by omega, by omega⟩, ⟨?_, ?_⟩, ?_⟩
  · rintro rfl
    exact absurd range (by decide)
  · rintro rfl
    exact absurd range (by decide)
  · have notLower : ¬('a'.val ≤ c.val ∧ c.val ≤ 'z'.val) := by
      intro lower
      have least : 97 ≤ c.toNat := UInt32.le_iff_toNat_le.mp lower.1
      omega
    rw [Char.toUpper, dif_neg notLower]

/-- The segments of a path, which are parted by dots. -/
structure Segments (path : List Nat) (suffix : Option String) (segments : List String) : Prop where
  eq : segments = path.map toString ++ suffix.toList
  numbered : path ≠ []
  numbers : IsPath path
  keyword : IsSuffix suffix

theorem toList_dotted (segments : List String) : (".".intercalate segments).toList =
    ['.'].intercalate (segments.map String.toList) := String.toList_intercalate

section Dotted

variable {path : List Nat} {suffix : Option String} {segments : List String}
  (h : Segments path suffix segments)
include h

theorem Segments.chars {segment : String} (mem : segment ∈ segments)
    (inside : c ∈ segment.toList) : c.isDigit = true ∨ c.isUpper = true := by
  rw [h.eq] at mem
  rcases List.mem_append.mp mem with mem | mem
  · obtain ⟨number, -, rfl⟩ := List.mem_map.mp mem
    exact .inl (isDigit_of_mem_toString inside)
  · have keyword := h.keyword segment (Option.mem_toList.mp mem)
    simp only [List.mem_cons, List.not_mem_nil, or_false] at keyword
    have upper : ∀ word ∈ ["MIME", "HEADER", "TEXT"], word.toList.all Char.isUpper = true := by
      decide
    exact .inr (List.all_eq_true.mp (upper segment (by simpa using keyword)) c inside)

theorem Segments.ne_nil : segments ≠ [] := by
  rw [h.eq]
  simp [h.numbered]

theorem Segments.split :
    ((".".intercalate segments).toList.splitOn '.').map String.ofList = segments := by
  have noDot : ∀ part ∈ segments.map String.toList, '.' ∉ part := by
    intro part mem inside
    obtain ⟨segment, own, rfl⟩ := List.mem_map.mp mem
    exact absurd (h.chars own inside) (by decide)
  rw [toList_dotted, List.splitOn_intercalate '.' noDot (by simpa using h.ne_nil), List.map_map]
  exact (List.map_congr_left fun segment _ => String.ofList_toList).trans (List.map_id _)

theorem Segments.pathChar (mem : c ∈ (".".intercalate segments).toList) :
    IsPathChar c := by
  rw [toList_dotted] at mem
  rcases mem_intercalate mem with rfl | ⟨part, own, inside⟩
  · exact .inr (.inr rfl)
  · obtain ⟨segment, named, rfl⟩ := List.mem_map.mp own
    exact (h.chars named inside).imp_right .inl

theorem Segments.head : ∃ c, (".".intercalate segments).toList.head? = some c ∧
    c.isDigit = true := by
  obtain ⟨number, more, shape⟩ := List.exists_cons_of_ne_nil h.numbered
  have digits : (toString number).toList ≠ [] := by simp
  obtain ⟨digit, others, chars⟩ := List.exists_cons_of_ne_nil digits
  refine ⟨digit, ?_,
    isDigit_of_mem_toString (n := number) (by rw [chars]; exact List.mem_cons_self)⟩
  rw [toList_dotted, h.eq, shape, List.map_cons, List.cons_append, List.map_cons, chars]
  cases more.map toString ++ suffix.toList with
  | nil => simp
  | cons second rest => simp [List.intercalate_cons_cons]

theorem parseSection_dotted :
    parseSection (".".intercalate segments) = .ok (suffixSection path suffix) := by
  have plain := fun c mem => (h.pathChar (c := c) mem).plain
  obtain ⟨digit, first, isDigit⟩ := h.head
  have word : IsWord (".".intercalate segments) := by
    refine ⟨fun none_ => ?_, fun c mem => (plain c mem).1⟩
    rw [none_] at first
    cases first
  have cleaned : withoutParens (".".intercalate segments) = ".".intercalate segments :=
    withoutParens_eq_self fun c mem => (plain c mem).2.1
  have upper : toAsciiUppercase (".".intercalate segments) = ".".intercalate segments := by
    rw [toAsciiUppercase, List.map_congr_left fun c mem => (plain c mem).2.2, List.map_id',
      String.ofList_toList]
  have noKeyword : ∀ word ∈ ["HEADER", "TEXT", "HEADER.FIELDS", "HEADER.FIELDS.NOT", "MIME"],
      ".".intercalate segments ≠ word := by
    intro word mem eq
    have letter : ∀ word ∈ ["HEADER", "TEXT", "HEADER.FIELDS", "HEADER.FIELDS.NOT", "MIME"],
        word.toList.head?.all (fun c => !c.isDigit) = true := by decide
    have own := letter word mem
    rw [← eq, first] at own
    simp [isDigit] at own
  have numbers : sectionPath (".".intercalate segments) 0 segments = .ok (path, suffix) := by
    have length := List.length_pos_of_ne_nil h.numbered
    rw [h.eq]
    exact sectionPath_eq _ h.numbers h.keyword (by omega)
  obtain ⟨number, more, shape⟩ := List.exists_cons_of_ne_nil h.numbered
  have split := h.split
  generalize ".".intercalate segments = content at *
  simp only [List.mem_cons, List.not_mem_nil, or_false, forall_eq_or_imp, forall_eq] at noKeyword
  obtain ⟨notHeader, notText, notFields, notOthers, notMime⟩ := noKeyword
  simp only [parseSection, cleaned, splitWhitespace_word word, upper, split, numbers, notHeader,
    notText, notFields, notOthers, notMime, shape, false_and, or_self, if_false]

end Dotted

theorem suffixPath_eq {path : List Nat} (some : path ≠ []) (suffix : String) :
    suffixPath path suffix = ".".intercalate (path.map toString ++ [suffix]) := by
  rw [suffixPath, if_neg (by simpa using some), renderPath,
    String.intercalate_append_of_ne_nil (by simpa using some) (List.cons_ne_nil _ _),
    String.intercalate_singleton]

theorem parseSection_suffixPath {path : List Nat} (some_ : path ≠ []) (numbers : IsPath path)
    {suffix : String} (keyword : suffix ∈ ["MIME", "HEADER", "TEXT"]) :
    parseSection (suffixPath path suffix) = .ok (suffixSection path (some suffix)) := by
  rw [suffixPath_eq some_]
  exact parseSection_dotted ⟨rfl, some_, numbers, by simpa [IsSuffix] using keyword⟩

theorem parseSection_label {read : Section} (h : read.Wellformed) :
    parseSection read.label = .ok read := by
  cases read with
  | full => rfl
  | header => decide
  | text => decide
  | headerFields names not => exact parseSection_headerFields not h.1 h.2
  | part path =>
    have none_ : IsSuffix none := by simp [IsSuffix]
    exact parseSection_dotted ⟨by simp, h.1, h.2, none_⟩
  | mime path =>
    by_cases none_ : path = []
    · subst none_
      decide
    · exact parseSection_suffixPath none_ h (by decide)
  | headerPart path => exact parseSection_suffixPath h.1 h.2 (by decide)
  | textPart path => exact parseSection_suffixPath h.1 h.2 (by decide)

/-- The label of a section that was read is read as the same section, and no other section that can
be read has it. -/
theorem label_names_section {content : String} {read : Section}
    (parsed : parseSection content = .ok read) :
    parseSection read.label = .ok read ∧
      ∀ other content', parseSection content' = .ok other → other.label = read.label →
        other = read := by
  have own := parseSection_label (parseSection_wellformed parsed)
  refine ⟨own, fun other content' parsed' same => ?_⟩
  have theirs := parseSection_label (parseSection_wellformed parsed')
  rw [same, own] at theirs
  exact (Except.ok.inj theirs).symm

/-- Field names may look like keywords or numbers. -/
theorem keyword_names_section :
    parseSection "header.fields (Text 1.MIME)" = .ok (.headerFields ["Text", "1.MIME"] false) ∧
      parseSection "HEADER.FIELDS (Text 1.MIME)" =
        .ok (.headerFields ["Text", "1.MIME"] false) := by
  have parsed : parseSection "header.fields (Text 1.MIME)" =
      .ok (.headerFields ["Text", "1.MIME"] false) := by decide +kernel
  exact ⟨parsed, (label_names_section parsed).1⟩

end MailStack.Imap
