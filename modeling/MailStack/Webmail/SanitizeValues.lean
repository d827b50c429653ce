import MailStack.Lib.Html
import MailStack.Webmail.Sanitize

/-! What the sanitizer writes for an attribute: a name and a value, and what the sanitizer makes of
these when it reads them again. -/

namespace MailStack.Webmail.Sanitize

open Lib

/-! ### Character references -/

variable {c : Char} {kept : String}

theorem decodeEntitiesFrom_reference {entity : List Char} (plain : ';' ∉ entity)
    (short : len (String.ofList entity) ≤ 10)
    (known : decodeOneEntity (String.ofList entity) = some c) (rest : List Char) :
    decodeEntitiesFrom 0 ('&' :: entity ++ ';' :: rest) = c :: decodeEntitiesFrom 0 rest := by
  have skips : ∀ (read rest : List Char),
      decodeEntitiesFrom read.length (read ++ rest) = decodeEntitiesFrom 0 rest := by
    intro read rest
    induction read with
    | nil => cases rest <;> rfl
    | cons d read ih => exact ih
  have found : entityBefore (entity ++ ';' :: rest) = some (String.ofList entity) := by
    rw [entityBefore, splitOnceChars_append plain, Option.bind_some]
    exact if_pos short
  have left : entity ++ ';' :: rest = (entity ++ [';']) ++ rest := by simp
  have length : (String.ofList entity).length + 1 = (entity ++ [';']).length := by simp
  rw [List.cons_append, decodeEntitiesFrom, if_pos rfl, found]
  simp only [Option.bind_some, known, Option.map_some, length]
  rw [left, skips]

theorem escapeChar_reference (special : Html.escapeChar c ≠ [c]) :
    ∃ entity, Html.escapeChar c = '&' :: entity ++ [';'] ∧ ';' ∉ entity ∧
      len (String.ofList entity) ≤ 10 ∧ decodeOneEntity (String.ofList entity) = some c := by
  rcases Html.escapeChar_cases c with ⟨-, -, -, -, eq⟩ | ⟨rfl, -⟩ | ⟨rfl, -⟩ | ⟨rfl, -⟩ | ⟨rfl, -⟩ |
    ⟨rfl, -⟩
  · exact absurd eq special
  · exact ⟨"amp".toList, by decide⟩
  · exact ⟨"quot".toList, by decide⟩
  · exact ⟨"#39".toList, by decide⟩
  · exact ⟨"lt".toList, by decide⟩
  · exact ⟨"gt".toList, by decide⟩

theorem decodeEntities_escape (value : List Char) :
    decodeEntitiesFrom 0 (Html.escape value) = value := by
  induction value with
  | nil => rfl
  | cons c value ih =>
    rw [Html.escape, List.flatMap_cons, ← Html.escape]
    by_cases special : Html.escapeChar c = [c]
    · have notReference : c ≠ '&' := by
        rintro rfl
        exact absurd special (by decide)
      rw [special, List.singleton_append, decodeEntitiesFrom, if_neg notReference, ih]
    · obtain ⟨entity, eq, plain, short, known⟩ := escapeChar_reference special
      have text : '&' :: entity ++ [';'] ++ Html.escape value =
          '&' :: entity ++ ';' :: Html.escape value := by simp
      rw [eq, text, decodeEntitiesFrom_reference plain short known, ih]

@[simp] theorem decodeEntitiesLimited_escape (value : String) :
    decodeEntitiesLimited (escapeAttribute value) = value := by
  have escaped : (escapeAttribute value).toList = Html.escape value.toList := String.toList_ofList
  rw [decodeEntitiesLimited, escaped, decodeEntities_escape, String.ofList_toList]

/-! ### Values that are kept as they are -/

def isPlain (value : List Char) : Bool := value.all fun c => Html.escapeChar c = [c]

variable {value : String}

theorem escapeAttribute_plain (plain : isPlain value.toList = true) :
    escapeAttribute value = value := by
  have each : ∀ cs : List Char, isPlain cs = true → Html.escape cs = cs := by
    intro cs plain
    induction cs with
    | nil => rfl
    | cons c cs ih =>
      simp only [isPlain, List.all_cons, Bool.and_eq_true, decide_eq_true_eq] at plain ih
      rw [Html.escape, List.flatMap_cons, plain.1, ← Html.escape, ih plain.2]
      rfl
  exact (congrArg String.ofList (each _ plain)).trans String.ofList_toList

theorem plain_of_digit (digit : c.isDigit = true) :
    Html.escapeChar c = [c] ∧ isWhitespace c = false ∧ c ≠ '%' := by
  have range : 48 ≤ c.toNat ∧ c.toNat ≤ 57 := by
    simp only [Char.isDigit, Bool.and_eq_true, decide_eq_true_eq, ge_iff_le,
      UInt32.le_iff_toNat_le] at digit
    exact digit
  have other : ∀ d : Char, d.toNat < 48 ∨ 57 < d.toNat → c ≠ d := by
    rintro d outside rfl
    omega
  refine ⟨?_, isWhitespace_eq_false (by omega), other _ (by decide)⟩
  rw [Html.escapeChar, if_neg (other _ (by decide)), if_neg (other _ (by decide)),
    if_neg (other _ (by decide)), if_neg (other _ (by decide)), if_neg (other _ (by decide))]

theorem sanitizeDimension_digits {digits : List Char} (some_ : digits ≠ [])
    (short : len (String.ofList digits) ≤ 6) (all : ∀ c ∈ digits, c.isDigit = true)
    {sign : List Char} (percent : sign = [] ∨ sign = ['%']) :
    sanitizeDimension (String.ofList (digits ++ sign)) = some (String.ofList (digits ++ sign)) ∧
      isPlain (digits ++ sign) = true := by
  have visible : ∀ c ∈ (String.ofList (digits ++ sign)).toList, isWhitespace c = false := by
    rw [String.toList_ofList]
    intro c mem
    rcases List.mem_append.mp mem with mem | mem
    · exact (plain_of_digit (all c mem)).2.1
    · rcases percent with rfl | rfl
      · cases mem
      · obtain rfl := List.mem_singleton.mp mem
        decide
  have plain : isPlain digits = true := by
    simpa [isPlain] using fun c mem => (plain_of_digit (all c mem)).1
  have isDigits : digits.all Char.isDigit = true := by simpa using all
  have shortDigits : ¬len (String.ofList digits) > 6 := by omega
  unfold sanitizeDimension
  simp only [trim_visible visible, String.toList_ofList]
  rcases percent with rfl | rfl
  · have last : digits.getLast? ≠ some '%' := by
      intro ends
      exact (plain_of_digit (all _ (List.mem_of_getLast? ends))).2.2 rfl
    simp [last, some_, isDigits, shortDigits, plain]
  · have sign : isPlain ['%'] = true := by decide
    have both : isPlain (digits ++ ['%']) = true := by
      rw [isPlain, List.all_append, ← isPlain, ← isPlain, plain, sign]
      rfl
    simp [some_, isDigits, shortDigits, both]

theorem sanitizeDimension_kept {value kept : String}
    (dimension : sanitizeDimension value = some kept) :
    sanitizeDimension kept = some kept ∧ isPlain kept.toList = true := by
  unfold sanitizeDimension at dimension
  simp only at dimension
  generalize (trim value).toList = trimmed at dimension
  by_cases percent : trimmed.getLast? = some '%'
  · rw [if_pos percent, if_pos percent] at dimension
    split at dimension
    · cases dimension
    next accepted =>
      simp only [Bool.or_eq_true, not_or, List.isEmpty_iff, decide_eq_true_eq, Bool.not_eq_true',
        Bool.not_eq_false, List.all_eq_true] at accepted
      obtain ⟨⟨some_, short⟩, all⟩ := accepted
      have kept_ := sanitizeDimension_digits some_ (by omega) all (.inr rfl)
      have text : kept = String.ofList (trimmed.dropLast ++ ['%']) := by
        rw [← Option.some.inj dimension]
        exact (String.ofList_append ..).symm
      rw [text, String.toList_ofList]
      exact kept_
  · rw [if_neg percent, if_neg percent] at dimension
    split at dimension
    · cases dimension
    next accepted =>
      simp only [Bool.or_eq_true, not_or, List.isEmpty_iff, decide_eq_true_eq, Bool.not_eq_true',
        Bool.not_eq_false, List.all_eq_true] at accepted
      obtain ⟨⟨some_, short⟩, all⟩ := accepted
      have kept_ := sanitizeDimension_digits some_ (by omega) all (.inl rfl)
      have text : kept = String.ofList (trimmed ++ []) := by
        rw [← Option.some.inj dimension, List.append_nil]
        exact String.append_empty
      rw [text, String.toList_ofList]
      exact kept_

/-! ### Styles -/

theorem len_append (s t : String) : len (s ++ t) = len s + len t := by
  rw [len, bytes_append, List.length_append]
  rfl

theorem trim_blank (text : List Char) :
    trim (String.ofList (' ' :: text)) = trim (String.ofList text) := by
  have blank : isWhitespace ' ' = true := by decide
  simp [trim, trimStart, blank]

def styleValueKept (value : String) : Bool :=
  !(value.isEmpty || len value > 256) &&
    !unsafeStyleParts.any (containsText (toAsciiLowercase value)) && !value.toList.any isControl

theorem styleDeclaration_eq {property value : List Char} (plain : ':' ∉ property) :
    styleDeclaration (property ++ ':' :: value) =
      if safeStyleProperties.contains (toAsciiLowercase (trim (String.ofList property))) &&
          styleValueKept (trim (String.ofList value)) then
        some (toAsciiLowercase (trim (String.ofList property)) ++ ": " ++
          trim (String.ofList value))
      else none := by
  rw [styleDeclaration, splitOnceChars_append plain, Option.bind_some]
  simp only [styleValueKept]
  generalize toAsciiLowercase (trim (String.ofList property)) = name
  generalize trim (String.ofList value) = rest
  have checks : ∀ (a b c d : Bool) (text : String),
      (if (!a) = true then none else if b = true then none else if c = true then none
        else if d = true then none else some text) =
      if (a && (!b && !c && !d)) = true then some text else none := by
    intro a b c d text
    cases a <;> cases b <;> cases c <;> cases d <;> rfl
  exact checks _ _ _ _ _

theorem safeStyleProperties_plain {property : String} (safe : property ∈ safeStyleProperties) :
    ':' ∉ property.toList ∧ ';' ∉ property.toList ∧
      toAsciiLowercase (trim property) = property := by
  have letters : ∀ property ∈ safeStyleProperties, property.toList.all fun c =>
      c.toNat = 45 || (97 ≤ c.toNat && c.toNat ≤ 122) := by
    decide
  have range : ∀ c ∈ property.toList, c.toNat = 45 ∨ 97 ≤ c.toNat ∧ c.toNat ≤ 122 := by
    simpa using letters property safe
  have colons : ':'.toNat = 58 ∧ ';'.toNat = 59 := by decide
  have visible : trim property = property := trim_visible fun c mem => by
    have := range c mem
    exact isWhitespace_eq_false (by omega)
  refine ⟨fun mem => ?_, fun mem => ?_, ?_⟩
  · have := range _ mem
    omega
  · have := range _ mem
    omega
  · rw [visible]
    apply String.toList_inj.mp
    rw [toList_toAsciiLowercase]
    refine (List.map_congr_left fun c mem => ?_).trans (List.map_id _)
    have := range c mem
    exact toLower_eq_self (isUpper_eq_false (by omega))

/-- A declaration as it is kept has no semicolon, and is kept again, also with a blank before it. -/
theorem styleDeclaration_kept {declaration : List Char} (plain : ';' ∉ declaration)
    (accepted : styleDeclaration declaration = some kept) :
    ';' ∉ kept.toList ∧ styleDeclaration kept.toList = some kept ∧
      styleDeclaration (' ' :: kept.toList) = some kept := by
  have split : ∃ property value, splitOnceChars ':' declaration = some (property, value) := by
    rw [styleDeclaration] at accepted
    obtain ⟨⟨property, value⟩, split, -⟩ := Option.bind_eq_some_iff.mp accepted
    exact ⟨property, value, split⟩
  obtain ⟨property, value, split⟩ := split
  obtain ⟨rfl, noColon⟩ := splitOnceChars_eq_some split
  rw [styleDeclaration_eq noColon] at accepted
  split at accepted
  next fine =>
    obtain ⟨safe, valueKept⟩ := Bool.and_eq_true_iff.mp fine
    generalize nameEq : toAsciiLowercase (trim (String.ofList property)) = name at accepted safe
    generalize restEq : trim (String.ofList value) = rest at accepted valueKept
    obtain ⟨colon, semicolon, lowered⟩ := safeStyleProperties_plain (by simpa using safe : name ∈ _)
    have trimmed : trim rest = rest := by rw [← restEq, trim_trim]
    have noSemicolon : ';' ∉ rest.toList := by
      intro mem
      rw [← restEq] at mem
      have inValue := mem_of_mem_trim mem
      rw [String.toList_ofList] at inValue
      exact plain (by simp [inValue])
    have text : kept.toList = name.toList ++ ':' :: ' ' :: rest.toList := by
      rw [← Option.some.inj accepted]
      simp
    have again : styleDeclaration (name.toList ++ ':' :: ' ' :: rest.toList) = some kept := by
      rw [styleDeclaration_eq colon, trim_blank, String.ofList_toList, String.ofList_toList, lowered,
        trimmed, safe, valueKept]
      exact accepted
    refine ⟨?_, ?_, ?_⟩
    · rw [text]
      simp [semicolon, noSemicolon]
    · rw [text]
      exact again
    · have blank : ':' ∉ ' ' :: name.toList := by simp [colon]
      rw [text, ← List.cons_append, styleDeclaration_eq blank, trim_blank, trim_blank,
        String.ofList_toList, String.ofList_toList, lowered, trimmed, safe, valueKept]
      exact accepted
  · cases accepted

theorem splitOn_declarations {more : List String}
    (plain : ∀ text ∈ kept :: more, ';' ∉ text.toList) :
    ("; ".intercalate (kept :: more)).toList.splitOn ';' =
      kept.toList :: more.map fun text => ' ' :: text.toList := by
  rw [String.toList_intercalate]
  show (([';', ' '] : List Char).intercalate _).splitOn ';' = _
  -- each later declaration has the blank of the separator before it
  have later : ∀ first : List Char, ';' ∉ first →
      (([';', ' '] : List Char).intercalate (first :: more.map String.toList)).splitOn ';' =
        first :: more.map fun text => ' ' :: text.toList := by
    have plainMore := fun text mem => plain text (List.mem_cons_of_mem _ mem)
    clear plain
    induction more with
    | nil =>
      intro first plain
      rw [List.map_nil, List.intercalate_singleton]
      exact List.splitOn_eq_singleton plain
    | cons second more ih =>
      intro first plain
      have rest := ih (fun text mem => plainMore text (List.mem_cons_of_mem _ mem))
        (' ' :: second.toList) (by simpa using plainMore second List.mem_cons_self)
      rw [List.map_cons, List.intercalate_cons_cons]
      have text : first ++ [';', ' '] ++ [';', ' '].intercalate
            (second.toList :: more.map String.toList) =
          first ++ ';' :: [';', ' '].intercalate
            ((' ' :: second.toList) :: more.map String.toList) := by
        cases more <;> simp [List.intercalate_cons_cons]
      rw [text, List.splitOn_append_cons_self_of_not_mem plain, rest]
      rfl
  exact later kept.toList (plain kept List.mem_cons_self)

theorem sanitizeStyle_kept {value kept : String} (style : sanitizeStyle value = some kept) :
    sanitizeStyle kept = some kept := by
  unfold sanitizeStyle at style
  simp only at style
  generalize declarationsEq :
    ((value.toList.splitOn ';').filterMap styleDeclaration).take 32 = declarations at style
  cases declarations with
  | nil => cases style
  | cons first more =>
    simp only [List.isEmpty_cons, Bool.false_eq_true, if_false] at style
    have each : ∀ text ∈ first :: more, ';' ∉ text.toList ∧
        styleDeclaration text.toList = some text ∧
          styleDeclaration (' ' :: text.toList) = some text := by
      intro text mem
      rw [← declarationsEq] at mem
      obtain ⟨declaration, part, accepted⟩ := List.mem_filterMap.mp (List.mem_of_mem_take mem)
      exact styleDeclaration_kept (not_mem_of_mem_splitOn part) accepted
    have count : (first :: more).length ≤ 32 := by
      rw [← declarationsEq]
      exact List.length_take_le 32 _
    have again : (first.toList :: more.map fun text => ' ' :: text.toList).filterMap
        styleDeclaration =
        first :: more := by
      rw [List.filterMap_cons_some (each first List.mem_cons_self).2.1, List.filterMap_map]
      congr 1
      have all : ∀ text ∈ more, (styleDeclaration ∘ fun text : String => ' ' :: text.toList) text =
          some text := fun text mem => (each text (List.mem_cons_of_mem _ mem)).2.2
      rw [List.filterMap_congr all]
      exact List.filterMap_some
    rw [← Option.some.inj style, sanitizeStyle,
      splitOn_declarations fun text mem => (each text mem).1, again, List.take_of_length_le count]
    rfl

/-! ### URLs -/

def StartsWith (scheme value : String) : Prop :=
  ∃ start rest, value.toList = start ++ rest ∧ eqIgnoreAsciiCase (String.ofList start) scheme = true

theorem splitAtByte_eq {count : Nat} {text before after : List Char}
    (split : splitAtByte count text = some (before, after)) : text = before ++ after := by
  induction text generalizing count before with
  | nil =>
    cases count with
    | zero => cases split; rfl
    | succ count => cases split
  | cons c text ih =>
    cases count with
    | zero => cases split; rfl
    | succ count =>
      rw [splitAtByte] at split
      split at split
      · obtain ⟨⟨start, rest⟩, inner, eq⟩ := Option.map_eq_some_iff.mp split
        cases eq
        rw [ih inner]
        rfl
      · cases split

theorem startsWith_of_hasScheme {value scheme : String} (has : hasScheme value scheme = some true) :
    StartsWith scheme value := by
  unfold hasScheme at has
  split at has
  · obtain ⟨⟨start, rest⟩, split, same⟩ := Option.map_eq_some_iff.mp has
    exact ⟨start, rest, splitAtByte_eq split, same⟩
  · cases has

def IsHttpUrl (value : String) : Prop := StartsWith "http://" value ∨ StartsWith "https://" value

theorem isHttpUrl_sound (http : isHttpUrl value = some true) : IsHttpUrl value := by
  unfold isHttpUrl at http
  obtain ⟨plain, scheme, http⟩ := Option.bind_eq_some_iff.mp http
  cases plain with
  | true => exact .inl (startsWith_of_hasScheme scheme)
  | false => exact .inr (startsWith_of_hasScheme http)

@[simp] theorem trimUnsafe_trimUnsafe (value : String) :
    trimUnsafe (trimUnsafe value) = trimUnsafe value := by
  have empty : trimUnsafe "" = "" := by decide
  unfold trimUnsafe
  simp only
  by_cases control : (trim value).toList.any isControl = true
  · rw [if_pos control]
    exact empty
  · rw [if_neg control, trim_trim, if_neg control]

theorem classifyImageUrl_trim (value : String) (options : SanitizeOptions) :
    classifyImageUrl (trimUnsafe value) options = classifyImageUrl value options := by
  rw [classifyImageUrl, trimUnsafe_trimUnsafe, ← classifyImageUrl]

theorem safeLinkUrl_trim (value : String) : safeLinkUrl (trimUnsafe value) = safeLinkUrl value := by
  rw [safeLinkUrl, trimUnsafe_trimUnsafe, ← safeLinkUrl]

theorem safeLinkUrl_kept {value url : String} (link : safeLinkUrl value = some (some url)) :
    safeLinkUrl url = some (some url) ∧ (IsHttpUrl url ∨ StartsWith "mailto:" url) := by
  have again := safeLinkUrl_trim value
  have trimmed : trimUnsafe value = url ∧ (IsHttpUrl url ∨ StartsWith "mailto:" url) := by
    unfold safeLinkUrl at link
    simp only at link
    generalize trimUnsafe value = trimmed at link
    split at link
    · cases link
    · obtain ⟨http, isHttp, link⟩ := Option.bind_eq_some_iff.mp link
      split at link
      next yes =>
        obtain rfl := Option.some.inj (Option.some.inj link)
        exact ⟨rfl, .inl (isHttpUrl_sound (yes ▸ isHttp))⟩
      · obtain ⟨mail, isMail, link⟩ := Option.bind_eq_some_iff.mp link
        split at link
        next yes =>
          obtain rfl := Option.some.inj (Option.some.inj link)
          exact ⟨rfl, .inr (startsWith_of_hasScheme (yes ▸ isMail))⟩
        · cases link
  obtain ⟨rfl, safe⟩ := trimmed
  exact ⟨again.trans link, safe⟩

/-- An image that is kept is one of the message's own, or a remote one that is allowed. -/
theorem classifyImageUrl_kept {value url : String} {options : SanitizeOptions}
    (image : classifyImageUrl value options = some (.keep url)) :
    (∃ key, options.cidUrls key = some url) ∨
      (options.allowRemoteImages = true ∧ IsHttpUrl url ∧
        classifyImageUrl url options = some (.keep url)) := by
  have again := classifyImageUrl_trim value options
  have kept : (∃ key, options.cidUrls key = some url) ∨
      (options.allowRemoteImages = true ∧ IsHttpUrl url ∧ trimUnsafe value = url) := by
    unfold classifyImageUrl at image
    simp only at image
    generalize trimUnsafe value = trimmed at image
    split at image
    · cases image
    · obtain ⟨scheme, -, image⟩ := Option.bind_eq_some_iff.mp image
      cases scheme with
      | some cid =>
        left
        simp only at image
        split at image
        next found =>
          obtain rfl := ImageSource.keep.inj (Option.some.inj image)
          rcases Option.or_eq_some_iff.mp found with found | ⟨-, found⟩
          · exact ⟨_, found⟩
          · exact ⟨_, found⟩
        · cases image
      | none =>
        right
        obtain ⟨http, isHttp, image⟩ := Option.bind_eq_some_iff.mp image
        split at image
        next yes =>
          split at image
          next allowed =>
            obtain rfl := ImageSource.keep.inj (Option.some.inj image)
            exact ⟨allowed, isHttpUrl_sound (yes ▸ isHttp), rfl⟩
          · cases image
        · cases image
  rcases kept with own | ⟨allowed, http, rfl⟩
  · exact .inl own
  · exact .inr ⟨allowed, http, again.trans image⟩

/-! ### Attributes -/

theorem written_toList (name value : String) :
    (written name (escapeAttribute value)).toList = Html.attributeText (name, value) := by
  have escaped : (escapeAttribute value).toList = Html.escape value.toList := String.toList_ofList
  simp [written, Html.attributeText, escaped]

/-- What is written for an attribute, as its name and its value. -/
structure Kept (options : SanitizeOptions) (tag name : String) (pair : String × String) : Prop where
  name : pair.1 = name ∨ (tag = "img" ∧ name = "src" ∧ pair.1 = "data-blocked-src")
  link : pair.1 = "href" → IsHttpUrl pair.2 ∨ StartsWith "mailto:" pair.2
  image : tag = "img" → pair.1 = "src" →
    (∃ key, options.cidUrls key = some pair.2) ∨
      (options.allowRemoteImages = true ∧ IsHttpUrl pair.2)
  /-- When it is read again, the same is written. -/
  again : (∀ key, options.cidUrls key = none) → ∃ blocked,
    attributeText options tag pair.1 (escapeAttribute pair.2) =
      some (written pair.1 (escapeAttribute pair.2), blocked)

section

variable {options : SanitizeOptions} {tag name rawValue text : String} {blocked : Nat}

theorem Kept.plain (noLink : name ≠ "href") (noImage : name ≠ "src")
    (again : attributeText options tag name (escapeAttribute value) =
      some (written name (escapeAttribute value), 0)) :
    Kept options tag name (name, value) :=
  ⟨.inl rfl, fun h => absurd h noLink, fun _ h => absurd h noImage, fun _ => ⟨0, again⟩⟩

theorem keyword_trimmed (value : String) :
    trim (toAsciiLowercase (trim (toAsciiLowercase value))) = trim (toAsciiLowercase value) := by
  rw [trim_toAsciiLowercase, trim_trim, trim_toAsciiLowercase, toAsciiLowercase_toAsciiLowercase]

theorem writtenIf_kept {keep : Bool} (again : keep = true →
      plainAttributeText name value = (written name (escapeAttribute value), 0))
    (done : writtenIf keep name (escapeAttribute value) = (text, blocked)) :
    text = "" ∨ ∃ value, text = written name (escapeAttribute value) ∧
      plainAttributeText name value = (written name (escapeAttribute value), 0) := by
  cases keep with
  | true =>
    obtain ⟨rfl, -⟩ := Prod.mk.inj done
    exact .inr ⟨value, rfl, again rfl⟩
  | false =>
    obtain ⟨rfl, -⟩ := Prod.mk.inj done
    exact .inl rfl

theorem isPlain_toString (number : Nat) : isPlain (toString number).toList = true ∧
    trim (toString number) = toString number := by
  have digits :=
    fun c (mem : c ∈ (toString number).toList) => plain_of_digit (isDigit_of_mem_toString mem)
  refine ⟨?_, trim_visible fun c mem => (digits c mem).2.1⟩
  simpa [isPlain] using fun c mem => (digits c mem).1

theorem plainAttributeText_kept {decoded : String}
    (done : plainAttributeText name decoded = (text, blocked)) :
    text = "" ∨ ∃ value, text = written name (escapeAttribute value) ∧
      plainAttributeText name value = (written name (escapeAttribute value), 0) := by
  unfold plainAttributeText at done
  by_cases style : name = "style"
  · rw [if_pos style] at done
    subst style
    cases kept : sanitizeStyle decoded with
    | some value =>
      rw [kept] at done
      obtain ⟨rfl, -⟩ := Prod.mk.inj done
      refine .inr ⟨value, rfl, ?_⟩
      rw [plainAttributeText, if_pos rfl, sanitizeStyle_kept kept]
    | none =>
      rw [kept] at done
      obtain ⟨rfl, -⟩ := Prod.mk.inj done
      exact .inl rfl
  rw [if_neg style] at done
  by_cases dimension : name = "width" ∨ name = "height"
  · rw [if_pos dimension] at done
    cases kept : sanitizeDimension decoded with
    | some value =>
      rw [kept] at done
      obtain ⟨rfl, -⟩ := Prod.mk.inj done
      obtain ⟨again, plain⟩ := sanitizeDimension_kept kept
      refine .inr ⟨value, by rw [escapeAttribute_plain plain], ?_⟩
      rw [plainAttributeText, if_neg style, if_pos dimension, again, escapeAttribute_plain plain]
    | none =>
      rw [kept] at done
      obtain ⟨rfl, -⟩ := Prod.mk.inj done
      exact .inl rfl
  rw [if_neg dimension] at done
  by_cases span : name = "colspan" ∨ name = "rowspan"
  · rw [if_pos span] at done
    cases parsed : parseUnsigned u32Max (trim decoded) with
    | some number =>
      rw [parsed] at done
      obtain ⟨plain, trimmed⟩ := isPlain_toString number
      have read := parseUnsigned_toString (parseUnsigned_le parsed)
      dsimp only at done
      rw [← escapeAttribute_plain plain] at done
      refine writtenIf_kept (fun inRange => ?_) done
      rw [plainAttributeText, if_neg style, if_neg dimension, if_pos span, trimmed, read]
      simp only [inRange, writtenIf, if_true, escapeAttribute_plain plain]
    | none =>
      rw [parsed] at done
      obtain ⟨rfl, -⟩ := Prod.mk.inj done
      exact .inl rfl
  rw [if_neg span] at done
  by_cases align : name = "align"
  · rw [if_pos align] at done
    refine writtenIf_kept (fun known => ?_) done
    rw [plainAttributeText, if_neg style, if_neg dimension, if_neg span, if_pos align,
      keyword_trimmed]
    simp only [known, writtenIf, if_true]
  rw [if_neg align] at done
  by_cases valign : name = "valign"
  · rw [if_pos valign] at done
    refine writtenIf_kept (fun known => ?_) done
    rw [plainAttributeText, if_neg style, if_neg dimension, if_neg span, if_neg align, if_pos valign,
      keyword_trimmed]
    simp only [known, writtenIf, if_true]
  rw [if_neg valign] at done
  by_cases dir : name = "dir"
  · rw [if_pos dir, ← dir] at done
    refine writtenIf_kept (fun known => ?_) done
    rw [plainAttributeText, if_neg style, if_neg dimension, if_neg span, if_neg align, if_neg valign,
      if_pos dir, keyword_trimmed]
    simp only [known, writtenIf, if_true, dir]
  rw [if_neg dir] at done
  by_cases lang : name = "lang"
  · rw [if_pos lang, ← lang] at done
    refine writtenIf_kept (fun known => ?_) done
    rw [plainAttributeText, if_neg style, if_neg dimension, if_neg span, if_neg align, if_neg valign,
      if_neg dir, if_pos lang, trim_trim]
    simp only [known, writtenIf, if_true, lang]
  rw [if_neg lang] at done
  by_cases title : name = "alt" ∨ name = "title"
  · rw [if_pos title] at done
    refine writtenIf_kept (fun some_ => ?_) done
    have visible : ∀ c ∈ (decoded.toList.filter fun c => !isControl c).take maxAttributeValueChars,
        (!isControl c) = true := fun c mem => (List.mem_filter.mp (List.mem_of_mem_take mem)).2
    rw [plainAttributeText, if_neg style, if_neg dimension, if_neg span, if_neg align, if_neg valign,
      if_neg dir, if_neg lang, if_pos title, String.toList_ofList, List.filter_eq_self.mpr visible,
      List.take_of_length_le (List.length_take_le _ _)]
    simp only [some_, writtenIf, if_true]
  rw [if_neg title] at done
  obtain ⟨rfl, -⟩ := Prod.mk.inj done
  exact .inl rfl

theorem attributeText_blocked : attributeText options "img" "data-blocked-src" rawValue =
    some (written "data-blocked-src" (escapeAttribute (decodeEntitiesLimited rawValue)), 0) := by
  rw [attributeText, if_neg (by decide), if_pos ⟨rfl, rfl⟩]

theorem names_differ : "src" ≠ "href" ∧ "data-blocked-src" ≠ "href" ∧ "data-blocked-src" ≠ "src" ∧
    "a" ≠ "img" := by
  decide

theorem attributeText_kept (done : attributeText options tag name rawValue = some (text, blocked)) :
    text = "" ∨ ∃ pair, text = written pair.1 (escapeAttribute pair.2) ∧
      Kept options tag name pair := by
  obtain ⟨imageNoLink, blockedNoLink, blockedNoImage, linkNoImage⟩ := names_differ
  by_cases image : tag = "img" ∧ name = "src"
  · obtain ⟨rfl, rfl⟩ := image
    rw [attributeText, if_pos ⟨rfl, rfl⟩] at done
    obtain ⟨source, classified, eq⟩ := Option.map_eq_some_iff.mp done
    cases source with
    | keep url =>
      obtain ⟨rfl, -⟩ := Prod.mk.inj eq
      have kept := classifyImageUrl_kept classified
      refine .inr ⟨("src", url), rfl, ?_⟩
      constructor
      case name => exact .inl rfl
      case link => exact fun link => absurd link imageNoLink
      case image => exact fun _ _ => kept.imp_right fun remote => ⟨remote.1, remote.2.1⟩
      case again =>
        intro noCid
        rcases kept with ⟨key, own⟩ | ⟨-, -, again⟩
        · rw [noCid key] at own
          cases own
        · refine ⟨0, ?_⟩
          rw [attributeText, decodeEntitiesLimited_escape, if_pos ⟨rfl, rfl⟩, again]
          rfl
    | blocked url =>
      obtain ⟨rfl, -⟩ := Prod.mk.inj eq
      refine .inr ⟨("data-blocked-src", url), rfl, ?_⟩
      constructor
      case name => exact .inr ⟨rfl, rfl, rfl⟩
      case link => exact fun link => absurd link blockedNoLink
      case image => exact fun _ link => absurd link blockedNoImage
      case again =>
        intro _
        exact ⟨0, by rw [attributeText_blocked, decodeEntitiesLimited_escape]⟩
    | drop =>
      obtain ⟨rfl, -⟩ := Prod.mk.inj eq
      exact .inl rfl
  by_cases blockedImage : tag = "img" ∧ name = "data-blocked-src"
  · obtain ⟨rfl, rfl⟩ := blockedImage
    rw [attributeText_blocked] at done
    obtain ⟨rfl, -⟩ := Prod.mk.inj (Option.some.inj done)
    refine .inr ⟨("data-blocked-src", _), rfl, .plain blockedNoLink blockedNoImage ?_⟩
    rw [attributeText_blocked, decodeEntitiesLimited_escape]
  by_cases link : tag = "a" ∧ name = "href"
  · obtain ⟨rfl, rfl⟩ := link
    rw [attributeText, if_neg image, if_neg blockedImage, if_pos ⟨rfl, rfl⟩] at done
    obtain ⟨url, safe, eq⟩ := Option.map_eq_some_iff.mp done
    cases url with
    | some url =>
      obtain ⟨rfl, -⟩ := Prod.mk.inj eq
      obtain ⟨again, scheme⟩ := safeLinkUrl_kept safe
      refine .inr ⟨("href", url), rfl, ?_⟩
      constructor
      case name => exact .inl rfl
      case link => exact fun _ => scheme
      case image => exact fun image => absurd image linkNoImage
      case again =>
        intro _
        refine ⟨0, ?_⟩
        rw [attributeText, decodeEntitiesLimited_escape, if_neg image, if_neg blockedImage,
          if_pos ⟨rfl, rfl⟩, again]
        rfl
    | none =>
      obtain ⟨rfl, -⟩ := Prod.mk.inj eq
      exact .inl rfl
  rw [attributeText, if_neg image, if_neg blockedImage, if_neg link] at done
  by_cases url : name = "href" ∨ name = "src"
  · rw [if_pos url] at done
    obtain ⟨rfl, -⟩ := Prod.mk.inj (Option.some.inj done)
    exact .inl rfl
  rw [if_neg url] at done
  obtain ⟨noLink, noImage⟩ := not_or.mp url
  rcases plainAttributeText_kept (Option.some.inj done) with nothing | ⟨value, text, again⟩
  · exact .inl nothing
  · refine .inr ⟨(name, value), text, .plain noLink noImage ?_⟩
    rw [attributeText, decodeEntitiesLimited_escape, if_neg image, if_neg blockedImage, if_neg link,
      if_neg url, again]

end

end MailStack.Webmail.Sanitize
