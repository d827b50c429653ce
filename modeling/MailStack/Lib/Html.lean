import MailStack.Lib.Text

/-! HTML as texts and tags with double-quoted attributes: a reader that refuses all other markup,
and the text of a sequence of tags, which it reads back. -/

namespace MailStack.Lib.Html

inductive Tag
  | start (name : String) (attributes : List (String × String))
  | stop (name : String)

inductive Token
  | text (text : List Char)
  | tag (tag : Tag)

def isSpace (c : Char) : Bool := c = ' ' || c = '\t' || c = '\n' || c = '\x0C' || c = '\r'

def isNameChar (c : Char) : Bool := !(isSpace c || c = '/' || c = '>')

def isAttributeNameChar (c : Char) : Bool :=
  isNameChar c && !(c = '=' || c = '"' || c = '\'' || c = '<')

/-- The value that a text stands for. It has no references but those that special characters
need. -/
@[grind =] def decode : List Char → Option (List Char)
  | [] => some []
  | '&' :: 'a' :: 'm' :: 'p' :: ';' :: rest => (decode rest).map ('&' :: ·)
  | '&' :: 'q' :: 'u' :: 'o' :: 't' :: ';' :: rest => (decode rest).map ('"' :: ·)
  | '&' :: '#' :: '3' :: '9' :: ';' :: rest => (decode rest).map ('\'' :: ·)
  | '&' :: 'l' :: 't' :: ';' :: rest => (decode rest).map ('<' :: ·)
  | '&' :: 'g' :: 't' :: ';' :: rest => (decode rest).map ('>' :: ·)
  | c :: rest => if c = '&' then none else (decode rest).map (c :: ·)

def readAttribute (text : List Char) : Option ((String × String) × List Char) :=
  let name := text.takeWhile isAttributeNameChar
  if name.isEmpty then none
  else
    match text.dropWhile isAttributeNameChar with
    | '=' :: '"' :: more =>
      (splitOnceChars '"' more).bind fun (raw, after) =>
        (decode raw).map fun value =>
          ((toAsciiLowercase (String.ofList name), String.ofList value), after)
    | _ => none

/-- The attributes up to the end of the tag, and what follows it. So many of them are read. -/
@[grind =] def readAttributes : Nat → List Char → Option (List (String × String) × List Char)
  | 0, rest =>
    match rest.dropWhile isSpace with
    | '>' :: after => some ([], after)
    | _ => none
  | fuel + 1, rest =>
    match rest.dropWhile isSpace with
    | '>' :: after => some ([], after)
    | text =>
      (readAttribute text).bind fun (pair, after) =>
        (readAttributes fuel after).map fun (pairs, after) => (pair :: pairs, after)

/-- The tag that a text begins with, and what follows it. A comment or a declaration is none. -/
def readTag : List Char → Option (Tag × List Char)
  | '<' :: '/' :: rest =>
    if rest.head?.any Char.isAlpha then
      match rest.dropWhile isNameChar with
      | '>' :: after =>
        some (.stop (toAsciiLowercase (String.ofList (rest.takeWhile isNameChar))), after)
      | _ => none
    else none
  | '<' :: rest =>
    if rest.head?.any Char.isAlpha then
      (readAttributes rest.length (rest.dropWhile isNameChar)).map fun (attributes, after) =>
        (.start (toAsciiLowercase (String.ofList (rest.takeWhile isNameChar))) attributes, after)
    else none
  | _ => none

/-- A text, unless there is none. -/
def textToken (text : List Char) : List Token := if text.isEmpty then [] else [.text text]

/-- The texts and tags of a text. So many tags are read. -/
@[grind =] def readFrom : Nat → List Char → Option (List Token)
  | 0, rest => if rest.contains '<' then none else some (textToken rest)
  | fuel + 1, rest =>
    if rest.contains '<' then
      (readTag (rest.dropWhile (· ≠ '<'))).bind fun (tag, after) =>
        (readFrom fuel after).map fun tokens =>
          textToken (rest.takeWhile (· ≠ '<')) ++ .tag tag :: tokens
    else some (textToken rest)

def read (html : List Char) : Option (List Token) := readFrom html.length html

def escapeChar (c : Char) : List Char :=
  if c = '&' then "&amp;".toList
  else if c = '"' then "&quot;".toList
  else if c = '\'' then "&#39;".toList
  else if c = '<' then "&lt;".toList
  else if c = '>' then "&gt;".toList
  else [c]

def escape (value : List Char) : List Char := value.flatMap escapeChar

def attributeText (pair : String × String) : List Char :=
  ' ' :: pair.1.toList ++ '=' :: '"' :: escape pair.2.toList ++ ['"']

def Tag.render : Tag → List Char
  | start name attributes => '<' :: name.toList ++ attributes.flatMap attributeText ++ ['>']
  | stop name => '<' :: '/' :: name.toList ++ ['>']

/-- Tags, each with the text before it, and the text after the last one. -/
structure Markup where
  segments : List (List Char × Tag)
  last : List Char

namespace Markup

def render (m : Markup) : List Char :=
  m.segments.flatMap (fun segment => segment.1 ++ segment.2.render) ++ m.last

def tags (m : Markup) : List Tag := m.segments.map (·.2)

def tokens (m : Markup) : List Token :=
  m.segments.flatMap (fun segment => textToken segment.1 ++ [.tag segment.2]) ++ textToken m.last

def empty : Markup := { segments := [], last := [] }

def addText (m : Markup) (text : List Char) : Markup := { m with last := m.last ++ text }

def addTag (m : Markup) (tag : Tag) : Markup :=
  { segments := m.segments ++ [(m.last, tag)], last := [] }

@[simp] theorem render_addText (m : Markup) (text : List Char) :
    (m.addText text).render = m.render ++ text := by
  simp [addText, render]

@[simp] theorem tags_addText (m : Markup) (text : List Char) : (m.addText text).tags = m.tags := rfl

@[simp] theorem render_addTag (m : Markup) (tag : Tag) :
    (m.addTag tag).render = m.render ++ tag.render := by
  simp [addTag, render]

@[simp] theorem tags_addTag (m : Markup) (tag : Tag) : (m.addTag tag).tags = m.tags ++ [tag] := by
  simp [addTag, tags]

theorem mem_tokens {m : Markup} {tag : Tag} : .tag tag ∈ m.tokens ↔ tag ∈ m.tags := by
  have noTag (text : List Char) : .tag tag ∉ textToken text := by
    unfold textToken
    split <;> simp
  simp [tokens, tags, noTag, eq_comm]

end Markup

/-- A name that is written as it is read. -/
def isName (name : String) : Bool :=
  name.toList.head?.any Char.isAlpha && name.toList.all fun c =>
    isAttributeNameChar c && !c.isUpper

/-- The names are in order. -/
def Tag.named : Tag → Bool
  | start name attributes => isName name && attributes.all fun pair => isName pair.1
  | stop name => isName name

/-- No text has a tag in it. -/
structure Markup.Clean (m : Markup) : Prop where
  segments : ∀ segment ∈ m.segments, '<' ∉ segment.1 ∧ segment.2.named = true
  last : '<' ∉ m.last

theorem escapeChar_cases (c : Char) :
    (c ≠ '&' ∧ c ≠ '"' ∧ c ≠ '<' ∧ c ≠ '>' ∧ escapeChar c = [c]) ∨
      (c = '&' ∧ escapeChar c = "&amp;".toList) ∨ (c = '"' ∧ escapeChar c = "&quot;".toList) ∨
      (c = '\'' ∧ escapeChar c = "&#39;".toList) ∨ (c = '<' ∧ escapeChar c = "&lt;".toList) ∨
      (c = '>' ∧ escapeChar c = "&gt;".toList) := by
  unfold escapeChar
  split_ifs <;> simp_all

theorem decode_escape (value : List Char) : decode (escape value) = some value := by
  induction value with
  | nil => rfl
  | cons c value ih =>
    rw [escape, List.flatMap_cons, ← escape]
    rcases escapeChar_cases c with ⟨ampersand, -, -, -, eq⟩ | ⟨rfl, eq⟩ | ⟨rfl, eq⟩ | ⟨rfl, eq⟩ |
      ⟨rfl, eq⟩ | ⟨rfl, eq⟩
    · rw [eq, List.singleton_append, decode.eq_def]
      split
      all_goals simp_all
    all_goals
      rw [eq]
      show Option.map _ (decode (escape value)) = _
      rw [ih]
      rfl

/-- A written value has no quote, and no tag begins or ends in it. -/
theorem not_mem_escape {value : List Char} {c : Char} (special : c = '"' ∨ c = '<' ∨ c = '>') :
    c ∉ escape value := by
  intro mem
  obtain ⟨d, -, mem⟩ := List.mem_flatMap.mp mem
  rcases escapeChar_cases d with ⟨-, quote, opens, closes, eq⟩ | ⟨rfl, eq⟩ | ⟨rfl, eq⟩ | ⟨rfl, eq⟩ |
    ⟨rfl, eq⟩ | ⟨rfl, eq⟩
  · rw [eq, List.mem_singleton] at mem
    subst mem
    rcases special with h | h | h
    · exact quote h
    · exact opens h
    · exact closes h
  all_goals
    rw [eq] at mem
    rcases special with rfl | rfl | rfl <;> exact absurd mem (by decide)

section Names

variable {name : String}

theorem isName_chars (named : isName name = true) :
    ∀ c ∈ name.toList, isAttributeNameChar c = true ∧ c.isUpper = false := by
  have all := (Bool.and_eq_true_iff.mp named).2
  intro c mem
  simpa using List.all_eq_true.mp all c mem

theorem isName_ne_nil (named : isName name = true) : name.toList ≠ [] := by
  rintro nil
  simp [isName, nil] at named

theorem isName_lower (named : isName name = true) : toAsciiLowercase name = name := by
  apply String.toList_inj.mp
  rw [toList_toAsciiLowercase]
  exact (List.map_congr_left fun c mem => toLower_eq_self (isName_chars named c mem).2).trans
    (List.map_id _)

theorem isNameChar_of_attribute {c : Char} (h : isAttributeNameChar c = true) :
    isNameChar c = true :=
  (Bool.and_eq_true_iff.mp h).1

theorem takeWhile_append_stop {p : Char → Bool} {before after : List Char}
    (all : ∀ c ∈ before, p c = true) (stop : ∀ c ∈ after.head?, p c = false) :
    (before ++ after).takeWhile p = before ∧ (before ++ after).dropWhile p = after := by
  have stopped : after.takeWhile p = [] ∧ after.dropWhile p = after := by
    cases after with
    | nil => exact ⟨rfl, rfl⟩
    | cons c after =>
      have no := stop c rfl
      simp [no]
  rw [List.takeWhile_append_of_pos all, List.dropWhile_append_of_pos all, stopped.1, stopped.2]
  exact ⟨List.append_nil _, rfl⟩

end Names

theorem readAttribute_render {name value : String} (named : isName name = true) (rest : List Char) :
    readAttribute (name.toList ++ '=' :: '"' :: escape value.toList ++ '"' :: rest) =
      some ((name, value), rest) := by
  obtain ⟨taken, dropped⟩ := takeWhile_append_stop (fun c mem => (isName_chars named c mem).1)
    (show ∀ c ∈ ('=' :: '"' :: (escape value.toList ++ '"' :: rest)).head?,
      isAttributeNameChar c = false by
        intro c mem
        obtain rfl := Option.some.inj mem
        decide)
  have quoted := splitOnceChars_append (@not_mem_escape value.toList _ (.inl rfl)) rest
  have some_ : name.toList.isEmpty = false := by simpa using isName_ne_nil named
  rw [List.append_assoc, List.cons_append, List.cons_append]
  simp only [readAttribute, taken, dropped, some_, quoted, decode_escape, Option.bind_some,
    Option.map_some, isName_lower named, String.ofList_toList, Bool.false_eq_true, if_false]

theorem isName_first {name : String} (named : isName name = true) :
    ∃ c more, name.toList = c :: more ∧ c.isAlpha = true ∧ isSpace c = false ∧ c ≠ '>' ∧
      c ≠ '/' := by
  obtain ⟨c, more, first⟩ := List.exists_cons_of_ne_nil (isName_ne_nil named)
  have alpha : c.isAlpha = true := by
    have start := (Bool.and_eq_true_iff.mp named).1
    simpa [first] using start
  have char := (isName_chars named c (by simp [first])).1
  simp only [isAttributeNameChar, isNameChar, Bool.and_eq_true, Bool.not_eq_true', Bool.or_eq_false_iff,
    decide_eq_false_iff_not] at char
  exact ⟨c, more, first, alpha, char.1.1.1, char.1.2, char.1.1.2⟩

theorem readAttributes_render {attributes : List (String × String)} (rest : List Char)
    (named : ∀ pair ∈ attributes, isName pair.1 = true) {fuel : Nat}
    (enough : attributes.length ≤ fuel) :
    readAttributes fuel (attributes.flatMap attributeText ++ '>' :: rest) =
      some (attributes, rest) := by
  induction attributes generalizing fuel with
  | nil => cases fuel <;> rfl
  | cons pair attributes ih =>
    obtain ⟨name, value⟩ := pair
    have nameNamed : isName name = true := named _ List.mem_cons_self
    obtain ⟨c, more, first, -, noSpace, open_, -⟩ := isName_first nameNamed
    cases fuel with
    | zero => simp at enough
    | succ fuel =>
      have later := ih (fun a mem => named a (List.mem_cons_of_mem _ mem))
        (Nat.le_of_succ_le_succ enough)
      have text : ((name, value) :: attributes).flatMap attributeText ++ '>' :: rest =
          ' ' :: (name.toList ++ '=' :: '"' :: escape value.toList ++
            '"' :: (attributes.flatMap attributeText ++ '>' :: rest)) := by
        simp [attributeText]
      have read := @readAttribute_render _ value nameNamed
        (attributes.flatMap attributeText ++ '>' :: rest)
      rw [text, readAttributes, List.dropWhile_cons_of_pos (by decide)]
      rw [first, List.cons_append, List.cons_append] at read ⊢
      rw [List.dropWhile_cons_of_neg (by simp [noSpace])]
      split
      next closes => exact absurd (List.cons.inj closes).1 open_
      next =>
        rw [read]
        simp [later]

theorem readName {name : String} (named : isName name = true) {c : Char} (rest : List Char)
    (stop : isNameChar c = false) :
    (name.toList ++ c :: rest).takeWhile isNameChar = name.toList ∧
      (name.toList ++ c :: rest).dropWhile isNameChar = c :: rest := by
  refine takeWhile_append_stop (fun d mem => ?_) fun d mem => ?_
  · exact isNameChar_of_attribute (isName_chars named d mem).1
  · obtain rfl := Option.some.inj mem
    exact stop

theorem length_le_flatMap (attributes : List (String × String)) :
    attributes.length ≤ (attributes.flatMap attributeText).length := by
  induction attributes with
  | nil => exact Nat.le_refl 0
  | cons pair attributes ih =>
    have one : 1 ≤ (attributeText pair).length := by simp [attributeText]
    rw [List.flatMap_cons, List.length_append, List.length_cons]
    omega

/-- A tag is read as it was written. -/
theorem readTag_render {tag : Tag} (named : tag.named = true) (rest : List Char) :
    readTag (tag.render ++ rest) = some (tag, rest) := by
  cases tag with
  | start name attributes =>
    obtain ⟨nameNamed, attributesNamed⟩ := Bool.and_eq_true_iff.mp named
    obtain ⟨c, more, first, alpha, -, -, slash⟩ := isName_first nameNamed
    have attributesNamed : ∀ pair ∈ attributes, isName pair.1 = true :=
      fun pair mem => List.all_eq_true.mp attributesNamed pair mem
    have enough : attributes.length ≤ (name.toList ++
        (attributes.flatMap attributeText ++ '>' :: rest)).length := by
      have short := length_le_flatMap attributes
      simp only [List.length_append]
      omega
    have stop : ∃ d left, attributes.flatMap attributeText ++ '>' :: rest = d :: left ∧
        isNameChar d = false := by
      cases attributes with
      | nil => exact ⟨_, _, rfl, by decide⟩
      | cons pair attributes => exact ⟨' ', _, by simp [attributeText]; rfl, by decide⟩
    obtain ⟨d, left, inside, stops⟩ := stop
    have read := readAttributes_render rest attributesNamed enough
    have text : (Tag.start name attributes).render ++ rest = '<' :: (name.toList ++ d :: left) := by
      rw [← inside]
      simp [Tag.render]
    rw [inside] at read
    obtain ⟨taken, dropped⟩ := readName nameNamed left stops
    have noStop : ∀ after, name.toList ++ d :: left ≠ '/' :: after := by
      intro after eq
      rw [first] at eq
      exact slash (List.cons.inj eq).1
    rw [text, readTag, if_pos (by simp [first, alpha]), taken, dropped, read, String.ofList_toList,
      isName_lower nameNamed]
    · rfl
    · exact fun after eq => noStop after eq
  | stop name =>
    have nameNamed : isName name = true := named
    obtain ⟨c, more, first, alpha, -, -, -⟩ := isName_first nameNamed
    obtain ⟨taken, dropped⟩ := readName nameNamed rest (by decide : isNameChar '>' = false)
    have text : (Tag.stop name).render ++ rest = '<' :: '/' :: (name.toList ++ '>' :: rest) := by
      simp [Tag.render]
    rw [text, readTag, taken, dropped, if_pos (by simp [first, alpha])]
    simp [isName_lower nameNamed]

theorem tag_head (tag : Tag) : ∃ rest, tag.render = '<' :: rest := by
  cases tag with
  | start name attributes => exact ⟨_, rfl⟩
  | stop name => exact ⟨_, rfl⟩

/-- A text of tags is read as these tags and the texts between them. -/
theorem readFrom_render {segments : List (List Char × Tag)} {last : List Char} {fuel : Nat}
    (clean : Markup.Clean ⟨segments, last⟩) (enough : segments.length ≤ fuel) :
    readFrom fuel (Markup.render ⟨segments, last⟩) = some (Markup.tokens ⟨segments, last⟩) := by
  induction segments generalizing fuel with
  | nil =>
    cases fuel with
    | zero => simp [readFrom, Markup.render, Markup.tokens, clean.last]
    | succ fuel => simp [readFrom, Markup.render, Markup.tokens, clean.last]
  | cons segment segments ih =>
    obtain ⟨before, tag⟩ := segment
    cases fuel with
    | zero => simp at enough
    | succ fuel =>
      obtain ⟨plain, named⟩ := clean.segments _ List.mem_cons_self
      have later := ih ⟨fun s mem => clean.segments s (List.mem_cons_of_mem _ mem), clean.last⟩
        (Nat.le_of_succ_le_succ enough)
      generalize leftEq : Markup.render ⟨segments, last⟩ = left at later
      have text : Markup.render ⟨(before, tag) :: segments, last⟩ =
          before ++ (tag.render ++ left) := by
        rw [← leftEq]
        simp [Markup.render]
      obtain ⟨rest, opens⟩ := tag_head tag
      obtain ⟨taken, dropped⟩ := takeWhile_append_stop (p := fun c => c ≠ '<')
        (fun c mem => by simpa using fun eq : c = '<' => plain (eq ▸ mem))
        (show ∀ c ∈ (tag.render ++ left).head?, decide (c ≠ '<') = false by
          intro c mem
          rw [opens] at mem
          obtain rfl := Option.some.inj mem
          decide)
      have tagged : (before ++ (tag.render ++ left)).contains '<' = true := by simp [opens]
      rw [text, readFrom, if_pos tagged, taken, dropped, readTag_render named, Option.bind_some]
      simp [later, Markup.tokens]

theorem read_render {m : Markup} (clean : m.Clean) : read m.render = some m.tokens := by
  refine readFrom_render clean ?_
  obtain ⟨segments, last⟩ := m
  clear clean
  induction segments with
  | nil => exact Nat.zero_le _
  | cons segment segments ih =>
    obtain ⟨rest, opens⟩ := tag_head segment.2
    simp only [Markup.render, List.flatMap_cons, List.length_append, List.length_cons, opens] at ih ⊢
    omega

section Nesting

variable {isVoid : String → Bool} {opened opened' : List String} {tags tags' : List Tag}

/-- The elements that are open after the tags, with the innermost one first. An end tag closes the
innermost one, and an element that is void is not closed. -/
@[grind =] def nest (isVoid : String → Bool) : List String → List Tag → Option (List String)
  | opened, [] => some opened
  | opened, .start name _ :: rest => nest isVoid (if isVoid name then opened else name :: opened) rest
  | [], .stop _ :: _ => none
  | innermost :: opened, .stop name :: rest =>
    if name = innermost then nest isVoid opened rest else none

/-- All elements are closed, each within the one that it is in. -/
def Balanced (isVoid : String → Bool) (tags : List Tag) : Prop := nest isVoid [] tags = some []

instance (isVoid : String → Bool) (tags : List Tag) : Decidable (Balanced isVoid tags) :=
  inferInstanceAs (Decidable (nest isVoid [] tags = some []))

theorem nest_append : nest isVoid opened (tags ++ tags') =
    (nest isVoid opened tags).bind (nest isVoid · tags') := by
  induction tags generalizing opened with
  | nil => rfl
  | cons tag tags ih =>
    cases tag with
    | start name attributes => exact ih
    | stop name =>
      cases opened with
      | nil => rfl
      | cons innermost opened =>
        rw [List.cons_append, nest, nest]
        split
        · exact ih
        · rfl

theorem nest_stops (names opened : List String) :
    nest isVoid (names ++ opened) (names.map Tag.stop) = some opened := by
  induction names with
  | nil => rfl
  | cons name names ih =>
    rw [List.cons_append, List.map_cons, nest, if_pos rfl]
    exact ih

end Nesting

end MailStack.Lib.Html
