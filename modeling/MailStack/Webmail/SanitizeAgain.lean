import MailStack.Webmail.SanitizeMarkup

/-! What the sanitizer finds when it reads its own output: the tags that it has written, with their
attributes escaped as they stand there, and the texts between them. -/

namespace MailStack.Webmail.Sanitize

open Lib

def escapedPair (pair : String × String) : String × String := (pair.1, escapeAttribute pair.2)

/-- What is read of a tag that is written. -/
def again : Html.Tag → Tag
  | .start name attributes =>
    { isEnd := false
      name
      attributes := attributes.map escapedPair
      selfClosing := false }
  | .stop name =>
    { isEnd := true
      name
      attributes := []
      selfClosing := false }

variable {c : Char} {name : String}

theorem isAttributeNameChar_of_html (h : Html.isAttributeNameChar c = true) :
    isAttributeNameChar c = true ∧ isAsciiWhitespace c = false ∧ c ≠ '>' ∧ c ≠ '/' ∧ c ≠ '=' := by
  simp only [Html.isAttributeNameChar, Html.isNameChar, Html.isSpace, Bool.and_eq_true,
    Bool.not_eq_true', Bool.or_eq_false_iff, decide_eq_false_iff_not] at h
  obtain ⟨⟨⟨space, slash⟩, closes⟩, ⟨⟨equals, -⟩, -⟩, -⟩ := h
  have noSpace : isAsciiWhitespace c = false := by simp [isAsciiWhitespace, space]
  refine ⟨?_, noSpace, closes, slash, equals⟩
  simp [isAttributeNameChar, noSpace, closes, slash, equals]

theorem isName_head (named : Html.isName name = true) :
    ∃ c more, name.toList = c :: more ∧ Html.isAttributeNameChar c = true := by
  obtain ⟨c, more, eq⟩ := List.exists_cons_of_ne_nil (Html.isName_ne_nil named)
  exact ⟨c, more, eq, (Html.isName_chars named c (by simp [eq])).1⟩

theorem skipWhitespace_cons (visible : isAsciiWhitespace c = false) (rest : List Char) :
    skipWhitespace (c :: rest) = c :: rest :=
  List.dropWhile_cons_of_neg (by simp [visible])

theorem attributeStep_render {name value : String} (named : Html.isName name = true)
    (attributes : List (String × String)) (rest : List Char) :
    attributeStep false (attributes, Html.attributeText (name, value) ++ rest) =
      .inl (pushAttribute attributes name (escapeAttribute value), rest) := by
  obtain ⟨c, more, first, char⟩ := isName_head named
  obtain ⟨nameChar, visible, closes, slash, -⟩ := isAttributeNameChar_of_html char
  obtain ⟨taken, dropped⟩ := Html.takeWhile_append_stop (p := isAttributeNameChar)
    (fun d mem => (isAttributeNameChar_of_html (Html.isName_chars named d mem).1).1)
    (show ∀ d ∈ ('=' :: '"' :: (Html.escape value.toList ++ '"' :: rest)).head?,
      isAttributeNameChar d = false by
        intro d mem
        obtain rfl := Option.some.inj mem
        decide)
  have quoted : attributeValue ('"' :: (Html.escape value.toList ++ '"' :: rest)) =
      some (escapeAttribute value, rest) := by
    rw [attributeValue, if_pos (.inl rfl),
      splitOnceChars_append (@Html.not_mem_escape value.toList _ (.inl rfl)) rest]
    rfl
  have skipped : skipWhitespace (Html.attributeText (name, value) ++ rest) =
      name.toList ++ '=' :: '"' :: (Html.escape value.toList ++ '"' :: rest) := by
    have text : Html.attributeText (name, value) ++ rest =
        ' ' :: (name.toList ++ '=' :: '"' :: (Html.escape value.toList ++ '"' :: rest)) := by
      simp [Html.attributeText]
    rw [text, skipWhitespace, List.dropWhile_cons_of_pos (by decide)]
    rw [first, List.cons_append]
    exact skipWhitespace_cons visible _
  unfold attributeStep
  simp only [skipped]
  rw [first, List.cons_append] at taken dropped ⊢
  simp only [closes, slash, nameChar, taken, dropped, if_false, false_and, Bool.not_true,
    Bool.false_eq_true, skipWhitespace_cons (by decide : isAsciiWhitespace '=' = false),
    skipWhitespace_cons (by decide : isAsciiWhitespace '"' = false), quoted]
  rw [← first, String.ofList_toList, Html.isName_lower named]

theorem attributesFrom_render {attributes : List (String × String)} (rest : List Char)
    (named : ∀ pair ∈ attributes, Html.isName pair.1 = true) {before : List (String × String)}
    (few : before.length + attributes.length ≤ maxAttributesPerTag) :
    attributesFrom false (before, attributes.flatMap Html.attributeText ++ '>' :: rest) =
      some (before ++ attributes.map escapedPair, false, rest) := by
  induction attributes generalizing before with
  | nil =>
    rw [attributesFrom_eq, attributeStep]
    simp [skipWhitespace_cons (by decide : isAsciiWhitespace '>' = false)]
  | cons pair attributes ih =>
    obtain ⟨name, value⟩ := pair
    rw [List.length_cons] at few
    have room : before.length < maxAttributesPerTag := by omega
    have step := @attributeStep_render name value (named _ List.mem_cons_self) before
      (attributes.flatMap Html.attributeText ++ '>' :: rest)
    rw [List.flatMap_cons, List.append_assoc, attributesFrom_eq, step, pushAttribute, if_pos room]
    have more : (before ++ [(name, escapeAttribute value)]).length + attributes.length ≤
        maxAttributesPerTag := by
      rw [List.length_append, List.length_singleton]
      omega
    have later := ih (fun p mem => named p (List.mem_cons_of_mem _ mem)) more
    rw [List.append_assoc] at later
    exact later

theorem allowedTags_chars : ∀ name ∈ allowedTags,
    name.toList ≠ [] ∧ ∀ c ∈ name.toList, isNameChar c = true ∧ c ≠ '/' ∧ c ≠ '!' ∧ c ≠ '?' := by
  decide

theorem takeName (known : name ∈ allowedTags) (rest : List Char)
    (stop : isNameChar c = false) :
    (name.toList ++ c :: rest).takeWhile isNameChar = name.toList ∧
      (name.toList ++ c :: rest).dropWhile isNameChar = c :: rest := by
  refine Html.takeWhile_append_stop (fun d mem => ?_) fun d mem => ?_
  · exact ((allowedTags_chars name known).2 d mem).1
  · obtain rfl := Option.some.inj mem
    exact stop

/-- A tag that is written is read with its attributes as they stand there. -/
structure Readable (tag : Html.Tag) : Prop where
  known : match tag with
    | .start name _ => name ∈ allowedTags
    | .stop name => name ∈ allowedTags
  named : tag.named = true
  few : match tag with
    | .start _ attributes => attributes.length ≤ maxAttributesPerTag
    | .stop _ => True

variable {tag : Html.Tag}

theorem parseTag_render (readable : Readable tag) (rest : List Char) :
    parseTag (tag.render ++ rest) = some (again tag, rest) := by
  cases tag with
  | start name attributes =>
    have known : name ∈ allowedTags := readable.known
    obtain ⟨some_, chars⟩ := allowedTags_chars name known
    obtain ⟨nameNamed, attributesNamed⟩ := Bool.and_eq_true_iff.mp readable.named
    have each : ∀ pair ∈ attributes, Html.isName pair.1 = true :=
      fun pair mem => List.all_eq_true.mp attributesNamed pair mem
    have read := @attributesFrom_render attributes rest each [] (by
      have few : attributes.length ≤ maxAttributesPerTag := readable.few
      simpa using few)
    obtain ⟨d, left, inside, stops⟩ : ∃ d left,
        attributes.flatMap Html.attributeText ++ '>' :: rest = d :: left ∧
          isNameChar d = false := by
      cases attributes with
      | nil => exact ⟨_, _, rfl, by decide⟩
      | cons pair attributes => exact ⟨' ', _, by simp [Html.attributeText]; rfl, by decide⟩
    have text : (Html.Tag.start name attributes).render ++ rest =
        '<' :: (name.toList ++ d :: left) := by
      rw [← inside]
      simp [Html.Tag.render]
    obtain ⟨taken, dropped⟩ := takeName known left stops
    have noSlash : (name.toList ++ d :: left).head? ≠ some '/' := by
      obtain ⟨c, more, first⟩ := List.exists_cons_of_ne_nil some_
      have other := (chars c (by simp [first])).2.1
      simpa [first] using other
    have full : name.toList.isEmpty = false := by simpa using some_
    rw [inside] at read
    rw [text, parseTag]
    simp only [noSlash, if_false, taken, dropped, full, Bool.false_eq_true, decide_false]
    rw [parseAttributes, ← attributesFrom, read, String.ofList_toList, Html.isName_lower nameNamed]
    rfl
  | stop name =>
    have known : name ∈ allowedTags := readable.known
    obtain ⟨some_, -⟩ := allowedTags_chars name known
    obtain ⟨taken, dropped⟩ := takeName known rest (by decide : isNameChar '>' = false)
    have text : (Html.Tag.stop name).render ++ rest =
        '<' :: '/' :: (name.toList ++ '>' :: rest) := by
      simp [Html.Tag.render]
    have full : name.toList.isEmpty = false := by simpa using some_
    have read : attributesFrom true ([], '>' :: rest) = some ([], false, rest) := by
      rw [attributesFrom_eq, attributeStep]
      simp [skipWhitespace_cons (by decide : isAsciiWhitespace '>' = false)]
    rw [text, parseTag]
    simp only [List.head?_cons, if_true, List.drop_one, List.tail_cons, taken, dropped, full,
      Bool.false_eq_true, if_false, decide_true]
    rw [parseAttributes, ← attributesFrom, read, String.ofList_toList,
      Html.isName_lower readable.named]
    rfl

/-- A text, unless there is none. -/
def textPieces (text : List Char) : List Piece := if text.isEmpty then [] else [.text text]

/-- What the loop finds in an output. -/
def againPieces (segments : List (List Char × Html.Tag)) (last : List Char) : List Piece :=
  segments.flatMap (fun segment => textPieces segment.1 ++ [.tag (again segment.2)]) ++
    textPieces last

theorem pieces_text {text : List Char} (plain : '<' ∉ text) {rest : List Char}
    (stop : ∀ c ∈ rest.head?, c = '<') : pieces none (text ++ rest) =
      textPieces text ++ pieces none rest := by
  cases text with
  | nil => rfl
  | cons c text =>
    have other : c ≠ '<' := fun eq => plain (eq ▸ List.mem_cons_self)
    obtain ⟨taken, dropped⟩ := Html.takeWhile_append_stop (p := fun c => c ≠ '<')
      (fun d mem => by simpa using fun eq : d = '<' => plain (eq ▸ mem))
      (show ∀ d ∈ rest.head?, decide (d ≠ '<') = false by
        intro d mem
        simpa using stop d mem)
    have found : scan none (c :: text ++ rest) = some (some (.text (c :: text)), none, rest) := by
      rw [List.cons_append] at taken dropped ⊢
      rw [scan, if_pos other, taken, dropped]
    rw [pieces_some found]
    rfl

theorem again_skips (readable : Readable tag) : (again tag).skips = none := by
  have kept : ∀ name ∈ allowedTags, name ∉ dropWithContentTags := by decide
  cases tag with
  | start name attributes =>
    have known := kept name readable.known
    simp [again, Tag.skips, known]
  | stop name => rfl

theorem pieces_tag (readable : Readable tag) (rest : List Char) :
    pieces none (tag.render ++ rest) = .tag (again tag) :: pieces none rest := by
  obtain ⟨c, more, text, declares⟩ : ∃ c more, tag.render ++ rest = '<' :: c :: more ∧
      c ≠ '!' ∧ c ≠ '?' := by
    cases tag with
    | start name attributes =>
      obtain ⟨some_, chars⟩ := allowedTags_chars name readable.known
      obtain ⟨c, more, first⟩ := List.exists_cons_of_ne_nil some_
      obtain ⟨-, -, declares⟩ := chars c (by simp [first])
      exact ⟨c, more ++ attributes.flatMap Html.attributeText ++ ['>'] ++ rest,
        by simp [Html.Tag.render, first], declares⟩
    | stop name => exact ⟨'/', name.toList ++ ['>'] ++ rest, by simp [Html.Tag.render], by decide⟩
  have parsed := parseTag_render readable rest
  have found : scan none (tag.render ++ rest) = some (some (.tag (again tag)), none, rest) := by
    rw [text] at parsed ⊢
    have noComment : ¬ "<!--".toList <+: '<' :: c :: more := by
      simp [List.cons_prefix_cons, declares.1.symm]
    have noDeclaration : ¬
        ("<!".toList <+: '<' :: c :: more ∨ "<?".toList <+: '<' :: c :: more) := by
      simp [List.cons_prefix_cons, declares.1.symm, declares.2.symm]
    rw [scan, if_neg (by simp), if_neg noComment, if_neg noDeclaration, parsed]
    simp only [again_skips readable]
  rw [pieces_some found]
  rfl

theorem pieces_render {segments : List (List Char × Html.Tag)} {last : List Char}
    (texts : ∀ segment ∈ segments, '<' ∉ segment.1) (end_ : '<' ∉ last)
    (readable : ∀ segment ∈ segments, Readable segment.2) :
    pieces none (Html.Markup.render ⟨segments, last⟩) = againPieces segments last := by
  induction segments with
  | nil =>
    have text := @pieces_text last end_ [] (fun c mem => by cases mem)
    rw [List.append_nil] at text
    rw [Html.Markup.render, List.flatMap_nil, List.nil_append, text, pieces_none rfl, againPieces,
      List.flatMap_nil, List.nil_append, List.append_nil]
  | cons segment segments ih =>
    obtain ⟨before, tag⟩ := segment
    have later := ih (fun s mem => texts s (List.mem_cons_of_mem _ mem))
      fun s mem => readable s (List.mem_cons_of_mem _ mem)
    have text : Html.Markup.render ⟨(before, tag) :: segments, last⟩ =
        before ++ (tag.render ++ Html.Markup.render ⟨segments, last⟩) := by
      simp [Html.Markup.render]
    have stop : ∀ c ∈ (tag.render ++ Html.Markup.render ⟨segments, last⟩).head?, c = '<' := by
      obtain ⟨rest, opens⟩ := Html.tag_head tag
      intro c mem
      rw [opens] at mem
      exact (Option.some.inj mem).symm
    rw [text, pieces_text (texts _ List.mem_cons_self) stop,
      pieces_tag (readable _ List.mem_cons_self), later]
    simp [againPieces]

end MailStack.Webmail.Sanitize
