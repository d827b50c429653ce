import MailStack.Webmail.SanitizeAgain
import MailStack.Webmail.SanitizeBehind
import Mathlib.Data.List.Infix

/-! An element that is dropped with its content: when the loop comes to the end tag of the element,
and what is written then. -/

namespace MailStack.Webmail.Sanitize

open Lib

/-- The texts that the loop skips up to an end tag of the element: each `<` begins a tag that ends
within the text, and none of these opens the element again. -/
inductive Skipped (name : String) : List Char → Prop
  | text {text : List Char} (plain : '<' ∉ text) : Skipped name text
  | tag {before inside rest : List Char} {tag : Tag} (plain : '<' ∉ before)
      (parsed : parseTag ('<' :: inside) = some (tag, rest))
      (other : tag.isEnd = true ∨ tag.name ≠ name ∨ tag.selfClosing = true)
      (skipped : Skipped name rest) : Skipped name (before ++ '<' :: inside)

def Unended (name : String) (text : List Char) : Prop :=
  ∀ before rest, text = before ++ '<' :: '/' :: rest → ¬ name.toList <+: rest.map Char.toLower

theorem Unended.suffix {name : String} {text rest : List Char} (unended : Unended name text)
    (suffix : rest <:+ text) : Unended name rest := by
  obtain ⟨before, rfl⟩ := suffix
  rintro start after rfl
  exact unended (before ++ start) after (List.append_assoc _ _ _).symm

section Skipping

variable {state : SkipState} {text rest : List Char}

theorem pieces_skipText (plain : '<' ∉ text) (stop : ∀ c ∈ rest.head?, c = '<') :
    pieces (some state) (text ++ rest) = pieces (some state) rest := by
  cases text with
  | nil => rfl
  | cons c text =>
    have other : c ≠ '<' := fun eq => plain (eq ▸ List.mem_cons_self)
    have all : ∀ d ∈ c :: text, decide (d ≠ '<') = true := fun d mem => by
      simpa using fun eq : d = '<' => plain (eq ▸ mem)
    have dropped : (c :: text ++ rest).dropWhile (· ≠ '<') = rest := by
      rw [List.dropWhile_append_of_pos all]
      cases rest with
      | nil => rfl
      | cons d rest => rw [stop d rfl, List.dropWhile_cons_of_neg (by decide)]
    rw [List.cons_append] at dropped ⊢
    cases rest with
    | nil =>
      have nothing : scan (some state) (c :: (text ++ [])) = none := by
        rw [scan, if_pos other, dropped]
      rw [pieces_none nothing]
      exact (pieces_none rfl).symm
    | cons d rest =>
      have found : scan (some state) (c :: (text ++ d :: rest)) =
          some (none, some state, d :: rest) := by
        rw [scan, if_pos other, dropped]
      rw [pieces_some found]
      rfl

theorem tag_first (rest : List Char) : ∀ c ∈ ('<' :: rest).head?, c = '<' :=
  fun _ mem => (Option.some.inj mem).symm

theorem pieces_skipEnd (plain : '<' ∉ text) : pieces (some state) text = [] := by
  have skipped := @pieces_skipText state text [] plain (fun c mem => by cases mem)
  rw [List.append_nil] at skipped
  exact skipped.trans (pieces_none rfl)

variable {tag : Tag}

theorem pieces_skipTag (parsed : parseTag ('<' :: text) = some (tag, rest)) :
    pieces (some state) ('<' :: text) = pieces (state.after tag) rest := by
  have found : scan (some state) ('<' :: text) = some (none, state.after tag, rest) := by
    rw [scan, if_neg (by simp), parsed]
    rfl
  rw [pieces_some found]
  rfl

theorem pieces_skipStuck (stuck : parseTag ('<' :: text) = none) :
    pieces (some state) ('<' :: text) = [] := by
  refine pieces_none ?_
  rw [scan, if_neg (by simp), stuck]
  rfl

theorem after_other (noEnd : tag.isEnd = true → tag.name ≠ state.name)
    (noStart : tag.isEnd = true ∨ tag.name ≠ state.name ∨ tag.selfClosing = true) :
    state.after tag = some state := by
  unfold SkipState.after
  by_cases ends : tag.isEnd = true
  · rw [if_pos ends, if_neg (noEnd ends)]
  · rw [if_neg ends, if_neg]
    rintro ⟨name, opens⟩
    rcases noStart with h | h | h
    · exact ends h
    · exact h name
    · rw [h] at opens
      cases opens

theorem after_some (state : SkipState) (noEnd : tag.isEnd = true → tag.name ≠ state.name) :
    ∃ state', state.after tag = some state' := by
  unfold SkipState.after
  split
  next ends => exact ⟨state, if_neg (noEnd ends)⟩
  · split
    · exact ⟨_, rfl⟩
    · exact ⟨state, rfl⟩

end Skipping

/-- A name that is read as it is written. -/
structure ElementName (name : String) : Prop where
  some_ : name.toList ≠ []
  chars : ∀ c ∈ name.toList, isNameChar c = true ∧ c.isUpper = false

section Ending

variable {name : String} {b : List Char}

def endTag (name : String) : List Char := '<' :: '/' :: name.toList ++ ['>']

theorem ElementName.take (named : ElementName name) {c : Char} (rest : List Char)
    (stop : isNameChar c = false) :
    (name.toList ++ c :: rest).takeWhile isNameChar = name.toList ∧
      (name.toList ++ c :: rest).dropWhile isNameChar = c :: rest := by
  rw [List.takeWhile_append_of_pos fun d mem => (named.chars d mem).1,
    List.dropWhile_append_of_pos fun d mem => (named.chars d mem).1]
  rw [List.takeWhile_cons_of_neg (by simp [stop]), List.dropWhile_cons_of_neg (by simp [stop]),
    List.append_nil]
  exact ⟨rfl, rfl⟩

theorem ElementName.lower (named : ElementName name) : toAsciiLowercase name = name := by
  apply String.toList_inj.mp
  rw [toList_toAsciiLowercase]
  exact (List.map_congr_left fun c mem => toLower_eq_self (named.chars c mem).2).trans
    (List.map_id _)

theorem ElementName.tagAfter (named : ElementName name) (isEnd : Bool) (rest : List Char) :
    tagAfter isEnd (name.toList ++ '>' :: rest) = some
      ({ isEnd
         name
         attributes := []
         selfClosing := false }, rest) := by
  obtain ⟨taken, dropped⟩ := named.take rest (by decide : isNameChar '>' = false)
  have full : name.toList.isEmpty = false := by simpa using named.some_
  have read : attributesFrom isEnd ([], '>' :: rest) = some ([], false, rest) := by
    rw [attributesFrom_eq, attributeStep]
    rfl
  rw [Sanitize.tagAfter, taken, dropped, full, read, String.ofList_toList, named.lower]
  rfl

theorem parseTag_endTag (named : ElementName name) (rest : List Char) :
    parseTag (endTag name ++ rest) = some
      ({ isEnd := true
         name
         attributes := []
         selfClosing := false }, rest) := by
  have text : endTag name ++ rest = '<' :: '/' :: (name.toList ++ '>' :: rest) := by
    simp [endTag]
  rw [text, parseTag_eq, if_pos List.head?_cons]
  exact named.tagAfter true rest

theorem endTag_first : ∀ c ∈ (endTag name ++ b).head?, c = '<' := tag_first _

/-- A tag that begins before the end tag of the element is none itself. -/
theorem not_end {inside rest : List Char} (unended : Unended name ('<' :: inside))
    (parsed : parseTag ('<' :: inside ++ (endTag name ++ b)) = some (tag, rest))
    (ends : tag.isEnd = true) : tag.name ≠ name := by
  rintro same
  rw [List.cons_append, parseTag_eq] at parsed
  split at parsed
  next slash =>
    obtain ⟨-, tagName, -⟩ := tagAfter_eq_some parsed
    cases inside with
    | nil => cases slash
    | cons c inside =>
      obtain rfl : c = '/' := Option.some.inj slash
      refine unended [] inside rfl ?_
      have stop : ((endTag name ++ b).takeWhile isNameChar) = [] := rfl
      have taken : (inside ++ (endTag name ++ b)).takeWhile isNameChar <+: inside := by
        by_cases all : inside.dropWhile isNameChar = []
        · rw [List.takeWhile_append_of_pos (List.dropWhile_eq_nil_iff.mp all), stop,
            List.append_nil]
        · rw [(takeWhile_within all _).1]
          exact List.takeWhile_prefix _
      rw [← same, tagName, toList_toAsciiLowercase, String.toList_ofList]
      exact taken.map _
  · have starts := (tagAfter_eq_some parsed).1
    rw [ends] at starts
    cases starts

theorem endTag_rest (named : ElementName name) (plain : '<' ∉ b) {text rest : List Char}
    (suffix : rest <:+ text ++ (endTag name ++ b))
    (less : rest.length < (endTag name ++ b).length) :
    '<' ∉ rest := by
  have nameChars : '<' ∉ name.toList := fun mem => absurd (named.chars _ mem).1 (by decide)
  have tail : '<' ∉ '/' :: name.toList ++ ['>'] ++ b := by
    simp [nameChars, plain]
  have inside : rest <:+ '/' :: name.toList ++ ['>'] ++ b := by
    have own : '/' :: name.toList ++ ['>'] ++ b <:+ text ++ (endTag name ++ b) :=
      ⟨text ++ ['<'], by simp [endTag]⟩
    refine List.suffix_of_suffix_length_le suffix own ?_
    have total : (endTag name ++ b).length = ('/' :: name.toList ++ ['>'] ++ b).length + 1 := rfl
    omega
  exact fun mem => tail (inside.subset mem)

/-- The loop comes to the end tag of the element. -/
theorem pieces_skipped (named : ElementName name) {text : List Char} (skipped : Skipped name text)
    (unended : Unended name text) :
    pieces (some { name, depth := 1 }) (text ++ (endTag name ++ b)) = pieces none b := by
  induction skipped with
  | text plain =>
    rw [pieces_skipText plain endTag_first]
    have parsed := parseTag_endTag named b
    rw [endTag, List.cons_append, List.cons_append] at parsed ⊢
    rw [pieces_skipTag parsed]
    simp [SkipState.after]
  | @tag before inside rest tag plain parsed other skipped ih =>
    have inner := unended.suffix (List.suffix_append before ('<' :: inside))
    rcases parseTag_append inside (endTag name ++ b) (.inr (by simp [endTag])) with
      ⟨tag', rest', within, appended⟩ | ⟨nothing, -⟩
    · obtain ⟨rfl, rfl⟩ := Prod.mk.inj (Option.some.inj (within.symm.trans parsed))
      have shorter := (parseTag_shorter parsed).suffix
      have still : SkipState.after { name, depth := 1 } tag' = some { name, depth := 1 } :=
        after_other (not_end inner appended) other
      rw [List.cons_append] at appended
      rw [List.append_assoc, List.cons_append, pieces_skipText plain (tag_first _),
        pieces_skipTag appended, still]
      exact ih (inner.suffix shorter)
    · rw [nothing] at parsed
      cases parsed

/-- The loop does not come to the end of the element, and what follows is lost. -/
theorem pieces_lost (named : ElementName name) (plainEnd : '<' ∉ b) {text : List Char}
    (unended : Unended name text) {depth : Nat} (deep : 1 ≤ depth)
    (lost : depth ≠ 1 ∨ ¬ Skipped name text) :
    pieces (some { name, depth }) (text ++ (endTag name ++ b)) = [] := by
  induction size : text.length using Nat.strong_induction_on generalizing text depth with
  | h n ih =>
    subst size
    have before : '<' ∉ text.takeWhile (· ≠ '<') := fun mem => by
      simpa using List.all_eq_true.mp List.all_takeWhile _ mem
    have split := List.takeWhile_append_dropWhile (p := (· ≠ '<')) (l := text)
    cases found : text.dropWhile (· ≠ '<') with
    | nil =>
      rw [found, List.append_nil] at split
      rw [split] at before
      have twice : depth ≠ 1 := lost.resolve_right fun h => h (.text before)
      rw [pieces_skipText before endTag_first]
      have parsed := parseTag_endTag named b
      rw [endTag, List.cons_append, List.cons_append] at parsed ⊢
      rw [pieces_skipTag parsed]
      have still : SkipState.after { name, depth }
          { isEnd := true
            name
            attributes := []
            selfClosing := false } = some { name, depth := depth - 1 } := by
        simp only [SkipState.after, if_true]
        rw [if_neg (by omega)]
      rw [still]
      exact pieces_skipEnd plainEnd
    | cons c inside =>
      obtain rfl : c = '<' := by
        have head := List.head?_dropWhile_not (fun c => decide (c ≠ '<')) text
        rw [found] at head
        simpa using head
      rw [found] at split
      rw [← split, List.append_assoc, List.cons_append, pieces_skipText before (tag_first _)]
      have inner : Unended name ('<' :: inside) :=
        unended.suffix ⟨text.takeWhile (· ≠ '<'), split⟩
      have noEnd (tag : Tag) (rest : List Char)
          (parsed : parseTag ('<' :: inside ++ (endTag name ++ b)) = some (tag, rest)) :
          tag.isEnd = true → tag.name ≠ name := not_end inner parsed
      rcases parseTag_append inside (endTag name ++ b) (.inr (by simp [endTag])) with
        ⟨tag, rest, within, appended⟩ | ⟨nothing, beyond⟩
      · have shorter := parseTag_shorter within
        have smaller : rest.length < text.length := by
          have total := congrArg List.length split
          have less := shorter.2
          rw [List.length_append] at total
          omega
        have later := inner.suffix shorter.suffix
        have ended := noEnd tag _ appended
        rw [List.cons_append] at appended
        rw [pieces_skipTag appended]
        by_cases other : tag.isEnd = true ∨ tag.name ≠ name ∨ tag.selfClosing = true
        · have still : SkipState.after { name, depth } tag = some { name, depth } :=
            after_other ended other
          rw [still]
          refine ih _ smaller later deep (lost.imp_right fun unskipped skipped => unskipped ?_) rfl
          rw [← split]
          exact .tag before within other skipped
        · -- the element begins once more, and one end tag is not enough
          obtain ⟨starts, opens⟩ := not_or.mp other
          obtain ⟨same, notSelf⟩ := not_or.mp opens
          have deeper : SkipState.after { name, depth } tag =
              some { name, depth := depth + 1 } := by
            unfold SkipState.after
            rw [if_neg starts, if_pos ⟨not_not.mp same, by simpa using notSelf⟩]
          rw [deeper]
          exact ih _ smaller later (Nat.le_add_left 1 depth) (.inl (by omega)) rfl
      · cases parsed : parseTag ('<' :: inside ++ (endTag name ++ b)) with
        | none =>
          rw [List.cons_append] at parsed
          exact pieces_skipStuck parsed
        | some found =>
          obtain ⟨tag, rest⟩ := found
          have plain := endTag_rest named plainEnd (parseTag_shorter parsed).suffix
            (beyond tag rest parsed)
          obtain ⟨state, after⟩ := after_some { name, depth } (noEnd tag rest parsed)
          rw [List.cons_append] at parsed
          rw [pieces_skipTag parsed, after]
          exact pieces_skipEnd plain

end Ending

section Message

variable {name a b text : String} {options : SanitizeOptions} {o : Output}

theorem elementName_of_dropped (drops : name ∈ dropWithContentTags) : ElementName name := by
  have all : ∀ name ∈ dropWithContentTags, name.toList ≠ [] ∧
      ∀ c ∈ name.toList, isNameChar c = true ∧ c.isUpper = false := by decide
  exact ⟨(all name drops).1, (all name drops).2⟩

/-- The element is dropped with what the loop skips. -/
theorem pieces_dropped (drops : name ∈ dropWithContentTags) (closes : name ∉ voidElements)
    (rest : List Char) : ∃ tag : Tag, tag.isEnd = false ∧ tag.name = name ∧
      pieces none ('<' :: (name.toList ++ '>' :: rest)) =
        .tag tag :: pieces (some { name, depth := 1 }) rest := by
  have named := elementName_of_dropped drops
  let tag : Tag :=
    { isEnd := false
      name
      attributes := []
      selfClosing := false }
  refine ⟨tag, rfl, rfl, ?_⟩
  obtain ⟨c, more, first⟩ := List.exists_cons_of_ne_nil named.some_
  have isChar := (named.chars c (by simp [first])).1
  have others : c ≠ '/' ∧ c ≠ '!' ∧ c ≠ '?' := by
    refine ⟨?_, ?_, ?_⟩ <;> rintro rfl <;> exact absurd isChar (by decide)
  have parsed : parseTag ('<' :: (name.toList ++ '>' :: rest)) = some (tag, rest) := by
    rw [parseTag_eq, if_neg (by simp [first, others.1])]
    exact named.tagAfter false rest
  have skips : tag.skips = some { name, depth := 1 } := by
    simp [Tag.skips, tag, drops, closes]
  have found : scan none ('<' :: (name.toList ++ '>' :: rest)) =
      some (some (.tag tag), some { name, depth := 1 }, rest) := by
    have noComment : ¬ "<!--".toList <+: '<' :: (name.toList ++ '>' :: rest) := by
      simp [first, List.cons_prefix_cons, others.2.1.symm]
    have noDeclaration : ¬ ("<!".toList <+: '<' :: (name.toList ++ '>' :: rest) ∨
        "<?".toList <+: '<' :: (name.toList ++ '>' :: rest)) := by
      simp [first, List.cons_prefix_cons, others.2.1.symm, others.2.2.symm]
    rw [scan, if_neg (by simp), if_neg noComment, if_neg noDeclaration, parsed]
    simp only [skips]
  rw [pieces_some found]
  rfl

theorem emit_texts (room : len o.out < maxSanitizeOutputBytes) (text : List Char)
    (more : List Piece) : o.emit options (textPieces text ++ more) =
      Output.emit options { o with out := o.out ++ pushText text } more := by
  cases text with
  | nil =>
    have same : o.out ++ pushText [] = o.out := String.append_empty
    rw [same]
    rfl
  | cons c text =>
    show (if len o.out ≥ maxSanitizeOutputBytes then some o else _) = _
    rw [if_neg (Nat.not_le.mpr room)]
    rfl

theorem emit_dropped (starts : tag.isEnd = false)
    (drops : tag.name ∈ dropWithContentTags) (more : List Piece) :
    o.emit options (.tag tag :: more) = o.emit options more := by
  rw [Output.emit]
  split
  next full => exact (Output.emit_full full more).symm
  · have nothing : o.apply options (.tag tag) = some o := by
      rw [Output.apply, Output.tag, if_neg (by simp [starts]), if_pos (by simpa using drops)]
      split <;> rfl
    rw [nothing, Option.bind_some]

theorem pieces_plain {text : List Char}
    (plain : '<' ∉ text) : pieces none text = textPieces text := by
  have found := @pieces_text text plain [] (fun c mem => by cases mem)
  have nothing : pieces none [] = [] := pieces_none rfl
  rwa [List.append_nil, nothing, List.append_nil] at found

def withElement (name a text b : String) : String :=
  a ++ "<" ++ name ++ ">" ++ text ++ "</" ++ name ++ ">" ++ b

theorem toList_withElement (name a text b : String) : (withElement name a text b).toList =
    a.toList ++ '<' :: (name.toList ++ '>' :: (text.toList ++ (endTag name ++ b.toList))) := by
  simp [withElement, endTag]

theorem sanitize_text (plain : '<' ∉ text.toList)
    (fits : len text ≤ min maxSanitizeInputBytes maxHtmlBytes) :
    (sanitizeHtml text options).map (·.html) = some (pushText text.toList) := by
  have emitted : Output.initial.emit options (pieces none text.toList) =
      some { Output.initial with out := pushText text.toList } := by
    have written := @emit_texts options .initial (by decide) text.toList []
    rw [List.append_nil] at written
    rw [pieces_plain plain, written]
    have empty : Output.initial.out ++ pushText text.toList = pushText text.toList :=
      String.empty_append
    rw [empty]
    rfl
  rw [sanitizeHtml_eq, truncateOnCharBoundary_eq fits]
  exact congrArg (Option.map (·.html)) (congrArg (Option.map Output.finish) emitted)

/-- What is written of a message with an element that is dropped. -/
theorem sanitize_withElement (drops : name ∈ dropWithContentTags) (closes : name ∉ voidElements)
    (plainA : '<' ∉ a.toList) (plainB : '<' ∉ b.toList) (unended : Unended name text.toList)
    (fits : len (withElement name a text b) ≤ min maxSanitizeInputBytes maxHtmlBytes)
    {html : String} (written : html = pushText a.toList ++ pushText b.toList ∧
        Skipped name text.toList ∧ len (pushText a.toList) < maxSanitizeOutputBytes ∨
      html = pushText a.toList ∧
        ¬ (Skipped name text.toList ∧ len (pushText a.toList) < maxSanitizeOutputBytes)) :
    (sanitizeHtml (withElement name a text b) options).map (·.html) = some html := by
  have named := elementName_of_dropped drops
  let first : Output := { Output.initial with out := pushText a.toList }
  obtain ⟨tag, starts, own, found⟩ := pieces_dropped drops closes
    (text.toList ++ (endTag name ++ b.toList))
  have all : Output.initial.emit options (pieces none (withElement name a text b).toList) =
      first.emit options (pieces (some { name, depth := 1 })
        (text.toList ++ (endTag name ++ b.toList))) := by
    have empty : Output.initial.out ++ pushText a.toList = pushText a.toList := String.empty_append
    rw [toList_withElement, pieces_text plainA (tag_first _), found, emit_texts (by decide),
      emit_dropped starts (own ▸ drops), empty]
  have emitted : Output.initial.emit options (pieces none (withElement name a text b).toList) =
      some { first with out := html } := by
    rw [all]
    rcases written with ⟨rfl, skipped, room⟩ | ⟨rfl, lost⟩
    · have last := @emit_texts options first room b.toList []
      rw [List.append_nil] at last
      rw [pieces_skipped named skipped unended, pieces_plain plainB, last]
      rfl
    · by_cases skipped : Skipped name text.toList
      · have full : maxSanitizeOutputBytes ≤ len first.out :=
          Nat.le_of_not_lt fun room => lost ⟨skipped, room⟩
        exact Output.emit_full full _
      · rw [pieces_lost named plainB unended (Nat.le_refl 1) (.inr skipped)]
        rfl
  rw [sanitizeHtml_eq, truncateOnCharBoundary_eq fits]
  exact congrArg (Option.map (·.html)) (congrArg (Option.map Output.finish) emitted)

theorem unended_of_containsText
    (unended : containsText (toAsciiLowercase text) ("</" ++ name) = false) :
    Unended name text.toList := by
  intro before rest eq starts
  have lower : '<'.toLower = '<' ∧ '/'.toLower = '/' := by decide
  have suffix : '<' :: '/' :: rest.map Char.toLower ∈ (toAsciiLowercase text).toList.tails := by
    rw [List.mem_tails, toList_toAsciiLowercase, eq, List.map_append, List.map_cons, List.map_cons,
      lower.1, lower.2]
    exact List.suffix_append _ _
  refine absurd (List.any_eq_true.mpr ⟨_, suffix, ?_⟩) (Bool.eq_false_iff.mp unended)
  rw [List.isPrefixOf_iff_prefix, String.toList_append]
  exact (List.cons_prefix_cons.mpr ⟨rfl, List.cons_prefix_cons.mpr ⟨rfl, starts⟩⟩)

/-- The html is that of the two texts alone if each `<` in the element begins a tag within it and
none opens the element again, the first text leaves room, and the second does not end a reference
that the first begins. Otherwise the second text is lost, and the html is the same only if it adds
nothing. -/
theorem dropped_iff (name a text b : String) (options : SanitizeOptions)
    (drops : name ∈ dropWithContentTags) (closes : name ∉ voidElements)
    (plainA : '<' ∉ a.toList) (plainB : '<' ∉ b.toList)
    (unended : containsText (toAsciiLowercase text) ("</" ++ name) = false)
    (fits : len (withElement name a text b) ≤ min maxSanitizeInputBytes maxHtmlBytes) :
    (sanitizeHtml (withElement name a text b) options).map (·.html) =
        (sanitizeHtml (a ++ b) options).map (·.html) ↔
      (Skipped name text.toList ∧ len (pushText a.toList) < maxSanitizeOutputBytes ∧
          ¬ Straddles a.toList b.toList) ∨
        (¬ (Skipped name text.toList ∧ len (pushText a.toList) < maxSanitizeOutputBytes) ∧
          (b = "" ∨ SameAmpersand a.toList b.toList)) := by
  have unended := unended_of_containsText unended
  have plain : '<' ∉ (a ++ b).toList := by
    rw [String.toList_append, List.mem_append]
    exact not_or.mpr ⟨plainA, plainB⟩
  have shorter : len (a ++ b) ≤ len (withElement name a text b) := by
    rw [len_eq, len_eq, toList_withElement, String.toList_append]
    simp only [size_append, size_cons]
    omega
  have both : (sanitizeHtml (a ++ b) options).map (·.html) = some (pushText (a ++ b).toList) :=
    sanitize_text plain (shorter.trans fits)
  have written (html : String) : some html = some (pushText (a ++ b).toList) ↔
      pushTextFrom 0 (a.toList ++ b.toList) = html.toList := by
    rw [Option.some.injEq, ← String.toList_inj, pushText, String.toList_ofList, String.toList_append,
      eq_comm]
  rw [both]
  by_cases reached : Skipped name text.toList ∧ len (pushText a.toList) < maxSanitizeOutputBytes
  · rw [sanitize_withElement drops closes plainA plainB unended fits (.inl ⟨rfl, reached⟩), written,
      String.toList_append, pushText, pushText, String.toList_ofList, String.toList_ofList,
      pushTextFrom_append_iff]
    exact ⟨fun apart => .inl ⟨reached.1, reached.2, apart⟩,
      fun cases => cases.elim (fun h => h.2.2) fun h => absurd reached h.1⟩
  · rw [sanitize_withElement drops closes plainA plainB unended fits (.inr ⟨rfl, reached⟩), written,
      pushText, String.toList_ofList, pushTextFrom_append_self, String.toList_eq_nil_iff]
    exact ⟨fun same => .inr ⟨reached, same⟩,
      fun cases => cases.elim (fun h => absurd ⟨h.1, h.2.1⟩ reached) fun h => h.2⟩

theorem dropped_iff_style :
    (sanitizeHtml (withElement "style" "a" "p > q <br>" "b") .default).map (·.html) =
        (sanitizeHtml ("a" ++ "b") .default).map (·.html) ↔
      (Skipped "style" "p > q <br>".toList ∧ len (pushText "a".toList) < maxSanitizeOutputBytes ∧
          ¬ Straddles "a".toList "b".toList) ∨
        (¬ (Skipped "style" "p > q <br>".toList ∧
            len (pushText "a".toList) < maxSanitizeOutputBytes) ∧
          ("b" = "" ∨ SameAmpersand "a".toList "b".toList)) :=
  dropped_iff "style" "a" "p > q <br>" "b" .default (by decide) (by decide) (by decide) (by decide)
    (by decide +kernel) (by decide +kernel)

/-- A less-than sign in a style sheet ends the message. -/
theorem text_lost_after_style :
    containsText (toAsciiLowercase "p < q") ("</" ++ "style") = false ∧
      (sanitizeHtml (withElement "style" "a" "p < q" "b") .default).map (·.html) ≠
        (sanitizeHtml ("a" ++ "b") .default).map (·.html) := by
  decide +kernel

end Message

end MailStack.Webmail.Sanitize
