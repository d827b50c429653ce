import MailStack.Webmail.SanitizePieces
import Mathlib.Data.List.TakeWhile

/-! A tag with more text behind it: it ends within its own text, where it ends without the other, or
it takes something of the other away. -/

namespace MailStack.Webmail.Sanitize

open Lib

section Behind

variable {p : Char → Bool} {s x : List Char}

theorem takeWhile_within (stops : s.dropWhile p ≠ []) (x : List Char) :
    (s ++ x).takeWhile p = s.takeWhile p ∧ (s ++ x).dropWhile p = s.dropWhile p ++ x := by
  induction s with
  | nil => exact absurd rfl stops
  | cons c s ih =>
    by_cases passes : p c = true
    · rw [List.dropWhile_cons_of_pos passes] at stops ⊢
      obtain ⟨taken, dropped⟩ := ih stops
      rw [List.cons_append, List.takeWhile_cons_of_pos passes, List.takeWhile_cons_of_pos passes,
        List.dropWhile_cons_of_pos passes, taken, dropped]
      exact ⟨rfl, rfl⟩
    · rw [List.cons_append, List.takeWhile_cons_of_neg passes, List.takeWhile_cons_of_neg passes,
        List.dropWhile_cons_of_neg passes, List.dropWhile_cons_of_neg passes]
      exact ⟨rfl, rfl⟩

theorem dropWhile_beyond (ends : s.dropWhile p = []) (x : List Char) :
    (s ++ x).dropWhile p = x.dropWhile p :=
  List.dropWhile_append_of_pos fun c mem => List.dropWhile_eq_nil_iff.mp ends c mem

variable {c : Char}

theorem splitOnceChars_within {before after : List Char}
    (split : splitOnceChars c s = some (before, after)) (x : List Char) :
    splitOnceChars c (s ++ x) = some (before, after ++ x) := by
  obtain ⟨rfl, plain⟩ := splitOnceChars_eq_some split
  rw [List.append_assoc, List.cons_append]
  exact splitOnceChars_append plain _

theorem splitOnceChars_beyond {c : Char} {before after : List Char}
    (nowhere : splitOnceChars c s = none)
    (split : splitOnceChars c (s ++ x) = some (before, after)) :
    after.length < x.length := by
  induction s generalizing before with
  | nil => exact (splitOnceChars_shorter split).2
  | cons d s ih =>
    rw [splitOnceChars] at nowhere
    rw [List.cons_append, splitOnceChars] at split
    split at nowhere
    · cases nowhere
    · rw [if_neg ‹_›] at split
      obtain ⟨⟨start, left⟩, later, eq⟩ := Option.map_eq_some_iff.mp split
      cases eq
      exact ih (Option.map_eq_none_iff.mp nowhere) later

end Behind

/-- What a round of the loop over the attributes ends with. -/
abbrev Round := (List (String × String) × List Char) ⊕ Option TagRest

def Round.Leaves : Round → Prop
  | .inl (_, rest) => rest = []
  | .inr ended => ended = none

/-- A round that ends in the text behind. -/
def Round.Beyond (x : List Char) : Round → Prop
  | .inl (_, rest) => rest.length ≤ x.length
  | .inr none => True
  | .inr (some (_, _, rest)) => rest.length < x.length

/-- A round over a text, and a round over it with `x` behind it. -/
inductive Appended (x : List Char) : Round → Round → Prop
  | next (attributes : List (String × String)) {rest : List Char} (more : rest ≠ []) :
    Appended x (.inl (attributes, rest)) (.inl (attributes, rest ++ x))
  | ends (attributes : List (String × String)) (closes : Bool) (rest : List Char) :
    Appended x (.inr (some (attributes, closes, rest)))
      (.inr (some (attributes, closes, rest ++ x)))
  | leaves {within beyond : Round} (left : within.Leaves) (outside : beyond.Beyond x) :
    Appended x within beyond

section Rounds

variable {isEnd : Bool} {attributes : List (String × String)} {s x : List Char} {name : String}
  {rest : List Char}

def afterEquals (attributes : List (String × String)) (name : String) (rest : List Char) : Round :=
  match attributeValue (skipWhitespace rest) with
  | none => .inr none
  | some (value, after) => .inl (pushAttribute attributes name value, after)

def afterName (attributes : List (String × String)) (name : String) (rest : List Char) : Round :=
  match skipWhitespace rest with
  | '=' :: after => afterEquals attributes name after
  | after => .inl (pushAttribute attributes name "", after)

theorem afterEquals_beyond (suffix : rest <:+ x) :
    (afterEquals attributes name rest).Beyond x := by
  unfold afterEquals
  split
  · exact trivial
  next value after read =>
    have inner := (attributeValue_suffix read).trans (skipWhitespace_suffix rest)
    exact (inner.trans suffix).length_le

theorem afterName_beyond (suffix : rest <:+ x) :
    (afterName attributes name rest).Beyond x := by
  have skipped := (skipWhitespace_suffix rest).trans suffix
  unfold afterName
  split
  next after eq =>
    rw [eq] at skipped
    exact afterEquals_beyond ((List.suffix_cons _ _).trans skipped)
  · exact skipped.length_le

theorem afterEquals_append (attributes : List (String × String)) (name : String) (s x : List Char) :
    Appended x (afterEquals attributes name s) (afterEquals attributes name (s ++ x)) := by
  by_cases blank : skipWhitespace s = []
  · have skipped : skipWhitespace (s ++ x) = skipWhitespace x := dropWhile_beyond blank x
    refine .leaves ?_ ?_
    · rw [afterEquals, blank]
      rfl
    · have outside := @afterEquals_beyond attributes x name x (List.suffix_refl x)
      rwa [afterEquals, ← skipped, ← afterEquals] at outside
  obtain ⟨c, more, first⟩ := List.exists_cons_of_ne_nil blank
  have skipped : skipWhitespace (s ++ x) = c :: (more ++ x) := by
    rw [skipWhitespace, (takeWhile_within blank x).2, ← skipWhitespace, first, List.cons_append]
  rw [afterEquals, afterEquals, first, skipped, attributeValue, attributeValue]
  by_cases quoted : c = '"' ∨ c = '\''
  · rw [if_pos quoted, if_pos quoted]
    cases split : splitOnceChars c more with
    | some found =>
      obtain ⟨value, after⟩ := found
      rw [splitOnceChars_within split x]
      cases after with
      | nil => exact .leaves rfl (Nat.le_refl _)
      | cons d after => exact .next _ (List.cons_ne_nil d after)
    | none =>
      refine .leaves rfl ?_
      cases outside : splitOnceChars c (more ++ x) with
      | none => exact trivial
      | some found => exact (splitOnceChars_beyond split outside).le
  · rw [if_neg quoted, if_neg quoted]
    by_cases ends : (c :: more).dropWhile isBareValueChar = []
    · refine .leaves ends ?_
      show ((c :: more ++ x).dropWhile isBareValueChar).length ≤ x.length
      rw [dropWhile_beyond ends x]
      exact (List.dropWhile_suffix _).length_le
    · obtain ⟨taken, dropped⟩ := takeWhile_within ends x
      rw [List.cons_append] at taken dropped
      simp only [taken, dropped]
      exact .next _ ends

theorem afterName_other {rest after : List Char}
    (first : skipWhitespace rest = c :: after) (other : c ≠ '=') :
    afterName attributes name rest = .inl (pushAttribute attributes name "", c :: after) := by
  rw [afterName, first]
  split
  next eq => exact absurd (List.cons.inj eq).1 other
  · rfl

theorem afterName_append (attributes : List (String × String)) (name : String) (s x : List Char) :
    Appended x (afterName attributes name s) (afterName attributes name (s ++ x)) := by
  by_cases blank : skipWhitespace s = []
  · have skipped : skipWhitespace (s ++ x) = skipWhitespace x := dropWhile_beyond blank x
    refine .leaves ?_ ?_
    · rw [afterName, blank]
      rfl
    · have outside := @afterName_beyond attributes x name x (List.suffix_refl x)
      rwa [afterName, ← skipped, ← afterName] at outside
  obtain ⟨c, more, first⟩ := List.exists_cons_of_ne_nil blank
  have skipped : skipWhitespace (s ++ x) = c :: (more ++ x) := by
    rw [skipWhitespace, (takeWhile_within blank x).2, ← skipWhitespace, first, List.cons_append]
  by_cases equals : c = '='
  · subst equals
    rw [afterName, afterName, first, skipped]
    exact afterEquals_append attributes name more x
  · rw [afterName_other first equals, afterName_other skipped equals]
    exact .next _ (List.cons_ne_nil c more)

theorem attributeStep_eq {more : List Char} (first : skipWhitespace s = c :: more) :
    attributeStep isEnd (attributes, s) =
      if c = '>' then .inr (some (attributes, false, more))
      else if c = '/' ∧ more.head? = some '>' then .inr (some (attributes, true, more.drop 1))
      else if isEnd then
        .inr ((splitOnceChars '>' (c :: more)).map fun (_, after) => (attributes, false, after))
      else if !isAttributeNameChar c then .inl (attributes, more)
      else afterName attributes
        (toAsciiLowercase (String.ofList ((c :: more).takeWhile isAttributeNameChar)))
        ((c :: more).dropWhile isAttributeNameChar) := by
  unfold attributeStep
  simp only [first]
  rfl

/-- A round ends within its text, where it ends with more behind it as well, or it comes to the end
of the text. -/
theorem attributeStep_append (isEnd : Bool) (attributes : List (String × String))
    (s x : List Char) :
    Appended x (attributeStep isEnd (attributes, s)) (attributeStep isEnd (attributes, s ++
      x)) := by
  by_cases blank : skipWhitespace s = []
  · have skipped : skipWhitespace (s ++ x) = skipWhitespace x := dropWhile_beyond blank x
    have same : attributeStep isEnd (attributes, s ++ x) = attributeStep isEnd (attributes, x) := by
      unfold attributeStep
      simp only [skipped]
    refine .leaves ?_ ?_
    · unfold attributeStep
      simp only [blank]
      rfl
    · rw [same]
      cases step : attributeStep isEnd (attributes, x) with
      | inl s' => exact (attributeStep_shorter step).2.le
      | inr ended =>
        cases ended with
        | none => exact trivial
        | some tag => exact (attributeStep_ends step).2
  obtain ⟨c, more, first⟩ := List.exists_cons_of_ne_nil blank
  have skipped : skipWhitespace (s ++ x) = c :: (more ++ x) := by
    rw [skipWhitespace, (takeWhile_within blank x).2, ← skipWhitespace, first, List.cons_append]
  rw [attributeStep_eq first, attributeStep_eq skipped]
  by_cases closes : c = '>'
  · rw [if_pos closes, if_pos closes]
    exact .ends _ _ more
  rw [if_neg closes, if_neg closes]
  by_cases alone : c = '/' ∧ more = []
  · -- the slash is the last character, and what it is depends on the text behind
    obtain ⟨rfl, rfl⟩ := alone
    refine .leaves ?_ ?_
    · rw [if_neg (by simp)]
      cases isEnd <;> rfl
    · rw [List.nil_append]
      by_cases closesItself : '/' = '/' ∧ x.head? = some '>'
      · rw [if_pos closesItself]
        cases x with
        | nil => cases closesItself.2
        | cons d x => exact Nat.lt_succ_self _
      rw [if_neg closesItself]
      cases isEnd with
      | true =>
        rw [if_pos rfl]
        cases outside : splitOnceChars '>' ('/' :: x) with
        | none => exact trivial
        | some found => exact @splitOnceChars_beyond ['/'] x '>' _ _ rfl outside
      | false => exact Nat.le_refl _
  have head : (c = '/' ∧ (more ++ x).head? = some '>') ↔ (c = '/' ∧ more.head? = some '>') := by
    refine and_congr_right fun slash => ?_
    cases more with
    | nil => exact absurd ⟨slash, rfl⟩ alone
    | cons d more => rfl
  by_cases closesItself : c = '/' ∧ more.head? = some '>'
  · rw [if_pos closesItself, if_pos (head.mpr closesItself)]
    cases more with
    | nil => cases closesItself.2
    | cons d more => exact .ends _ _ more
  rw [if_neg closesItself, if_neg (mt head.mp closesItself)]
  cases isEnd with
  | true =>
    rw [if_pos rfl, if_pos rfl]
    cases split : splitOnceChars '>' (c :: more) with
    | some found =>
      obtain ⟨before, after⟩ := found
      have within := splitOnceChars_within split x
      rw [List.cons_append] at within
      rw [within]
      exact .ends _ _ after
    | none =>
      refine .leaves rfl ?_
      cases outside : splitOnceChars '>' (c :: (more ++ x)) with
      | none => exact trivial
      | some found => exact splitOnceChars_beyond split outside
  | false =>
    rw [if_neg Bool.false_ne_true, if_neg Bool.false_ne_true]
    by_cases noName : (!isAttributeNameChar c) = true
    · rw [if_pos noName, if_pos noName]
      cases more with
      | nil => exact .leaves rfl (Nat.le_refl _)
      | cons d more => exact .next _ (List.cons_ne_nil d more)
    rw [if_neg noName, if_neg noName]
    by_cases ends : (c :: more).dropWhile isAttributeNameChar = []
    · have beyond := dropWhile_beyond ends x
      rw [List.cons_append] at beyond
      rw [ends, beyond]
      exact .leaves rfl (afterName_beyond (List.dropWhile_suffix _))
    · obtain ⟨taken, dropped⟩ := takeWhile_within ends x
      rw [List.cons_append] at taken dropped
      rw [taken, dropped]
      exact afterName_append _ _ _ x

/-- The attributes end within their text, where they end with more behind it as well, or they do
not. -/
theorem attributesFrom_append (isEnd : Bool) (attributes : List (String × String))
    (s x : List Char) :
    (∃ pairs closes rest, attributesFrom isEnd (attributes, s) = some (pairs, closes, rest) ∧
        attributesFrom isEnd (attributes, s ++ x) = some (pairs, closes, rest ++ x)) ∨
      (attributesFrom isEnd (attributes, s) = none ∧ ∀ pairs closes rest,
        attributesFrom isEnd (attributes, s ++ x) = some (pairs, closes, rest) →
          rest.length < x.length) := by
  induction size : s.length using Nat.strong_induction_on generalizing attributes s with
  | h n ih =>
    subst size
    have appended := attributeStep_append isEnd attributes s x
    rw [attributesFrom_eq, attributesFrom_eq isEnd (attributes, s ++ x)]
    generalize within : attributeStep isEnd (attributes, s) = inner at appended
    generalize attributeStep isEnd (attributes, s ++ x) = outer at appended
    cases appended with
    | next attributes' more => exact ih _ (attributeStep_shorter within).2 attributes' _ rfl
    | ends pairs closes rest => exact .inl ⟨pairs, closes, rest, rfl, rfl⟩
    | leaves left outside =>
      refine .inr ⟨?_, fun pairs closes rest read => ?_⟩
      · cases inner with
        | inl next =>
          obtain ⟨attributes', rest⟩ := next
          obtain rfl : rest = [] := left
          exact attributesFrom_eq isEnd (attributes', [])
        | inr ended => exact left
      · cases outer with
        | inl next =>
          obtain ⟨attributes', rest'⟩ := next
          exact Nat.lt_of_lt_of_le (attributesFrom_shorter read).2 outside
        | inr ended =>
          obtain rfl : ended = some (pairs, closes, rest) := read
          exact outside

end Rounds

/-- The tag whose name a text begins with. -/
def tagAfter (isEnd : Bool) (text : List Char) : Option (Tag × List Char) :=
  if (text.takeWhile isNameChar).isEmpty then none
  else
    (attributesFrom isEnd ([], text.dropWhile isNameChar)).map fun (attributes, selfClosing, after) =>
      ({ isEnd
         name := toAsciiLowercase (String.ofList (text.takeWhile isNameChar))
         attributes
         selfClosing }, after)

theorem parseTag_eq (text : List Char) : parseTag ('<' :: text) =
    if text.head? = some '/' then tagAfter true (text.drop 1) else tagAfter false text := by
  rw [parseTag]
  by_cases ends : text.head? = some '/'
  · simp only [ends, if_true, decide_true]
    rfl
  · simp only [ends, if_false, decide_false]
    rfl

theorem tagAfter_eq_some {isEnd : Bool} {text rest : List Char} {tag : Tag}
    (read : tagAfter isEnd text = some (tag, rest)) : tag.isEnd = isEnd ∧
      tag.name = toAsciiLowercase (String.ofList (text.takeWhile isNameChar)) ∧
      rest.length < (text.dropWhile isNameChar).length := by
  unfold tagAfter at read
  split at read
  · cases read
  · obtain ⟨⟨attributes, closes, after⟩, found, eq⟩ := Option.map_eq_some_iff.mp read
    cases eq
    exact ⟨rfl, rfl, (attributesFrom_shorter found).2⟩

theorem tagAfter_append (isEnd : Bool) (text x : List Char) :
    (∃ tag rest, tagAfter isEnd text = some (tag, rest) ∧
        tagAfter isEnd (text ++ x) = some (tag, rest ++ x)) ∨
      (tagAfter isEnd text = none ∧ ∀ tag rest, tagAfter isEnd (text ++ x) = some (tag, rest) →
        rest.length < x.length) := by
  by_cases ends : text.dropWhile isNameChar = []
  · refine .inr ⟨?_, fun tag rest read => ?_⟩
    · have nothing : attributesFrom isEnd ([], []) = none := attributesFrom_eq isEnd ([], [])
      rw [tagAfter, ends, nothing]
      exact ite_self _
    · have shorter := (tagAfter_eq_some read).2.2
      rw [dropWhile_beyond ends] at shorter
      exact Nat.lt_of_lt_of_le shorter (List.dropWhile_suffix _).length_le
  · obtain ⟨taken, dropped⟩ := takeWhile_within ends x
    rw [tagAfter, tagAfter, taken, dropped]
    by_cases unnamed : (text.takeWhile isNameChar).isEmpty = true
    · rw [if_pos unnamed, if_pos unnamed]
      exact .inr ⟨rfl, fun tag rest read => by cases read⟩
    rw [if_neg unnamed, if_neg unnamed]
    rcases attributesFrom_append isEnd [] (text.dropWhile isNameChar) x with
      ⟨pairs, closes, rest, within, appended⟩ | ⟨nothing, beyond⟩
    · rw [within, appended]
      exact .inl ⟨_, _, rfl, rfl⟩
    · rw [nothing]
      refine .inr ⟨rfl, fun tag rest read => ?_⟩
      obtain ⟨⟨attributes, closes, after⟩, found, eq⟩ := Option.map_eq_some_iff.mp read
      cases eq
      exact beyond _ _ _ found

theorem parseTag_append (text x : List Char) (some_ : text ≠ [] ∨ x.head? ≠ some '/') :
    (∃ tag rest, parseTag ('<' :: text) = some (tag, rest) ∧
        parseTag ('<' :: text ++ x) = some (tag, rest ++ x)) ∨
      (parseTag ('<' :: text) = none ∧ ∀ tag rest, parseTag ('<' :: text ++ x) = some (tag, rest) →
        rest.length < x.length) := by
  rw [List.cons_append, parseTag_eq, parseTag_eq]
  by_cases ends : text.head? = some '/'
  · cases text with
    | nil => cases ends
    | cons c text =>
      have slash : some c = some '/' := ends
      rw [List.cons_append, List.head?_cons, List.head?_cons, if_pos slash, if_pos slash]
      exact tagAfter_append true text x
  · have still : (text ++ x).head? ≠ some '/' := by
      cases text with
      | nil => exact some_.resolve_left fun h => h rfl
      | cons c text => exact ends
    rw [if_neg ends, if_neg still]
    exact tagAfter_append false text x

end MailStack.Webmail.Sanitize
