import MailStack.Webmail.SanitizeAgain

/-! Nesting in the output: the stack of open elements is that of the tags that are written as long
as no start tag is left out, and the output is balanced if there is room for the end tags of what is
open at the end. -/

namespace MailStack.Webmail.Sanitize

open Lib

variable {options : SanitizeOptions} {o o' : Output} {m : Html.Markup} {input : String}
  {opened : List String} {out : String}

def readTags (tokens : List Html.Token) : List Html.Tag :=
  tokens.filterMap fun
    | .tag tag => some tag
    | .text _ => none

/-- A reader finds elements that are closed, each within the one that it is in. -/
def Nested (html : String) : Prop :=
  ∃ tokens, Html.read html.toList = some tokens ∧ Html.Balanced voidTags.contains (readTags tokens)

/-- The size of the longest text that an input has. -/
def longestRun (input : String) : Nat :=
  ((inputPieces input).map fun
    | .text text => len (pushText text)
    | .tag _ => 0).foldr max 0

/-- The output is over its limit by a text run at most. -/
def Bounded (input html : String) : Prop := len html ≤ maxSanitizeOutputBytes + longestRun input

def endTagsSize (opened : List String) : Nat := (opened.map fun name => len name + 3).sum

/-- There is room at the end for the end tags of what is open. -/
def Closes (options : SanitizeOptions) (input : String) : Prop :=
  ∀ o, Output.initial.emit options (inputPieces input) = some o →
    o.opened = [] ∨ len o.out + endTagsSize o.opened < maxSanitizeOutputBytes

def Piece.IsTag : Piece → Prop
  | .text _ => False
  | .tag _ => True

/-- No tag takes the output over its limit by more than so much. -/
def Output.Within (options : SanitizeOptions) (extra : Nat) : Output → List Piece → Prop
  | _, [] => True
  | o, piece :: rest => len o.out < maxSanitizeOutputBytes → ∀ o', o.apply options piece = some o' →
    (piece.IsTag → len o'.out ≤ maxSanitizeOutputBytes + extra) ∧ o'.Within options extra rest

def Within (options : SanitizeOptions) (input : String) : Prop :=
  Output.initial.Within options (longestRun input) (inputPieces input)

theorem readTags_tokens (m : Html.Markup) : readTags m.tokens = m.tags := by
  have text (text : List Char) : readTags (Html.textToken text) = [] := by
    unfold Html.textToken
    split <;> rfl
  have append (tokens more : List Html.Token) :
      readTags (tokens ++ more) = readTags tokens ++ readTags more := List.filterMap_append
  obtain ⟨segments, last⟩ := m
  induction segments with
  | nil => exact text last
  | cons segment segments ih =>
    simp only [Html.Markup.tokens, Html.Markup.tags, List.flatMap_cons, List.map_cons] at ih ⊢
    rw [append] at ih
    rw [append, append, append, text, List.append_assoc, ih]
    rfl

theorem endTags_size (names : List String) :
    size ((names.map Html.Tag.stop).flatMap Html.Tag.render) = endTagsSize names := by
  induction names with
  | nil => rfl
  | cons name names ih =>
    have three : '<'.utf8Size = 1 ∧ '/'.utf8Size = 1 ∧ '>'.utf8Size = 1 := by decide
    simp only [List.map_cons, List.flatMap_cons, size_append, ih, Html.Tag.render, List.cons_append,
      size_cons, size_nil, endTagsSize, List.sum_cons, len_eq, three]
    omega

theorem closed_sublist (opened : List String)
    (out : String) : (closed opened out).Sublist opened := by
  induction opened generalizing out with
  | nil => exact List.Sublist.refl _
  | cons name rest ih =>
    rw [closed]
    split
    · exact (ih _).cons_cons _
    · exact (ih _).cons _

theorem len_closing (name : String) : len (closing name) = len name + 3 := by
  have parts : len "</" = 2 ∧ len ">" = 1 := by decide
  rw [closing, len_append, len_append]
  omega

/-- All that is open gets its end tag if there is room for all of them. -/
theorem closed_eq_iff (opened : List String) (out : String) : closed opened out = opened ↔
    opened = [] ∨ len out + endTagsSize opened < maxSanitizeOutputBytes := by
  induction opened generalizing out with
  | nil => exact iff_of_true rfl (.inl rfl)
  | cons name rest ih =>
    have total : endTagsSize (name :: rest) = len name + 3 + endTagsSize rest := List.sum_cons
    have longer : len (out ++ closing name) = len out + (len name + 3) := by
      rw [len_append, len_closing]
    rw [closed, total]
    by_cases fits : len out + len name + 3 < maxSanitizeOutputBytes
    · rw [if_pos fits, List.cons.injEq, ih, longer]
      refine ⟨?_, fun room => ⟨rfl, ?_⟩⟩
      · rintro ⟨-, room⟩
        refine .inr ?_
        rcases room with rfl | room
        · show len out + (len name + 3 + 0) < _
          omega
        · omega
      · have room := room.resolve_left (List.cons_ne_nil _ _)
        exact .inr (by omega)
    · rw [if_neg fits]
      refine iff_of_false (fun same => ?_) ?_
      · have shorter := (closed_sublist rest out).length_le
        rw [same, List.length_cons] at shorter
        omega
      · rintro (nil | room)
        · cases nil
        · omega

theorem nest_stops_nil {opened names : List String} (sublist : names.Sublist opened) :
    Html.nest voidTags.contains opened (names.map Html.Tag.stop) = some [] ↔ names = opened := by
  constructor
  · intro nested
    refine sublist.eq_of_length ?_
    clear sublist
    induction names generalizing opened with
    | nil =>
      obtain rfl : opened = [] := Option.some.inj nested
      rfl
    | cons name names ih =>
      cases opened with
      | nil => cases nested
      | cons innermost opened =>
        rw [List.map_cons, Html.nest] at nested
        split at nested
        · rw [List.length_cons, List.length_cons, ih nested]
        · cases nested
  · rintro rfl
    have stops := @Html.nest_stops voidTags.contains names []
    rwa [List.append_nil] at stops

theorem Finished.nested_iff (finished : Finished options input o m) (whole : Whole options input) :
    Nested o.finish.html ↔
      o.opened = [] ∨ len o.out + endTagsSize o.opened < maxSanitizeOutputBytes := by
  have balanced : Nested o.finish.html ↔ Html.Balanced voidTags.contains (markup o m).tags := by
    unfold Nested
    rw [finished.read]
    refine ⟨fun ⟨tokens, same, nested⟩ => ?_, fun nested => ⟨_, rfl, ?_⟩⟩
    · obtain rfl := Option.some.inj same
      rwa [readTags_tokens] at nested
    · rwa [readTags_tokens]
  rw [balanced, Html.Balanced, Finished.tags_markup, Html.nest_append,
    finished.represents.nested whole, Option.bind_some, nest_stops_nil (closed_sublist _ _),
    closed_eq_iff]

theorem le_foldr_max {n : Nat} {sizes : List Nat} (mem : n ∈ sizes) : n ≤ sizes.foldr max 0 := by
  induction sizes with
  | nil => cases mem
  | cons first sizes ih =>
    rw [List.foldr_cons]
    rcases List.mem_cons.mp mem with rfl | mem
    · exact le_max_left _ _
    · exact (ih mem).trans (le_max_right _ _)

theorem le_longestRun {text : List Char} (mem : .text text ∈ inputPieces input) :
    len (pushText text) ≤ longestRun input :=
  le_foldr_max (List.mem_map.mpr ⟨.text text, mem, rfl⟩)

theorem emit_within_iff {extra : Nat} {found : List Piece}
    (runs : ∀ text, .text text ∈ found → len (pushText text) ≤ extra)
    (room : len o.out ≤ maxSanitizeOutputBytes + extra) (done : o.emit options found = some o') :
    len o'.out ≤ maxSanitizeOutputBytes + extra ↔ o.Within options extra found := by
  induction found generalizing o with
  | nil =>
    cases done
    exact iff_of_true room trivial
  | cons piece found ih =>
    rw [Output.emit] at done
    by_cases full : len o.out ≥ maxSanitizeOutputBytes
    · rw [if_pos full] at done
      cases done
      exact iff_of_true room fun room => absurd full (Nat.not_le.mpr room)
    · rw [if_neg full] at done
      obtain ⟨o'', applied, done⟩ := Option.bind_eq_some_iff.mp done
      have longer := Output.emit_longer done
      have later := fun text mem => runs text (List.mem_cons_of_mem _ mem)
      constructor
      · intro bounded _ o₂ same
        obtain rfl := Option.some.inj (applied.symm.trans same)
        exact ⟨fun _ => longer.trans bounded, (ih later (longer.trans bounded) done).mp bounded⟩
      · intro within
        obtain ⟨tags, within⟩ := within (Nat.lt_of_not_le full) o'' applied
        refine (ih later ?_ done).mpr within
        cases piece with
        | tag tag => exact tags trivial
        | text text =>
          -- a text is added to an output that is not full
          obtain rfl : { o with out := o.out ++ pushText text } = o'' := Option.some.inj applied
          have short := runs text List.mem_cons_self
          rw [len_append]
          omega

theorem closed_full
    (full : maxSanitizeOutputBytes ≤ len out) :
    closed opened out = [] := by
  induction opened with
  | nil => rfl
  | cons name rest ih => rw [closed, if_neg (by omega), ih]

theorem closed_below
    (room : len out < maxSanitizeOutputBytes) :
    len out + endTagsSize (closed opened out) < maxSanitizeOutputBytes := by
  induction opened generalizing out with
  | nil => exact room
  | cons name rest ih =>
    rw [closed]
    split
    next fits =>
      have longer : len (out ++ closing name) = len out + (len name + 3) := by
        rw [len_append, len_closing]
      have total : endTagsSize (name :: closed rest (out ++ closing name)) =
          len name + 3 + endTagsSize (closed rest (out ++ closing name)) := List.sum_cons
      have later := @ih (out ++ closing name) (by omega)
      omega
    · exact ih room

theorem Finished.bounded_iff (finished : Finished options input o m) :
    Bounded input o.finish.html ↔ Within options input := by
  have total : len o.finish.html = len o.out + endTagsSize (closed o.opened o.out) := by
    rw [len_eq, finish_eq, size_append, endTags_size, ← len_eq]
  rw [Within, ← emit_within_iff (fun _ mem => le_longestRun mem) (Nat.zero_le _) finished.emitted,
    Bounded, total]
  by_cases full : maxSanitizeOutputBytes ≤ len o.out
  · rw [closed_full full]
    exact Iff.rfl
  · have below := @closed_below o.opened o.out (Nat.lt_of_not_le full)
    exact iff_of_true (by omega) (by omega)

/-- The output is balanced and within its limit as long as there is room for each start tag, for the
end tags at the end, and for each tag that is written. -/
theorem output_nested_iff (input : String) (options : SanitizeOptions) (outcome : SanitizeOutcome)
    (done : sanitizeHtml input options = some outcome) (whole : Whole options input) :
    Nested outcome.html ∧ Bounded input outcome.html ↔
      Closes options input ∧ Within options input := by
  obtain ⟨o, m, rfl, finished⟩ := Finished.of_sanitizeHtml done
  rw [finished.nested_iff whole, finished.bounded_iff]
  refine and_congr_left' ⟨fun room o' emitted => ?_, fun closes => closes o finished.emitted⟩
  obtain rfl := Option.some.inj (finished.emitted.symm.trans emitted)
  exact room

theorem output_nested_paragraph :
    Nested "<p>x<b>y</b></p>" ∧ Bounded "<p>x<b>y" "<p>x<b>y</b></p>" ↔
      Closes .default "<p>x<b>y" ∧ Within .default "<p>x<b>y" :=
  have done : sanitizeHtml "<p>x<b>y" .default = some
      { html := "<p>x<b>y</b></p>"
        remoteImagesBlocked := 0 } := by decide +kernel
  output_nested_iff "<p>x<b>y" .default _ done (whole_of_short done (by decide))

def boldText (n : Nat) : List Char := "<b>".toList ++ List.replicate (n + 1) '>'

theorem pushTextFrom_closing (n : Nat) :
    size (pushTextFrom 0 (List.replicate n '>')) = 4 * n := by
  induction n with
  | zero => rfl
  | succ n ih =>
    have four : size "&gt;".toList = 4 := by decide
    rw [List.replicate_succ, pushTextFrom, if_neg (by decide), if_pos rfl, size_append, ih, four]
    omega

theorem pieces_boldText (n : Nat) : pieces none (boldText n) =
    [.tag (again (.start "b" [])), .text (List.replicate (n + 1) '>')] := by
  have readable : Readable (.start "b" []) := ⟨by decide, by decide, by decide⟩
  have text : boldText n = (Html.Tag.start "b" []).render ++ List.replicate (n + 1) '>' := rfl
  have plain : '<' ∉ List.replicate (n + 1) '>' := fun mem =>
    absurd (List.eq_of_mem_replicate mem) (by decide)
  have last := @pieces_text _ plain [] (fun c mem => by cases mem)
  have nothing : pieces none [] = [] := pieces_none rfl
  rw [List.append_nil, nothing] at last
  rw [text, pieces_tag readable, last]
  rfl

theorem size_replicate (n : Nat) : size (List.replicate n '>') = n := by
  have one : '>'.utf8Size = 1 := by decide
  induction n with
  | zero => rfl
  | succ n ih =>
    rw [List.replicate_succ, size_cons, ih, one]
    omega

theorem boldText_not_nested {n : Nat} (full : maxSanitizeOutputBytes ≤ 4 * (n + 1) + 3)
    (fits : size (boldText n) ≤ min maxSanitizeInputBytes maxHtmlBytes) :
    ∃ outcome, sanitizeHtml (String.ofList (boldText n)) .default = some outcome ∧
      ¬ Nested outcome.html := by
  let text := List.replicate (n + 1) '>'
  let first : Output :=
    { out := "<b>"
      opened := ["b"]
      blocked := 0 }
  let o : Output := { first with out := first.out ++ pushText text }
  have long : maxSanitizeOutputBytes ≤ len o.out := by
    have three : len first.out = 3 := by decide
    rw [len_append, len_eq (pushText _), pushText, String.toList_ofList, pushTextFrom_closing]
    omega
  have emitted : Output.initial.emit .default (pieces none (boldText n)) = some o := by
    have started : Output.initial.apply .default (.tag (again (.start "b" []))) = some first := rfl
    have room : ¬ len first.out ≥ maxSanitizeOutputBytes := by decide
    rw [pieces_boldText, Output.emit, if_neg (by decide), started, Option.bind_some, Output.emit,
      if_neg room]
    rfl
  have finished : sanitizeHtml (String.ofList (boldText n)) .default = some o.finish := by
    rw [sanitizeHtml_eq, String.toList_ofList, truncateOnCharBoundary_eq fits]
    exact congrArg (Option.map Output.finish) emitted
  refine ⟨_, finished, ?_⟩
  rintro ⟨tokens, read, balanced⟩
  let m : Html.Markup :=
    { segments := [([], .start "b" [])]
      last := (pushText text).toList }
  have clean : m.Clean := by
    refine ⟨fun segment mem => ?_, (pushText_settled text).no_tag⟩
    obtain rfl := List.mem_singleton.mp mem
    exact ⟨List.not_mem_nil, by decide⟩
  have html : o.finish.html.toList = m.render := by
    have start : first.out.toList = (Html.Tag.start "b" []).render := by decide
    rw [finish_eq, closed_full long, List.map_nil, List.flatMap_nil, List.append_nil,
      String.toList_append, start]
    simp [Html.Markup.render, m]
  rw [html, Html.read_render clean] at read
  obtain rfl := Option.some.inj read
  rw [readTags_tokens] at balanced
  have unclosed : ¬ Html.Balanced voidTags.contains [.start "b" []] := by decide
  exact unclosed balanced

/-- The text fills the output, and then there is no room for the end tag. -/
theorem end_tag_left_out : ∃ outcome,
    sanitizeHtml (String.ofList (boldText 1310719)) .default = some outcome ∧
      ¬ Nested outcome.html :=
  boldText_not_nested (by decide) (by
    have three : size "<b>".toList = 3 := by decide
    have limit : 3 + (1310719 + 1) ≤ min maxSanitizeInputBytes maxHtmlBytes := by decide
    rw [boldText, size_append, size_replicate, three]
    exact limit)

end MailStack.Webmail.Sanitize
