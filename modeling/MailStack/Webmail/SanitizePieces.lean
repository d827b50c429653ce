import MailStack.Webmail.Sanitize

/-! What the sanitizer finds in its input does not depend on what it has written: the input is a
sequence of texts and tags, and the output is put together from these. -/

namespace MailStack.Webmail.Sanitize

open Lib

theorem skipWhitespace_suffix (rest : List Char) : skipWhitespace rest <:+ rest :=
  List.dropWhile_suffix _

/-- What a loop over a text leaves, if it leaves less. -/
def Shorter (rest' rest : List Char) : Prop := rest' <:+ rest ∧ rest'.length < rest.length

variable {rest rest' : List Char} {skip skip' : Option SkipState} {options : SanitizeOptions}
  {piece : Option Piece} {isEnd closes : Bool} {c : Char}

theorem Shorter.tail (suffix : rest' <:+ rest) :
    Shorter rest' (c :: rest) :=
  ⟨suffix.trans (List.suffix_cons c rest), Nat.lt_succ_of_le suffix.length_le⟩

theorem Shorter.of_suffix {rest rest' rest'' : List Char} (shorter : Shorter rest'' rest')
    (suffix : rest' <:+ rest) : Shorter rest'' rest :=
  ⟨shorter.1.trans suffix, Nat.lt_of_lt_of_le shorter.2 suffix.length_le⟩

theorem Shorter.suffix (shorter : Shorter rest' rest) : rest' <:+ rest :=
  shorter.1

theorem splitOnceChars_shorter {rest before after : List Char}
    (split : splitOnceChars c rest = some (before, after)) : Shorter after rest := by
  obtain ⟨rfl, -⟩ := splitOnceChars_eq_some split
  refine ⟨⟨before ++ [c], by simp⟩, ?_⟩
  simp only [List.length_append, List.length_cons]
  omega

theorem attributeValue_suffix {rest after : List Char} {value : String}
    (read : attributeValue rest = some (value, after)) : after <:+ rest := by
  cases rest with
  | nil => cases read
  | cons c rest =>
    rw [attributeValue] at read
    split at read
    · obtain ⟨⟨before, left⟩, split, eq⟩ := Option.map_eq_some_iff.mp read
      cases eq
      exact (splitOnceChars_shorter split).suffix.trans (List.suffix_cons c rest)
    · cases read
      exact List.dropWhile_suffix _

variable {attributes attributes' : List (String × String)}

/-- A round of the loop over the attributes takes something away. -/
theorem attributeStep_shorter {isEnd : Bool}
    (step : attributeStep isEnd (attributes, rest) = .inl (attributes', rest')) :
    Shorter rest' rest := by
  have skipped := skipWhitespace_suffix rest
  unfold attributeStep at step
  simp only at step
  generalize skipWhitespace rest = text at step skipped
  cases text with
  | nil => cases step
  | cons c more =>
    refine Shorter.of_suffix ?_ skipped
    simp only at step
    split_ifs at step with closes closesItself endTag noName
    · cases step
      exact .tail (List.suffix_refl _)
    · -- the name takes at least its first character away
      have isName : isAttributeNameChar c = true := by simpa using noName
      have named : (c :: more).dropWhile isAttributeNameChar <:+ more := by
        rw [List.dropWhile_cons_of_pos isName]
        exact List.dropWhile_suffix _
      have after := (skipWhitespace_suffix _).trans named
      split at step
      next value eq =>
        rw [eq] at after
        cases read : attributeValue (skipWhitespace value) with
        | none =>
          rw [read] at step
          cases step
        | some found =>
          obtain ⟨text, left⟩ := found
          rw [read] at step
          cases step
          have inner := (attributeValue_suffix read).trans (skipWhitespace_suffix value)
          exact .tail (inner.trans ((List.suffix_cons _ _).trans after))
      · cases step
        exact .tail after

theorem attributeStep_ends
    (step : attributeStep isEnd (attributes, rest) = .inr (some (attributes', closes, rest'))) :
    Shorter rest' rest := by
  have skipped := skipWhitespace_suffix rest
  unfold attributeStep at step
  simp only at step
  generalize skipWhitespace rest = text at step skipped
  cases text with
  | nil => cases step
  | cons c more =>
    refine Shorter.of_suffix ?_ skipped
    simp only at step
    split_ifs at step
    · cases step
      exact .tail (List.suffix_refl _)
    · cases step
      exact .tail (List.drop_suffix _ _)
    · obtain ⟨⟨before, left⟩, split, eq⟩ := Option.map_eq_some_iff.mp (Sum.inr.inj step)
      cases eq
      exact splitOnceChars_shorter split
    · split at step
      · split at step
        · cases step
        · cases step
      · cases step

theorem attributeStep_lowers (isEnd : Bool) :
    Lowers (attributeStep isEnd) (fun s => s.2.length) fun _ => True :=
  fun _ _ _ step => ⟨trivial, (attributeStep_shorter step).2⟩

/-- The loop over the attributes from any round on. -/
def attributesFrom (isEnd : Bool) (s : List (String × String) × List Char) : Option TagRest :=
  loop (attributeStep isEnd) none (fun s => s.2.length) s

theorem attributesFrom_eq (isEnd : Bool) (s : List (String × String) × List Char) :
    attributesFrom isEnd s = (attributeStep isEnd s).elim (attributesFrom isEnd) id :=
  loop_eq none (attributeStep_lowers isEnd) trivial

theorem attributesFrom_shorter
    (read : attributesFrom isEnd (attributes, rest) = some (attributes', closes, rest')) :
    Shorter rest' rest := by
  induction size : rest.length using Nat.strong_induction_on generalizing attributes rest with
  | h n ih =>
    subst size
    rw [attributesFrom_eq] at read
    cases step : attributeStep isEnd (attributes, rest) with
    | inl s =>
      obtain ⟨attributes'', rest''⟩ := s
      rw [step] at read
      have shorter := attributeStep_shorter step
      exact (ih _ shorter.2 read rfl).of_suffix shorter.suffix
    | inr ended =>
      rw [step] at read
      obtain rfl : ended = some (attributes', closes, rest') := read
      exact attributeStep_ends step

theorem parseTag_shorter {tag : Tag}
    (parsed : parseTag rest = some (tag, rest')) : Shorter rest' rest := by
  unfold parseTag at parsed
  split at parsed
  next text =>
    have named : (if text.head? = some '/' then text.drop 1 else text) <:+ text := by
      split
      · exact List.drop_suffix _ _
      · exact List.suffix_refl _
    dsimp only at parsed
    generalize (if text.head? = some '/' then text.drop 1 else text) = inner at parsed named
    split at parsed
    · cases parsed
    · obtain ⟨⟨attributes, closes, left⟩, read, eq⟩ := Option.map_eq_some_iff.mp parsed
      cases eq
      exact .tail (((attributesFrom_shorter read).suffix.trans (List.dropWhile_suffix _)).trans named)
  · cases parsed

/-- What the loop finds outside elements that are skipped. -/
inductive Piece
  | text (text : List Char)
  | tag (tag : Tag)

def Tag.skips (tag : Tag) : Option SkipState :=
  if !tag.isEnd && dropWithContentTags.contains tag.name && !voidElements.contains tag.name &&
      !tag.selfClosing then
    some { name := tag.name, depth := 1 }
  else none

/-- What one round of the loop finds, what is skipped after it, and what is left to read. -/
def scan : Option SkipState → List Char → Option (Option Piece × Option SkipState × List Char)
  | _, [] => none
  | some state, c :: more =>
    if c ≠ '<' then
      match (c :: more).dropWhile (· ≠ '<') with
      | [] => none
      | rest => some (none, some state, rest)
    else (parseTag (c :: more)).map fun (tag, rest) => (none, state.after tag, rest)
  | none, c :: more =>
    if c ≠ '<' then
      some (some (.text ((c :: more).takeWhile (· ≠ '<'))), none, (c :: more).dropWhile (· ≠ '<'))
    else if "<!--".toList <+: c :: more then
      (splitOnceAt "-->".toList ((c :: more).drop 4)).map fun (_, rest) => (none, none, rest)
    else if "<!".toList <+: c :: more ∨ "<?".toList <+: c :: more then
      (splitOnceChars '>' (c :: more)).map fun (_, rest) => (none, none, rest)
    else
      match parseTag (c :: more) with
      | none => some (some (.text ['<']), none, more)
      | some (tag, rest) => some (some (.tag tag), tag.skips, rest)

theorem splitOnceAt_suffix {sep rest before after : List Char}
    (split : splitOnceAt sep rest = some (before, after)) : after <:+ rest := by
  induction rest generalizing before with
  | nil =>
    rw [splitOnceAt] at split
    split at split
    · cases split
      exact List.suffix_refl _
    · cases split
  | cons c rest ih =>
    rw [splitOnceAt] at split
    split at split
    · cases split
      exact List.drop_suffix _ _
    · obtain ⟨⟨start, left⟩, later, eq⟩ := Option.map_eq_some_iff.mp split
      cases eq
      exact (ih later).trans (List.suffix_cons c rest)

theorem dropWhile_shorter {more : List Char} (other : c ≠ '<') :
    Shorter ((c :: more).dropWhile (· ≠ '<')) (c :: more) := by
  rw [List.dropWhile_cons_of_pos (by simpa using other)]
  exact .tail (List.dropWhile_suffix _)

theorem scan_shorter
    (found : scan skip rest = some (piece, skip', rest')) :
    Shorter rest' rest := by
  cases rest with
  | nil => cases skip <;> cases found
  | cons c more =>
    cases skip with
    | some state =>
      rw [scan] at found
      split at found
      next other =>
        have shorter := @dropWhile_shorter _ more other
        split at found
        · cases found
        · cases found
          exact shorter
      · obtain ⟨⟨tag, left⟩, parsed, eq⟩ := Option.map_eq_some_iff.mp found
        cases eq
        exact parseTag_shorter parsed
    | none =>
      rw [scan] at found
      split_ifs at found with other comment declaration
      · cases found
        exact dropWhile_shorter other
      · obtain ⟨⟨before, left⟩, split, eq⟩ := Option.map_eq_some_iff.mp found
        cases eq
        exact .tail ((splitOnceAt_suffix split).trans (List.drop_suffix 3 more))
      · obtain ⟨⟨before, left⟩, split, eq⟩ := Option.map_eq_some_iff.mp found
        cases eq
        exact splitOnceChars_shorter split
      · split at found
        · cases found
          exact .tail (List.suffix_refl _)
        next parsed =>
          cases found
          exact parseTag_shorter parsed

/-- All that the loop finds. -/
def pieces (skip : Option SkipState) (rest : List Char) : List Piece :=
  match _found : scan skip rest with
  | none => []
  | some (piece, skip', rest') => piece.toList ++ pieces skip' rest'
termination_by rest.length
decreasing_by exact (scan_shorter ‹_›).2

theorem pieces_none {skip : Option SkipState} {rest : List Char} (nothing : scan skip rest = none) :
    pieces skip rest = [] := by
  rw [pieces]
  split
  · rfl
  next found =>
    rw [nothing] at found
    cases found

theorem pieces_some
    (found : scan skip rest = some (piece, skip', rest')) :
    pieces skip rest = piece.toList ++ pieces skip' rest' := by
  rw [pieces]
  split
  next nothing =>
    rw [found] at nothing
    cases nothing
  next eq =>
    rw [found] at eq
    cases eq
    rfl

namespace Output

def apply (options : SanitizeOptions) (o : Output) : Piece → Option Output
  | .text text => some { o with out := o.out ++ pushText text }
  | .tag tag => (o.tag options tag).map (·.1)

/-- The pieces are written until the output has its limit. -/
def emit (options : SanitizeOptions) : Output → List Piece → Option Output
  | o, [] => some o
  | o, piece :: rest =>
    if len o.out ≥ maxSanitizeOutputBytes then some o
    else (o.apply options piece).bind fun o => emit options o rest

theorem tag_skip {o o' : Output} {tag : Tag} {skip : Option SkipState}
    (done : o.tag options tag = some (o', skip)) : skip = tag.skips := by
  unfold Output.tag at done
  unfold Tag.skips
  split_ifs at done with isEnd void drops skipped other
  all_goals simp_all

theorem emit_full {o : Output}
    (full : len o.out ≥ maxSanitizeOutputBytes)
    (pieces : List Piece) : o.emit options pieces = some o := by
  cases pieces with
  | nil => rfl
  | cons piece rest => rw [emit, if_pos full]

end Output

theorem step_eq (options : SanitizeOptions) (s : State) :
    step options s =
      if len s.output.out ≥ maxSanitizeOutputBytes then .inr (some s)
      else
        match scan s.skip s.rest with
        | none => .inr (some s)
        | some (none, skip, rest) => .inl { s with rest, skip }
        | some (some piece, skip, rest) =>
          match s.output.apply options piece with
          | some output => .inl { rest, skip, output }
          | none => .inr none := by
  obtain ⟨rest, skip, o⟩ := s
  cases rest with
  | nil => cases skip <;> simp [step, scan]
  | cons c more =>
    simp only [step]
    split
    · rfl
    cases skip with
    | some state =>
      simp only [scan]
      split
      · split <;> simp_all
      · cases parseTag (c :: more) with
        | none => rfl
        | some found => rfl
    | none =>
      simp only [scan]
      split
      · rfl
      · split
        · cases splitOnceAt "-->".toList ((c :: more).drop 4) with
          | none => rfl
          | some found => rfl
        · split
          · cases splitOnceChars '>' (c :: more) with
            | none => rfl
            | some found => rfl
          · cases parseTag (c :: more) with
            | none => rfl
            | some found =>
              obtain ⟨tag, rest⟩ := found
              simp only [Output.apply]
              cases done : o.tag options tag with
              | none => rfl
              | some next =>
                obtain ⟨output, skip⟩ := next
                rw [Output.tag_skip done]
                rfl

theorem step_lowers (options : SanitizeOptions) :
    Lowers (step options) (fun s => s.rest.length) fun _ => True := by
  intro s s' _ next
  refine ⟨trivial, ?_⟩
  rw [step_eq] at next
  split at next
  · cases next
  · split at next
    · cases next
    next found =>
      cases next
      exact (scan_shorter found).2
    next found =>
      split at next
      · cases next
        exact (scan_shorter found).2
      · cases next

theorem loop_eq_emit (options : SanitizeOptions) (s : State) :
    (loop (step options) none (fun s => s.rest.length) s).map (·.output) =
      s.output.emit options (pieces s.skip s.rest) := by
  induction size : s.rest.length using Nat.strong_induction_on generalizing s with
  | h n ih =>
    subst size
    rw [loop_eq none (step_lowers options) trivial, step_eq]
    by_cases full : len s.output.out ≥ maxSanitizeOutputBytes
    · rw [if_pos full, Output.emit_full full]
      rfl
    · rw [if_neg full]
      cases found : scan s.skip s.rest with
      | none =>
        rw [pieces_none found]
        rfl
      | some next =>
        obtain ⟨piece, skip, rest⟩ := next
        have shorter := (scan_shorter found).2
        rw [pieces_some found]
        cases piece with
        | none => exact ih _ shorter { s with rest, skip } rfl
        | some piece =>
          rw [Option.toList_some, List.singleton_append, Output.emit, if_neg full]
          simp only
          cases s.output.apply options piece with
          | none => rfl
          | some output => exact ih _ shorter { rest, skip, output } rfl

theorem sanitizeHtml_eq (input : String) (options : SanitizeOptions) :
    sanitizeHtml input options =
      (Output.emit options { out := "", opened := [], blocked := 0 }
        (pieces none (truncateOnCharBoundary (min maxSanitizeInputBytes maxHtmlBytes)
          input.toList))).map (·.finish) := by
  have written := congrArg (Option.map Output.finish) (loop_eq_emit options (.initial input))
  rw [Option.map_map] at written
  exact written

end MailStack.Webmail.Sanitize
