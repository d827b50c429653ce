import Mathlib.Data.List.Basic

/-! The lexical structure of a header field: quoted strings, comments within comments, and the
semicolons between sections that are in neither. -/

namespace MailStack.Lib

/-- Where in a field a character stands. A backslash takes the character after it along. -/
inductive Mode
  | plain
  | quoted
  | quotedPair
  /-- `depth` comments are open around the innermost one. -/
  | comment (depth : Nat)
  | commentPair (depth : Nat)
deriving DecidableEq

namespace Mode

/-- Where the next character stands, if the field can go on like that. -/
def next : Mode → Char → Option Mode
  | plain, c =>
    if c = '"' then some quoted
    else if c = '(' then some (comment 0)
    else if c = ')' then none
    else some plain
  | quoted, c =>
    if c = '\\' then some quotedPair else if c = '"' then some plain else some quoted
  | quotedPair, _ => some quoted
  | comment depth, c =>
    if c = '\\' then some (commentPair depth)
    else if c = '(' then some (comment (depth + 1))
    else if c = ')' then some (if depth = 0 then plain else comment (depth - 1))
    else some (comment depth)
  | commentPair depth, _ => some (comment depth)

/-- The character ends a section. -/
def ends (mode : Mode) (c : Char) : Bool := mode = plain && c = ';'

/-- Where the character after a text within one section stands. -/
@[grind =] def advance : Mode → List Char → Option Mode
  | mode, [] => some mode
  | mode, c :: rest => if mode.ends c then none else (mode.next c).bind (advance · rest)

/-- The sections of a field. The first one goes on with what has been read. -/
@[grind =] def sections : Mode → List Char → Option (List (List Char))
  | mode, [] => if mode = plain then some [[]] else none
  | mode, c :: rest =>
    if mode.ends c then (sections plain rest).map ([] :: ·)
    else (mode.next c).bind fun mode => (sections mode rest).map (·.modifyHead (c :: ·))

variable {mode mode' : Mode} {text rest part : List Char} {parts : List (List Char)} {c : Char}

theorem advance_append :
    advance mode (text ++ rest) = (advance mode text).bind (advance · rest) := by
  induction text generalizing mode with
  | nil => rfl
  | cons c text ih =>
    rw [List.cons_append, advance, advance]
    split
    · rfl
    · cases mode.next c with
      | none => rfl
      | some mode' => exact ih

/-- A text within one section belongs to its first section. -/
theorem sections_append (inside : advance mode text = some mode') :
    sections mode (text ++ rest) = (sections mode' rest).map (·.modifyHead (text ++ ·)) := by
  induction text generalizing mode with
  | nil =>
    obtain rfl : mode = mode' := Option.some.inj inside
    rw [List.nil_append]
    cases sections mode rest with
    | none => rfl
    | some parts => cases parts <;> rfl
  | cons c text ih =>
    rw [advance] at inside
    split at inside
    · cases inside
    next notEnd =>
      obtain ⟨after, step, inside⟩ := Option.bind_eq_some_iff.mp inside
      rw [List.cons_append, sections, if_neg notEnd, step, Option.bind_some, ih inside]
      cases sections mode' rest with
      | none => rfl
      | some parts => cases parts <;> rfl

theorem sections_of_parts (some_ : parts ≠ [])
    (inside : ∀ part ∈ parts, advance plain part = some plain) :
    sections plain ([';'].intercalate parts) = some parts := by
  induction parts with
  | nil => exact absurd rfl some_
  | cons part parts ih =>
    have first := inside part List.mem_cons_self
    cases parts with
    | nil =>
      have alone := @sections_append _ _ _ [] first
      rw [List.append_nil] at alone
      rw [List.intercalate_singleton, alone]
      simp [sections]
    | cons second parts =>
      have later := ih (List.cons_ne_nil _ _) fun q mem => inside q (List.mem_cons_of_mem _ mem)
      rw [List.intercalate_cons_cons, List.append_assoc, sections_append first]
      have separator : sections plain ([';'] ++ [';'].intercalate (second :: parts)) =
          (sections plain ([';'].intercalate (second :: parts))).map ([] :: ·) := rfl
      rw [separator, later]
      simp

theorem advance_of_sections (split : sections mode text = some (part :: parts)) :
    advance mode part = some plain ∧ ∀ q ∈ parts, advance plain q = some plain := by
  induction text generalizing mode part parts with
  | nil =>
    rw [sections] at split
    split at split
    next isPlain =>
      cases split
      exact ⟨congrArg some isPlain, List.forall_mem_nil _⟩
    · cases split
  | cons c text ih =>
    rw [sections] at split
    split at split
    next ended =>
      obtain ⟨later, splitLater, eq⟩ := Option.map_eq_some_iff.mp split
      cases eq
      have isPlain : mode = plain := of_decide_eq_true (Bool.and_eq_true_iff.mp ended).1
      refine ⟨congrArg some isPlain, ?_⟩
      cases parts with
      | nil => exact List.forall_mem_nil _
      | cons first parts =>
        obtain ⟨head, tail⟩ := ih splitLater
        exact List.forall_mem_cons.mpr ⟨head, tail⟩
    next notEnd =>
      obtain ⟨after, step, split⟩ := Option.bind_eq_some_iff.mp split
      obtain ⟨later, splitLater, eq⟩ := Option.map_eq_some_iff.mp split
      cases later with
      | nil => cases eq
      | cons first later =>
        cases eq
        obtain ⟨head, tail⟩ := ih splitLater
        refine ⟨?_, tail⟩
        rw [advance, if_neg notEnd, step]
        exact head

/-- Written parts are read as they are just when each of them stays within its section. -/
theorem sections_eq_parts_iff (some_ : parts ≠ []) :
    sections plain ([';'].intercalate parts) = some parts ↔
      ∀ part ∈ parts, advance plain part = some plain := by
  refine ⟨fun split => ?_, sections_of_parts some_⟩
  cases parts with
  | nil => exact absurd rfl some_
  | cons part parts =>
    obtain ⟨head, tail⟩ := advance_of_sections split
    exact List.forall_mem_cons.mpr ⟨head, tail⟩

/-- A character that is part of a token, or white space. -/
def isOrdinary (c : Char) : Bool := c ≠ '"' && c ≠ '(' && c ≠ ')' && c ≠ ';' && c ≠ '\\'

theorem ordinary_iff : isOrdinary c = true ↔ c ≠ '"' ∧ c ≠ '(' ∧ c ≠ ')' ∧ c ≠ ';' ∧ c ≠ '\\' := by
  simp [isOrdinary, and_assoc]

theorem advance_ordinary (ordinary : ∀ c ∈ text, isOrdinary c = true) :
    advance plain text = some plain := by
  induction text with
  | nil => rfl
  | cons c text ih =>
    obtain ⟨quote, opened, closed, semicolon, -⟩ := ordinary_iff.mp (ordinary c List.mem_cons_self)
    rw [advance, if_neg (by simp [ends, semicolon]), next, if_neg quote, if_neg opened,
      if_neg closed]
    exact ih fun d mem => ordinary d (List.mem_cons_of_mem _ mem)

/-- Ordinary characters lead to no place outside quoted strings and comments. -/
theorem plain_of_advance_ordinary (ordinary : ∀ c ∈ text, isOrdinary c = true)
    (outside : advance mode text = some plain) : mode = plain := by
  induction text generalizing mode with
  | nil => exact Option.some.inj outside
  | cons c text ih =>
    obtain ⟨quote, opened, closed, -, backslash⟩ := ordinary_iff.mp (ordinary c List.mem_cons_self)
    have later := fun {mode : Mode} => @ih mode fun d mem => ordinary d (List.mem_cons_of_mem _ mem)
    cases mode with
    | plain => rfl
    | quoted =>
      rw [advance, if_neg (by simp [ends]), next, if_neg backslash, if_neg quote] at outside
      cases later outside
    | quotedPair => cases later outside
    | comment depth =>
      rw [advance, if_neg (by simp [ends]), next, if_neg backslash, if_neg opened, if_neg closed]
        at outside
      cases later outside
    | commentPair depth => cases later outside

/-- Between ordinary texts only what stands between them matters. -/
theorem advance_between {before after : List Char} (ordinary : ∀ c ∈ before, isOrdinary c = true)
    (ordinary' : ∀ c ∈ after, isOrdinary c = true) :
    advance plain (before ++ text ++ after) = some plain ↔ advance plain text = some plain := by
  rw [List.append_assoc, advance_append, advance_ordinary ordinary, Option.bind_some, advance_append]
  constructor
  · intro outside
    obtain ⟨mode, inside, outside⟩ := Option.bind_eq_some_iff.mp outside
    rw [inside, plain_of_advance_ordinary ordinary' outside]
  · intro inside
    rw [inside]
    exact advance_ordinary ordinary'

/-- Each closing parenthesis closes one that is open, and in the end none is open. -/
def balanced : Nat → List Char → Bool
  | depth, [] => depth = 0
  | depth, c :: rest =>
    if c = '(' then balanced (depth + 1) rest
    else if c = ')' then 0 < depth && balanced (depth - 1) rest
    else balanced depth rest

/-- So many comments are open. -/
def opened : Nat → Mode
  | 0 => plain
  | depth + 1 => comment depth

theorem advance_opened_iff {depth : Nat}
    (unquoted : ∀ c ∈ text, c ≠ ';' ∧ c ≠ '"' ∧ c ≠ '\\') :
    advance (opened depth) text = some plain ↔ balanced depth text = true := by
  induction text generalizing depth with
  | nil =>
    cases depth with
    | zero => simp [advance, opened, balanced]
    | succ depth => simp [advance, opened, balanced]
  | cons c text ih =>
    obtain ⟨semicolon, quote, backslash⟩ := unquoted c List.mem_cons_self
    have later :=
      fun {depth : Nat} => @ih depth fun d mem => unquoted d (List.mem_cons_of_mem _ mem)
    rw [advance, if_neg (by simp [ends, semicolon]), balanced]
    cases depth with
    | zero =>
      rw [opened, next, if_neg quote]
      split
      · exact @later 1
      · split
        · simp
        · exact @later 0
    | succ depth =>
      rw [opened, next, if_neg backslash]
      split
      · exact @later (depth + 2)
      · split
        · rw [Option.bind_some, Nat.add_sub_cancel, decide_eq_true (Nat.zero_lt_succ depth),
            Bool.true_and, ← later]
          cases depth with
          | zero => rfl
          | succ depth => rfl
        · exact @later (depth + 1)

/-- What a quoted string can say about the text has a backslash before each quote and backslash. -/
def escape (text : List Char) : List Char :=
  text.flatMap fun c => if c = '"' ∨ c = '\\' then ['\\', c] else [c]

theorem advance_escape : advance quoted (escape text ++ rest) = advance quoted rest := by
  induction text with
  | nil => rfl
  | cons c text ih =>
    rw [escape, List.flatMap_cons, List.append_assoc, ← escape]
    split
    · exact ih
    next plain_ =>
      obtain ⟨quote, backslash⟩ := not_or.mp plain_
      rw [List.singleton_append, advance, if_neg (by simp [ends]), next, if_neg backslash,
        if_neg quote]
      exact ih

theorem advance_quote : advance plain ('"' :: escape text ++ ['"']) = some plain :=
  advance_escape

end Mode

end MailStack.Lib
