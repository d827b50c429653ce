import Mathlib.Data.List.SplitBy
import MailStack.Lib.Text

/-! The fields of the header section of a text. A line that starts with a blank or a tab goes on
with the field before it, and the first line that is empty ends the section. -/

namespace MailStack.Lib

def dropCr (line : List Char) : List Char :=
  if line.getLast? = some '\r' then line.dropLast else line

/-- The lines of a text, each without its line end. -/
def textLines (text : List Char) : List (List Char) := (text.splitOn '\n').map dropCr

def headerLines (text : List Char) : List (List Char) :=
  (textLines text).takeWhile fun line => !line.isEmpty

def isFolded (line : List Char) : Bool := line.head? = some ' ' || line.head? = some '\t'

/-- The fields of a text, each as its lines. -/
def headerFields (text : List Char) : List (List (List Char)) :=
  (headerLines text).splitBy fun _ next => isFolded next

/-- The text is one field: no line but the first starts a field or ends the section. -/
def IsField (text : List Char) : Prop := ∀ line ∈ (textLines text).tail, isFolded line = true

instance (text : List Char) : Decidable (IsField text) :=
  inferInstanceAs (Decidable (∀ line ∈ (textLines text).tail, isFolded line = true))

/-- The fields with a line end after each. -/
def writtenFields (fields : List (List Char)) : List Char :=
  fields.flatMap fun field => field ++ ['\r', '\n']

/-- Each line feed of a text is followed by a blank or a tab. -/
@[grind =] def breaksFold : List Char → Bool
  | [] => true
  | c :: rest => (c != '\n' || isFolded rest) && breaksFold rest

theorem isFolded_iff {line : List Char} :
    isFolded line = true ↔ ∃ c rest, line = c :: rest ∧ (c = ' ' ∨ c = '\t') := by
  cases line with
  | nil => simp [isFolded]
  | cons c rest => simp [isFolded]

theorem textLines_append_cons (before after : List Char) :
    textLines (before ++ '\n' :: after) = textLines before ++ textLines after := by
  rw [textLines, List.splitOn_append_cons_self, List.map_append]
  rfl

theorem textLines_of_not_mem {text : List Char} (none : '\n' ∉ text) :
    textLines text = [dropCr text] := by
  rw [textLines, List.splitOn_eq_singleton none]
  rfl

/-- The CR before a line end belongs to no line. -/
theorem textLines_append_cr {text : List Char} (last : text.getLast? ≠ some '\r') :
    textLines (text ++ ['\r']) = textLines text := by
  by_cases mem : '\n' ∈ text
  · obtain ⟨before, after, rfl, -⟩ := List.eq_append_cons_of_mem mem
    have last' : after.getLast? ≠ some '\r' := by
      intro ends
      rw [List.getLast?_append, List.getLast?_cons] at last
      simp [ends] at last
    rw [List.append_assoc, List.cons_append, textLines_append_cons, textLines_append_cons,
      textLines_append_cr last']
  · have none : '\n' ∉ text ++ ['\r'] := by simpa using mem
    rw [textLines_of_not_mem none, textLines_of_not_mem mem, dropCr, dropCr, if_neg last,
      if_pos (by simp), List.dropLast_concat]
termination_by text.length
decreasing_by
  subst_vars
  simp only [List.length_append, List.length_cons]
  omega

variable {fields : List (List Char)} {text : List Char}

theorem textLines_written (last : ∀ field ∈ fields, field.getLast? ≠ some '\r') (rest : List Char) :
    textLines (writtenFields fields ++ rest) = fields.flatMap textLines ++ textLines rest := by
  induction fields with
  | nil => rfl
  | cons field fields ih =>
    have step : writtenFields (field :: fields) ++ rest =
        (field ++ ['\r']) ++ '\n' :: (writtenFields fields ++ rest) := by
      simp [writtenFields]
    rw [step, textLines_append_cons, textLines_append_cr (last field List.mem_cons_self),
      ih fun f mem => last f (List.mem_cons_of_mem _ mem), List.flatMap_cons, List.append_assoc]

/-- A text is one field just when its line feeds are folds. -/
theorem isField_iff : IsField text ↔ breaksFold text = true := by
  have folded : ∀ rest : List Char, ∀ line lines, textLines rest = line :: lines →
      isFolded line = isFolded rest := by
    intro rest line lines eq
    cases rest with
    | nil =>
      cases eq
      rfl
    | cons c rest =>
      rw [textLines, List.splitOn_cons_eq_if_modifyHead] at eq
      cases parts : rest.splitOn '\n' with
      | nil => exact absurd parts (List.splitOn_ne_nil _ _)
      | cons first others =>
        rw [parts] at eq
        by_cases lf : c = '\n'
        · subst lf
          cases eq
          rfl
        · rw [if_neg (by simpa using lf), List.modifyHead_cons, List.map_cons] at eq
          obtain ⟨rfl, -⟩ := List.cons.inj eq
          unfold dropCr
          split_ifs with last
          · cases first with
            | nil =>
              obtain rfl : c = '\r' := by simpa using last
              rfl
            | cons d first => rfl
          · rfl
  induction text with
  | nil => decide
  | cons c rest ih =>
    obtain ⟨line, lines, eq⟩ : ∃ line lines, textLines rest = line :: lines := by
      cases eq : textLines rest with
      | nil => exact absurd (List.map_eq_nil_iff.mp eq) (List.splitOn_ne_nil _ _)
      | cons line lines => exact ⟨line, lines, rfl⟩
    by_cases lf : c = '\n'
    · subst lf
      have split : textLines ('\n' :: rest) = [] :: line :: lines := by
        rw [← eq]
        exact textLines_append_cons [] rest
      have later : (∀ l ∈ lines, isFolded l = true) ↔ breaksFold rest = true := by
        refine Iff.trans ?_ ih
        rw [IsField, eq, List.tail_cons]
      rw [IsField, split, List.tail_cons, List.forall_mem_cons, folded rest line lines eq, later]
      simp [breaksFold]
    · have tail : (textLines (c :: rest)).tail = (textLines rest).tail := by
        rw [textLines, textLines, List.splitOn_cons_eq_if_modifyHead, if_neg (by simpa using lf)]
        cases parts : rest.splitOn '\n' with
        | nil => exact absurd parts (List.splitOn_ne_nil _ _)
        | cons first others => rfl
      have same : breaksFold (c :: rest) = breaksFold rest := by simp [breaksFold, lf]
      rw [IsField, tail, same]
      exact ih

theorem breaksFold_of_not_mem (none : '\n' ∉ text) : breaksFold text = true := by
  induction text with
  | nil => rfl
  | cons c rest ih =>
    obtain ⟨here, later⟩ := not_or.mp (List.mem_cons.not.mp none)
    simp [breaksFold, ih later, Ne.symm here]

/-- Where the first text does not end in a line feed, the two fold apart. -/
theorem breaksFold_append {before after : List Char} (last : before.getLast? ≠ some '\n') :
    breaksFold (before ++ after) = (breaksFold before && breaksFold after) := by
  induction before with
  | nil => rfl
  | cons c before ih =>
    cases before with
    | nil =>
      have other : (c != '\n') = true := by simpa using last
      simp only [List.cons_append, List.nil_append, breaksFold, other, Bool.true_or, Bool.true_and,
        Bool.and_true]
    | cons d before =>
      have same : isFolded (d :: before ++ after) = isFolded (d :: before) := rfl
      rw [List.cons_append, breaksFold, same, ih (by simpa using last), ← Bool.and_assoc]
      rfl

/-- Each field starts with a line that shows that it does. -/
def StartsField (text : List Char) : Prop :=
  ∃ first rest, textLines text = first :: rest ∧ first ≠ [] ∧ isFolded first = false

theorem isChain_folded {first : List Char} {others : List (List Char)} :
    (first :: others).IsChain (fun _ next => isFolded next = true) ↔
      ∀ line ∈ others, isFolded line = true := by
  induction others generalizing first with
  | nil => simp
  | cons line others ih => rw [List.isChain_cons_cons, ih, List.forall_mem_cons]

/-- The first line of a text that starts with characters that break no line. -/
theorem textLines_of_start {start : List Char} (unbroken : '\n' ∉ start) {c : Char}
    (plain : c ≠ '\n' ∧ c ≠ '\r') (rest : List Char) :
    ∃ later others, textLines (start ++ c :: rest) = (start ++ c :: later) :: others := by
  have split : ∃ first others,
      (start ++ c :: rest).splitOn '\n' = (start ++ c :: first) :: others := by
    induction start with
    | nil =>
      rw [List.nil_append, List.splitOn_cons_eq_if_modifyHead, if_neg (by simpa using plain.1)]
      cases parts : rest.splitOn '\n' with
      | nil => exact absurd parts (List.splitOn_ne_nil _ _)
      | cons first others => exact ⟨first, others, rfl⟩
    | cons d start ih =>
      obtain ⟨here, unbroken⟩ := not_or.mp (List.mem_cons.not.mp unbroken)
      obtain ⟨first, others, parts⟩ := ih unbroken
      rw [List.cons_append, List.splitOn_cons_eq_if_modifyHead, if_neg (by simpa using Ne.symm here),
        parts]
      exact ⟨first, others, rfl⟩
  obtain ⟨first, others, parts⟩ := split
  rw [textLines, parts, List.map_cons, dropCr]
  split_ifs with last
  · rcases List.eq_nil_or_concat first with rfl | ⟨before, d, rfl⟩
    · exact absurd (by simpa using last) plain.2
    · refine ⟨before, _, congrArg (· :: _) ?_⟩
      rw [List.concat_eq_append, ← List.cons_append, ← List.append_assoc, List.dropLast_concat]
  · exact ⟨first, _, rfl⟩

/-- What is written as single fields, with an empty line after them, is split into these. -/
theorem headerFields_written {rest : List Char}
    (last : ∀ field ∈ fields, field.getLast? ≠ some '\r')
    (starts : ∀ field ∈ fields, StartsField field) (single : ∀ field ∈ fields, IsField field) :
    headerFields (writtenFields fields ++ '\r' :: '\n' :: rest) = fields.map textLines := by
  have nonempty : ∀ line ∈ fields.flatMap textLines, (!line.isEmpty) = true := by
    intro line mem
    obtain ⟨field, inside, mem⟩ := List.mem_flatMap.mp mem
    obtain ⟨first, others, eq, some, -⟩ := starts field inside
    have folded := single field inside
    rw [IsField, eq] at folded
    rw [eq] at mem
    rcases List.mem_cons.mp mem with rfl | mem
    · simpa using some
    · obtain ⟨c, cs, rfl, -⟩ := isFolded_iff.mp (folded line mem)
      rfl
  have ended : textLines ('\r' :: '\n' :: rest) = [] :: textLines rest := by
    rw [show '\r' :: '\n' :: rest = ['\r'] ++ '\n' :: rest from rfl, textLines_append_cons]
    rfl
  have lines : headerLines (writtenFields fields ++ '\r' :: '\n' :: rest) =
      (fields.map textLines).flatten := by
    rw [headerLines, textLines_written last, ended, List.takeWhile_append_of_pos nonempty,
      List.flatMap_def]
    simp
  rw [headerFields, lines]
  refine List.splitBy_eq_iff.mpr ⟨rfl, ?_, ?_, ?_⟩
  · intro none
    obtain ⟨field, inside, eq⟩ := List.mem_map.mp none
    obtain ⟨first, others, eq', -⟩ := starts field inside
    rw [eq] at eq'
    cases eq'
  · intro lines mem
    obtain ⟨field, inside, rfl⟩ := List.mem_map.mp mem
    obtain ⟨first, others, eq, -⟩ := starts field inside
    have folded := single field inside
    rw [IsField, eq] at folded
    rw [eq]
    exact isChain_folded.mpr folded
  · refine (List.pairwise_of_forall_mem_list fun lines mem lines' mem' => ?_).isChain
    obtain ⟨field, inside, rfl⟩ := List.mem_map.mp mem
    obtain ⟨field', inside', rfl⟩ := List.mem_map.mp mem'
    obtain ⟨first, others, eq, -⟩ := starts field inside
    obtain ⟨first', others', eq', -, unfolded⟩ := starts field' inside'
    exact ⟨by simp [eq], by simp [eq'], by simpa [eq'] using unfolded⟩

/-- What is split into the written fields was written as single fields. -/
theorem isField_of_headerFields
    (split : headerFields text = fields.map textLines) {field : List Char} (mem : field ∈ fields) :
    IsField field := by
  have chain := List.isChain_of_mem_splitBy
    (split ▸ List.mem_map_of_mem mem : textLines field ∈ headerFields text)
  unfold IsField
  cases eq : textLines field with
  | nil => exact fun _ inside => absurd inside List.not_mem_nil
  | cons first others =>
    rw [eq] at chain
    exact isChain_folded.mp chain

end MailStack.Lib
