import MailStack.Mime.Headers

/-! Lines with what ends them, and the first place of a text within another one. -/

namespace MailStack.Mime

variable {xs ys line needle : List UInt8} {position : Nat}

/-- A line: an LF ends it and stands nowhere else, or it is the last one and has none. -/
inductive IsLine : List UInt8 → Prop
  | ended {content : List UInt8} (noLf : lf ∉ content) : IsLine (content ++ [lf])
  | last {content : List UInt8} (noLf : lf ∉ content) : IsLine content

theorem flatten_splitInclusive (xs : List UInt8) : (splitInclusive xs).flatten = xs := by
  induction xs with
  | nil => rfl
  | cons x xs ih =>
    rw [splitInclusive]
    split
    · simp [ih]
    · cases eq : splitInclusive xs with
      | nil =>
        rw [eq] at ih
        simp [← ih]
      | cons line lines =>
        rw [eq] at ih
        simp [← ih]

theorem splitInclusive_ne_nil (some_ : xs ≠ []) : splitInclusive xs ≠ [] := by
  intro eq
  have flat := flatten_splitInclusive xs
  rw [eq] at flat
  exact some_ flat.symm

theorem isLine_of_mem (mem : line ∈ splitInclusive xs) : IsLine line := by
  induction xs generalizing line with
  | nil => cases mem
  | cons x xs ih =>
    rw [splitInclusive] at mem
    split at mem
    next isLf =>
      rcases List.mem_cons.mp mem with rfl | mem
      · rw [isLf]
        exact @IsLine.ended [] List.not_mem_nil
      · exact ih mem
    next notLf =>
      have more {content : List UInt8} (noLf : lf ∉ content) : lf ∉ x :: content := by
        rw [List.mem_cons, not_or]
        exact ⟨Ne.symm notLf, noLf⟩
      cases eq : splitInclusive xs with
      | nil =>
        rw [eq, List.mem_singleton] at mem
        rw [mem]
        exact IsLine.last (more List.not_mem_nil)
      | cons first lines =>
        rw [eq] at mem ih
        rcases List.mem_cons.mp mem with rfl | mem
        · cases ih List.mem_cons_self with
          | ended noLf => exact IsLine.ended (more noLf)
          | last noLf => exact IsLine.last (more noLf)
        · exact ih (List.mem_cons_of_mem _ mem)

theorem not_mem_dropLast (mem : line ∈ splitInclusive xs) : lf ∉ line.dropLast := by
  cases isLine_of_mem mem with
  | ended noLf =>
    rw [List.dropLast_concat]
    exact noLf
  | last noLf => exact fun inside => noLf (List.dropLast_subset _ inside)

theorem splitInclusive_append (xs ys : List UInt8) :
    splitInclusive (xs ++ [lf] ++ ys) = splitInclusive (xs ++ [lf]) ++ splitInclusive ys := by
  induction xs with
  | nil => simp [splitInclusive]
  | cons x xs ih =>
    rw [List.cons_append, List.cons_append, splitInclusive, splitInclusive, ih]
    split
    · rfl
    · cases eq : splitInclusive (xs ++ [lf]) with
      | nil => exact absurd eq (splitInclusive_ne_nil (by simp))
      | cons line lines => rfl

theorem splitInclusive_line (noLf : lf ∉ xs) : splitInclusive (xs ++ [lf]) = [xs ++ [lf]] := by
  induction xs with
  | nil => simp [splitInclusive]
  | cons x xs ih =>
    rw [List.mem_cons, not_or] at noLf
    rw [List.cons_append, splitInclusive, if_neg (Ne.symm noLf.1), ih noLf.2]

theorem append_of_find (found : find needle xs = some position) :
    ∃ before rest, xs = before ++ needle ++ rest ∧ before.length = position := by
  induction xs generalizing position with
  | nil => cases found
  | cons x xs ih =>
    rw [find] at found
    split at found
    next isPrefix =>
      cases found
      obtain ⟨rest, eq⟩ := List.isPrefixOf_iff_prefix.mp isPrefix
      exact ⟨[], rest, eq.symm, rfl⟩
    next =>
      obtain ⟨found, eq, rfl⟩ := Option.map_eq_some_iff.mp found
      obtain ⟨before, rest, rfl, rfl⟩ := ih eq
      exact ⟨x :: before, rest, rfl, rfl⟩

theorem find_of_infix (some_ : needle ≠ []) (infix_ : needle <:+: xs) :
    ∃ position, find needle xs = some position := by
  induction xs with
  | nil => exact absurd (List.infix_nil.mp infix_) some_
  | cons x xs ih =>
    rw [find]
    split
    · exact ⟨0, rfl⟩
    next notPrefix =>
      rcases List.infix_cons_iff.mp infix_ with isPrefix | infix_
      · exact absurd (List.isPrefixOf_iff_prefix.mpr isPrefix) notPrefix
      · obtain ⟨position, eq⟩ := ih infix_
        exact ⟨position + 1, by rw [eq]; rfl⟩

theorem find_eq_none_iff (some_ : needle ≠ []) : find needle xs = none ↔ ¬needle <:+: xs := by
  constructor
  · intro none_ infix_
    obtain ⟨position, eq⟩ := find_of_infix some_ infix_
    rw [none_] at eq
    cases eq
  · intro absent
    cases eq : find needle xs with
    | none => rfl
    | some position =>
      obtain ⟨before, rest, parts, _⟩ := append_of_find eq
      exact absurd ⟨before, rest, parts.symm⟩ absent

end MailStack.Mime
