import MailStack.Mime.Lines

/-! The blank line after the headers of a message, in the two spellings that `split_headers_body`
looks for. -/

namespace MailStack.Mime

open Lib

variable {xs ys head tail line needle rest : List UInt8} {position : Nat}

theorem find_le (found : find needle (xs ++ needle ++ ys) = some position) (some_ : needle ≠ []) :
    position ≤ xs.length := by
  induction xs generalizing position with
  | nil =>
    obtain ⟨first, more, rfl⟩ := List.exists_cons_of_ne_nil some_
    rw [List.nil_append, List.cons_append, find, ← List.cons_append,
      if_pos (List.isPrefixOf_iff_prefix.mpr (List.prefix_append _ _))] at found
    obtain rfl := Option.some.inj found
    exact Nat.le_refl _
  | cons x xs ih =>
    rw [List.cons_append, List.cons_append, find] at found
    split at found
    · obtain rfl := Option.some.inj found
      exact Nat.zero_le _
    · obtain ⟨later, eq, rfl⟩ := Option.map_eq_some_iff.mp found
      exact Nat.succ_le_succ (ih eq)

theorem find_append (some_ : needle ≠ []) (ys : List UInt8) (xs : List UInt8) :
    ∃ position, find needle (xs ++ needle ++ ys) = some position ∧ position ≤ xs.length := by
  obtain ⟨position, found⟩ := find_of_infix some_ ⟨xs, ys, rfl⟩
  exact ⟨position, found, find_le found some_⟩

/-- A line without content. -/
def IsBlank (line : List UInt8) : Prop := line = [lf] ∨ line = [cr, lf]

instance : DecidablePred IsBlank := fun _ => inferInstanceAs (Decidable (_ ∨ _))

/-- Lines of which each is ended and none is blank. -/
structure IsHead (head : List UInt8) : Prop where
  ended : head = [] ∨ ∃ front, head = front ++ [lf]
  filled : ∀ line ∈ splitInclusive head, ¬IsBlank line

instance (head : List UInt8) : Decidable (IsHead head) :=
  decidable_of_iff ((head = [] ∨ head.getLast? = some lf) ∧
      ∀ line ∈ splitInclusive head, ¬IsBlank line) <| by
    constructor
    · rintro ⟨ended, filled⟩
      refine ⟨ended.imp id fun last => ?_, filled⟩
      obtain ⟨front, eq⟩ := List.getLast?_eq_some_iff.mp last
      exact ⟨front, eq⟩
    · rintro ⟨ended, filled⟩
      refine ⟨ended.imp id ?_, filled⟩
      rintro ⟨front, rfl⟩
      exact List.getLast?_concat

variable {blank : List UInt8}

theorem not_mem_of_isBlank_head (isBlank : IsBlank blank) :
    ∃ content, lf ∉ content ∧ blank = content ++ [lf] := by
  rcases isBlank with rfl | rfl
  · exact ⟨[], List.not_mem_nil, rfl⟩
  · exact ⟨[cr], by decide, rfl⟩

theorem mem_splitInclusive_of_isBlank (isBlank : IsBlank blank)
    (rest : List UInt8) : blank ∈ splitInclusive (blank ++ rest) := by
  obtain ⟨content, noLf, rfl⟩ := not_mem_of_isBlank_head isBlank
  rw [splitInclusive_append, splitInclusive_line noLf]
  exact List.mem_append_left _ (List.mem_singleton.mpr rfl)

/-- What follows the lines of a head can begin with a blank line; before that there is none. -/
theorem IsHead.le_of_isBlank (isHead : IsHead head) (isBlank : IsBlank blank)
    (eq : xs ++ [lf] ++ blank ++ ys = head ++ tail) : head.length ≤ xs.length + 1 := by
  by_contra less
  rw [List.append_assoc] at eq
  have before : (xs ++ [lf]) <+: head := by
    refine List.prefix_of_prefix_length_le (List.prefix_append _ (blank ++ ys)) ?_ ?_
    · exact eq ▸ List.prefix_append head tail
    · rw [List.length_append, List.length_singleton]
      omega
  obtain ⟨last, rfl⟩ := before
  rw [List.append_assoc (xs ++ [lf]), List.append_cancel_left_eq] at eq
  -- the rest of the head is ended by an LF, so it has the whole blank line
  have whole : blank <+: last := by
    refine List.prefix_of_prefix_length_le (List.prefix_append blank ys) ?_ ?_
    · exact eq ▸ List.prefix_append last tail
    · by_contra short
      have some_ : last ≠ [] := by
        rintro rfl
        rw [List.append_nil, List.length_append, List.length_singleton] at less
        omega
      obtain ⟨front, ends⟩ := isHead.ended.resolve_left (by simp)
      have lastLf : last.getLast? = some lf := by
        have all := congrArg List.getLast? ends
        rw [List.getLast?_append_of_ne_nil _ some_, List.getLast?_concat] at all
        exact all
      obtain ⟨content, noLf, rfl⟩ := not_mem_of_isBlank_head isBlank
      have begins : content <+: content ++ [lf] ++ ys := by
        rw [List.append_assoc]
        exact List.prefix_append content _
      have inside : last <+: content := by
        refine List.prefix_of_prefix_length_le ?_ begins ?_
        · exact eq ▸ List.prefix_append last tail
        · rw [List.length_append, List.length_singleton] at short
          omega
      exact noLf (inside.subset (List.mem_of_getLast? lastLf))
  obtain ⟨later, rfl⟩ := whole
  refine isHead.filled blank ?_ isBlank
  rw [splitInclusive_append]
  exact List.mem_append_right _ (mem_splitInclusive_of_isBlank isBlank later)

theorem IsHead.le_of_find_crlf (isHead : IsHead head)
    (found : find [cr, lf, cr, lf] (head ++ tail) = some position) :
    head.length ≤ position + 2 := by
  obtain ⟨before, after, eq, rfl⟩ := append_of_find found
  have split : (before ++ [cr]) ++ [lf] ++ [cr, lf] ++ after = head ++ tail := by
    rw [eq]
    simp
  have le := isHead.le_of_isBlank (.inr rfl) split
  rw [List.length_append, List.length_singleton] at le
  exact le

theorem IsHead.le_of_find_lf (isHead : IsHead head)
    (found : find [lf, lf] (head ++ tail) = some position) : head.length ≤ position + 1 := by
  obtain ⟨before, after, eq, rfl⟩ := append_of_find found
  have split : before ++ [lf] ++ [lf] ++ after = head ++ tail := by
    rw [eq]
    simp
  exact isHead.le_of_isBlank (.inl rfl) split

theorem splitHeadersBody_crlf (isHead : IsHead (head ++ [cr, lf])) (rest : List UInt8) :
    splitHeadersBody (head ++ [cr, lf] ++ [cr, lf] ++ rest) = (head ++ [cr, lf], rest) := by
  have join : head ++ [cr, lf] ++ [cr, lf] ++ rest = head ++ [cr, lf, cr, lf] ++ rest := by simp
  obtain ⟨position, found, le⟩ := find_append (by simp : [cr, lf, cr, lf] ≠ []) rest head
  have found' : find [cr, lf, cr, lf] (head ++ [cr, lf] ++ ([cr, lf] ++ rest)) = some position := by
    rw [← found]
    simp
  have ge := isHead.le_of_find_crlf found'
  have at_head : position = head.length := by
    rw [List.length_append] at ge
    simp only [List.length_cons, List.length_nil] at ge
    omega
  rw [join, splitHeadersBody, found, at_head]
  show ((head ++ [cr, lf, cr, lf] ++ rest).take (head.length + 2),
    (head ++ [cr, lf, cr, lf] ++ rest).drop (head.length + 4)) = _
  rw [List.append_assoc, List.take_append, List.drop_append, List.take_of_length_le (by omega),
    List.drop_eq_nil_of_le (by omega), show head.length + 2 - head.length = 2 by omega,
    show head.length + 4 - head.length = 4 by omega]
  rfl

theorem splitHeadersBody_lf (isHead : IsHead (head ++ [lf])) (rest : List UInt8)
    (absent : ¬[cr, lf, cr, lf] <:+: head ++ [lf] ++ [lf] ++ rest) :
    splitHeadersBody (head ++ [lf] ++ [lf] ++ rest) = (head ++ [lf], rest) := by
  have join : head ++ [lf] ++ [lf] ++ rest = head ++ [lf, lf] ++ rest := by simp
  have notFound := (find_eq_none_iff (by simp : [cr, lf, cr, lf] ≠ [])).mpr absent
  obtain ⟨position, found, le⟩ := find_append (by simp : [lf, lf] ≠ []) rest head
  have found' : find [lf, lf] (head ++ [lf] ++ ([lf] ++ rest)) = some position := by
    rw [← found]
    simp
  have ge := isHead.le_of_find_lf found'
  have at_head : position = head.length := by
    rw [List.length_append] at ge
    simp only [List.length_cons, List.length_nil] at ge
    omega
  rw [splitHeadersBody, notFound, join, found, at_head]
  show ((head ++ [lf, lf] ++ rest).take (head.length + 1),
    (head ++ [lf, lf] ++ rest).drop (head.length + 2)) = _
  rw [List.append_assoc, List.take_append, List.drop_append, List.take_of_length_le (by omega),
    List.drop_eq_nil_of_le (by omega), show head.length + 1 - head.length = 1 by omega,
    show head.length + 2 - head.length = 2 by omega]
  rfl

/-- The header section is taken to end at this blank line. -/
def IsFound (head blank rest : List UInt8) : Prop :=
  (blank = [cr, lf] ∧ [cr, lf] <:+ head) ∨
    (blank = [lf] ∧ head ≠ [] ∧ ¬[cr, lf, cr, lf] <:+: head ++ blank ++ rest)

/-- Where the blank line is not found, less than what follows it is taken for the body. -/
theorem body_short (isHead : IsHead head) (isBlank : IsBlank blank)
    (missed : ¬IsFound head blank rest) :
    (splitHeadersBody (head ++ blank ++ rest)).2 = [] ∨
      (splitHeadersBody (head ++ blank ++ rest)).2.length < rest.length := by
  generalize text_eq : head ++ blank ++ rest = text
  have size : text.length = head.length + blank.length + rest.length := by
    rw [← text_eq, List.length_append, List.length_append]
  have split : text = head ++ (blank ++ rest) := by rw [← text_eq, List.append_assoc]
  have blankSize : blank.length ≤ 2 := by
    rcases isBlank with rfl | rfl
    · exact Nat.le_succ _
    · exact Nat.le_refl _
  unfold splitHeadersBody
  cases crlf : find [cr, lf, cr, lf] text with
  | some position =>
    have ge := isHead.le_of_find_crlf (split ▸ crlf)
    obtain ⟨before, after, eq, rfl⟩ := append_of_find crlf
    have whole : before.length + 4 ≤ text.length := by
      rw [eq, List.length_append, List.length_append]
      simp only [List.length_cons, List.length_nil]
      omega
    refine .inr ?_
    show (text.drop (before.length + 4)).length < rest.length
    rw [List.length_drop]
    suffices past : head.length + blank.length < before.length + 4 by omega
    rcases isBlank with rfl | rfl
    · simp only [List.length_singleton]
      omega
    · by_contra less
      have ends : before.length + 2 = head.length := by
        simp only [List.length_cons, List.length_nil] at less
        omega
      have both : (before ++ [cr, lf]) ++ ([cr, lf] ++ after) = head ++ ([cr, lf] ++ rest) := by
        rw [← split, eq]
        simp
      refine missed (.inl ⟨rfl, before, (List.append_inj both ?_).1⟩)
      rw [List.length_append]
      exact ends
  | none =>
    cases lflf : find [lf, lf] text with
    | none => exact .inl rfl
    | some position =>
      have ge := isHead.le_of_find_lf (split ▸ lflf)
      obtain ⟨before, after, eq, rfl⟩ := append_of_find lflf
      have whole : before.length + 2 ≤ text.length := by
        rw [eq, List.length_append, List.length_append]
        simp only [List.length_cons, List.length_nil]
        omega
      refine .inr ?_
      show (text.drop (before.length + 2)).length < rest.length
      rw [List.length_drop]
      suffices past : head.length + blank.length < before.length + 2 by omega
      rcases isBlank with rfl | rfl
      · have none_ : head = [] := by
          by_contra some_
          refine missed (.inr ⟨rfl, some_, ?_⟩)
          rw [text_eq]
          exact (find_eq_none_iff (by simp)).mp crlf
        rw [none_]
        simp
      · -- the blank line begins with a CR, so the two LFs come after it
        have first : text[before.length]? = some lf ∧ text[before.length + 1]? = some lf := by
          rw [eq]
          simp
        have at_blank : text[head.length]? = some cr := by
          rw [split]
          simp
        have apart : before.length ≠ head.length ∧ before.length + 1 ≠ head.length := by
          constructor
          · intro same
            rw [same, at_blank] at first
            exact absurd (Option.some.inj first.1) (by decide)
          · intro same
            rw [same, at_blank] at first
            exact absurd (Option.some.inj first.2) (by decide)
        simp only [List.length_cons, List.length_nil]
        omega

theorem body_eq_iff (isHead : IsHead head) (isBlank : IsBlank blank) :
    (splitHeadersBody (head ++ blank ++ rest)).2 = rest ↔ rest = [] ∨ IsFound head blank rest := by
  constructor
  · intro same
    by_contra neither
    rw [not_or] at neither
    rcases body_short isHead isBlank neither.2 with none_ | short
    · exact neither.1 (same.symm.trans none_)
    · rw [same] at short
      exact absurd short (Nat.lt_irrefl _)
  · intro either
    by_cases found : IsFound head blank rest
    · rcases found with ⟨rfl, front, rfl⟩ | ⟨rfl, some_, absent⟩
      · rw [splitHeadersBody_crlf isHead]
      · obtain ⟨front, rfl⟩ := isHead.ended.resolve_left some_
        rw [splitHeadersBody_lf isHead rest absent]
    · obtain rfl := either.resolve_right found
      rcases body_short isHead isBlank found with none_ | short
      · exact none_
      · exact absurd short (Nat.not_lt_zero _)

end MailStack.Mime
