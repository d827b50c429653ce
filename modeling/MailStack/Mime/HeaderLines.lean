import MailStack.Mime.BlankLine
import Mathlib.Data.List.Flatten
import Mathlib.Data.List.Forall2
import Mathlib.Data.List.ModifyLast

/-! The lines that `parse_headers` keeps: each field is a line of its form with the folded lines
that go on with it. -/

namespace MailStack.Mime

open Lib

/-- A line without what ends it. -/
def content (raw : List UInt8) : List UInt8 := stripSuffix cr (stripSuffix lf raw)

def isFolded (raw : List UInt8) : Bool :=
  (content raw).head? = some 32 || (content raw).head? = some 9

def isField (raw : List UInt8) : Bool := (parseHeader raw (content raw)).isSome

variable {headers : List HeaderLine} {header : HeaderLine} {raw text : List UInt8}
  {lines rest kept : List (List UInt8)} {groups : List (List (List UInt8))}

theorem parseLines_cons (room : headers.length < maxHeaderLines) (filled : content raw ≠ []) :
    parseLines headers (raw :: rest) =
      if isFolded raw then parseLines (headers.modifyLast (unfold raw (content raw))) rest
      else match parseHeader raw (content raw) with
        | none => parseLines headers rest
        | some header => parseLines (headers ++ [header]) rest := by
  have some_ : (content raw).isEmpty = false := by simpa using filled
  rw [parseLines, if_neg (by omega)]
  show (if (content raw).isEmpty = true then headers else _) = _
  rw [some_, if_neg Bool.false_ne_true]
  rfl

theorem parseLines_blank
    (blank : content raw = []) : parseLines headers (raw :: rest) = headers := by
  rw [parseLines]
  split
  · rfl
  · show (if (content raw).isEmpty = true then headers else _) = _
    rw [blank]
    rfl

theorem parseLines_full
    (full : maxHeaderLines ≤ headers.length) : parseLines headers lines = headers := by
  cases lines with
  | nil => rw [parseLines]
  | cons raw rest => rw [parseLines, if_pos full]

/-- The field is what the lines say: one of its form and the folded ones after it. -/
inductive FromLines : List (List UInt8) → HeaderLine → Prop
  | first {raw : List UInt8} {header : HeaderLine} (filled : content raw ≠ [])
      (own : isFolded raw = false) (form : parseHeader raw (content raw) = some header) :
      FromLines [raw] header
  | more {lines : List (List UInt8)} {header : HeaderLine} {raw : List UInt8}
      (before : FromLines lines header) (ended : header.raw.getLast? = some lf)
      (filled : content raw ≠ []) (folded : isFolded raw = true) :
      FromLines (lines ++ [raw]) (unfold raw (content raw) header)

theorem parseHeader_raw (form : parseHeader raw text = some header) : header.raw = raw := by
  unfold parseHeader at form
  split at form
  · cases form
  · dsimp only at form
    split at form
    · cases form
    · obtain rfl := Option.some.inj form
      rfl

theorem FromLines.raw_eq (h : FromLines lines header) : header.raw = lines.flatten := by
  induction h with
  | first filled own form => rw [parseHeader_raw form, List.flatten_singleton]
  | more before ended filled folded ih =>
    rw [List.flatten_append, List.flatten_singleton, ← ih]
    rfl

theorem flatMap_raw (fields : List.Forall₂ FromLines groups headers) :
    headers.flatMap (·.raw) = groups.flatten.flatten := by
  induction fields with
  | nil => rfl
  | cons here later ih =>
    rw [List.flatMap_cons, List.flatten_cons, List.flatten_append, here.raw_eq, ih]

def AllEnded : List (List UInt8) → Prop
  | [] => True
  | raw :: rest => (rest = [] ∨ raw.getLast? = some lf) ∧ AllEnded rest

/-- The headers are made of the lines, of which some are kept in their order. -/
def Made (kept : List (List UInt8)) (headers : List HeaderLine) : Prop :=
  ∃ groups, List.Forall₂ FromLines groups headers ∧ groups.flatten.Sublist kept

theorem Made.mono {more : List (List UInt8)} (made : Made kept headers) (sub : kept.Sublist more) :
    Made more headers := by
  obtain ⟨groups, fields, inside⟩ := made
  exact ⟨groups, fields, inside.trans sub⟩

theorem Made.folded (made : Made kept headers)
    (ended : ∀ header ∈ headers, header.raw.getLast? = some lf) (filled : content raw ≠ [])
    (folded : isFolded raw = true) :
    Made (kept ++ [raw]) (headers.modifyLast (unfold raw (content raw))) := by
  obtain ⟨groups, fields, inside⟩ := made
  rcases List.eq_nil_or_concat headers with rfl | ⟨init, last, rfl⟩
  · exact ⟨groups, fields, inside.trans (List.sublist_append_left _ _)⟩
  · rw [List.concat_eq_append] at *
    rw [List.modifyLast_concat]
    have front := List.forall₂_take_append _ _ _ fields
    obtain ⟨group, none, here, nothing, eq⟩ :=
      List.forall₂_cons_right_iff.mp (List.forall₂_drop_append _ _ _ fields)
    cases nothing
    have whole := List.take_append_drop init.length groups
    rw [eq] at whole
    generalize groups.take init.length = before at front whole
    refine ⟨before ++ [group ++ [raw]], ?_, ?_⟩
    · refine List.rel_append front (.cons ?_ .nil)
      exact here.more (ended last (List.mem_append_right _ (List.mem_singleton.mpr rfl))) filled
        folded
    · have shape : (before ++ [group ++ [raw]]).flatten = groups.flatten ++ [raw] := by
        rw [← whole]
        simp
      rw [shape]
      exact inside.append (List.Sublist.refl _)

theorem Made.field (made : Made kept headers) (filled : content raw ≠ [])
    (own : isFolded raw = false) (form : parseHeader raw (content raw) = some header) :
    Made (kept ++ [raw]) (headers ++ [header]) := by
  obtain ⟨groups, fields, inside⟩ := made
  refine ⟨groups ++ [[raw]], List.rel_append fields (.cons (.first filled own form) .nil), ?_⟩
  rw [List.flatten_append, List.flatten_singleton]
  exact inside.append (List.Sublist.refl _)

theorem ended_modifyLast (ended : ∀ header ∈ headers, header.raw.getLast? = some lf)
    (last : raw.getLast? = some lf) :
    ∀ header ∈ headers.modifyLast (unfold raw (content raw)), header.raw.getLast? = some lf := by
  rcases List.eq_nil_or_concat headers with rfl | ⟨init, final, rfl⟩
  · exact ended
  · rw [List.concat_eq_append] at *
    rw [List.modifyLast_concat]
    intro header mem
    rcases List.mem_append.mp mem with mem | mem
    · exact ended header (List.mem_append_left _ mem)
    · rw [List.mem_singleton.mp mem]
      show (final.raw ++ raw).getLast? = some lf
      have some_ : raw ≠ [] := by
        rintro rfl
        cases last
      rw [List.getLast?_append_of_ne_nil _ some_, last]

/-- The headers that are kept are made of lines in their order. -/
theorem made_parseLines (made : Made kept headers)
    (ended : ∀ header ∈ headers, header.raw.getLast? = some lf) (allEnded : AllEnded lines) :
    Made (kept ++ lines) (parseLines headers lines) := by
  induction lines generalizing headers kept with
  | nil =>
    rw [parseLines, List.append_nil]
    exact made
  | cons raw rest ih =>
    have shape : kept ++ raw :: rest = (kept ++ [raw]) ++ rest := by simp
    have whole : Made (kept ++ raw :: rest) headers := made.mono (List.sublist_append_left _ _)
    by_cases room : headers.length < maxHeaderLines
    · by_cases filled : content raw = []
      · rw [parseLines_blank filled]
        exact whole
      · -- where the line is not ended, it is the last one
        have next (headers' : List HeaderLine) (made' : Made (kept ++ [raw]) headers')
            (ended' : raw.getLast? = some lf → ∀ header ∈ headers', header.raw.getLast? = some lf) :
            Made (kept ++ raw :: rest) (parseLines headers' rest) := by
          rw [shape]
          rcases allEnded.1 with rfl | last
          · rw [parseLines, List.append_nil]
            exact made'
          · exact ih made' (ended' last) allEnded.2
        rw [parseLines_cons room filled]
        cases folded : isFolded raw with
        | true =>
          rw [if_pos rfl]
          exact next _ (made.folded ended filled folded) (ended_modifyLast ended)
        | false =>
          rw [if_neg Bool.false_ne_true]
          cases form : parseHeader raw (content raw) with
          | none => exact next headers (made.mono (List.sublist_append_left _ _)) fun _ => ended
          | some header =>
            refine next _ (made.field filled folded form) fun last other mem => ?_
            rcases List.mem_append.mp mem with mem | mem
            · exact ended other mem
            · rw [List.mem_singleton.mp mem, parseHeader_raw form]
              exact last
    · rw [parseLines_full (Nat.not_lt.mp room)]
      exact whole

theorem allEnded_splitInclusive (text : List UInt8) : AllEnded (splitInclusive text) := by
  induction text with
  | nil => trivial
  | cons byte text ih =>
    rw [splitInclusive]
    split
    next isLf => exact ⟨.inr (by rw [isLf]; rfl), ih⟩
    next =>
      cases eq : splitInclusive text with
      | nil => exact ⟨.inl rfl, trivial⟩
      | cons line lines =>
        rw [eq] at ih
        refine ⟨ih.1.imp id fun last => ?_, ih.2⟩
        have some_ : line ≠ [] := by
          rintro rfl
          cases last
        rw [List.getLast?_cons_of_ne_nil some_, last]

theorem AllEnded.before (all : AllEnded (lines ++ raw :: rest)) :
    ∀ line ∈ lines, line.getLast? = some lf := by
  induction lines with
  | nil => exact List.forall_mem_nil _
  | cons first lines ih =>
    intro line mem
    rcases List.mem_cons.mp mem with rfl | mem
    · exact all.1.resolve_left (by simp)
    · exact ih all.2 line mem

theorem AllEnded.left (all : AllEnded (lines ++ rest)) : AllEnded lines := by
  induction lines with
  | nil => trivial
  | cons first lines ih =>
    refine ⟨all.1.imp (fun none => ?_) id, ih all.2⟩
    exact (List.append_eq_nil_iff.mp none).1

/-- No line is dropped: the first begins a header, and every other one does or goes on with one. -/
structure Kept (lines : List (List UInt8)) : Prop where
  first : ∀ raw ∈ lines.head?, isFolded raw = false
  form : ∀ raw ∈ lines, isFolded raw = true ∨ isField raw = true

instance (lines : List (List UInt8)) : Decidable (Kept lines) :=
  decidable_of_iff ((∀ raw ∈ lines.head?, isFolded raw = false) ∧
      ∀ raw ∈ lines, isFolded raw = true ∨ isField raw = true)
    ⟨fun h => ⟨h.1, h.2⟩, fun h => ⟨h.first, h.form⟩⟩

theorem flatMap_raw_modifyLast (some_ : headers ≠ []) :
    (headers.modifyLast (unfold raw (content raw))).flatMap (·.raw) =
      headers.flatMap (·.raw) ++ raw := by
  rcases List.eq_nil_or_concat headers with rfl | ⟨init, last, rfl⟩
  · exact absurd rfl some_
  · rw [List.concat_eq_append, List.modifyLast_concat, List.flatMap_append, List.flatMap_append,
      List.append_assoc, List.flatMap_singleton, List.flatMap_singleton]
    rfl

theorem flatMap_raw_of_kept (filled : ∀ raw ∈ lines, content raw ≠ [])
    (begins : headers ≠ [] ∨ ∀ raw ∈ lines.head?, isFolded raw = false)
    (form : ∀ raw ∈ lines, isFolded raw = true ∨ isField raw = true)
    (few : headers.length + lines.length ≤ maxHeaderLines) :
    (parseLines headers lines).flatMap (·.raw) = headers.flatMap (·.raw) ++ lines.flatten := by
  induction lines generalizing headers with
  | nil => rw [parseLines, List.flatten_nil, List.append_nil]
  | cons raw rest ih =>
    rw [List.length_cons] at few
    have later := fun other mem => filled other (List.mem_cons_of_mem raw mem)
    have laterForm := fun other mem => form other (List.mem_cons_of_mem raw mem)
    rw [parseLines_cons (by omega) (filled raw List.mem_cons_self), List.flatten_cons]
    cases folded : isFolded raw with
    | true =>
      have some_ : headers ≠ [] := by
        refine begins.resolve_right fun own => ?_
        have not_folded := own raw rfl
        rw [folded] at not_folded
        cases not_folded
      have some' : headers.modifyLast (unfold raw (content raw)) ≠ [] := by
        rcases List.eq_nil_or_concat headers with rfl | ⟨init, last, rfl⟩
        · exact absurd rfl some_
        · rw [List.concat_eq_append, List.modifyLast_concat]
          simp
      have size : (headers.modifyLast (unfold raw (content raw))).length = headers.length := by
        rcases List.eq_nil_or_concat headers with rfl | ⟨init, last, rfl⟩
        · exact absurd rfl some_
        · rw [List.concat_eq_append, List.modifyLast_concat, List.length_append, List.length_append]
          rfl
      rw [if_pos rfl, ih later (.inl some') laterForm (by omega), flatMap_raw_modifyLast some_,
        List.append_assoc]
    | false =>
      rw [if_neg Bool.false_ne_true]
      have own := (form raw List.mem_cons_self).resolve_left (by rw [folded]; decide)
      obtain ⟨header, eq⟩ := Option.isSome_iff_exists.mp own
      rw [eq]
      show (parseLines (headers ++ [header]) rest).flatMap _ = _
      rw [ih later (.inl (by simp)) laterForm (by rw [List.length_append, List.length_singleton]; omega),
        List.flatMap_append, List.flatMap_singleton, parseHeader_raw eq, List.append_assoc]

theorem FromLines.lines_kept (h : FromLines lines header) :
    lines ≠ [] ∧ (∀ raw ∈ lines.head?, isFolded raw = false) ∧
      ∀ raw ∈ lines, isFolded raw = true ∨ isField raw = true := by
  induction h with
  | @first raw header filled own form =>
    refine ⟨List.cons_ne_nil _ _, ?_, ?_⟩
    · intro other mem
      obtain rfl := Option.some.inj mem
      exact own
    · intro other mem
      rw [List.mem_singleton.mp mem]
      exact .inr (Option.isSome_iff_exists.mpr ⟨header, form⟩)
  | @more lines header raw before ended filled folded ih =>
    obtain ⟨some_, first, form⟩ := ih
    refine ⟨by simp, ?_, ?_⟩
    · intro other mem
      rw [List.head?_append_of_ne_nil _ some_] at mem
      exact first other mem
    · intro other mem
      rcases List.mem_append.mp mem with mem | mem
      · exact form other mem
      · rw [List.mem_singleton.mp mem]
        exact .inl folded

theorem kept_of_groups (fields : List.Forall₂ FromLines groups headers) : Kept groups.flatten := by
  induction fields with
  | nil => exact ⟨(fun _ mem => by cases mem), List.forall_mem_nil _⟩
  | cons here later ih =>
    obtain ⟨some_, first, form⟩ := here.lines_kept
    rw [List.flatten_cons]
    refine ⟨fun raw mem => ?_, fun raw mem => ?_⟩
    · rw [List.head?_append_of_ne_nil _ some_] at mem
      exact first raw mem
    · rcases List.mem_append.mp mem with mem | mem
      · exact form raw mem
      · exact ih.form raw mem

theorem eq_of_sublist_of_flatten (sub : kept.Sublist lines) (some_ : ∀ raw ∈ lines, raw ≠ [])
    (same : kept.flatten.length = lines.flatten.length) : kept = lines := by
  induction sub with
  | slnil => rfl
  | @cons kept lines raw sub ih =>
    have less : kept.flatten.length ≤ lines.flatten.length := sub.flatten.length_le
    have more := List.length_pos_iff.mpr (some_ raw List.mem_cons_self)
    rw [List.flatten_cons, List.length_append] at same
    omega
  | @cons_cons kept lines raw sub ih =>
    rw [List.flatten_cons, List.flatten_cons, List.length_append, List.length_append] at same
    rw [ih (fun other mem => some_ other (List.mem_cons_of_mem _ mem)) (by omega)]

theorem flatMap_raw_eq_iff (filled : ∀ raw ∈ lines, content raw ≠ []) (allEnded : AllEnded lines)
    (few : lines.length ≤ maxHeaderLines) :
    (parseLines [] lines).flatMap (·.raw) = lines.flatten ↔ Kept lines := by
  constructor
  · intro same
    have none : Made [] [] := ⟨[], .nil, List.Sublist.refl _⟩
    obtain ⟨groups, fields, sub⟩ := made_parseLines none
      (List.forall_mem_nil _) allEnded
    rw [List.nil_append] at sub
    have some_ : ∀ raw ∈ lines, raw ≠ [] := by
      rintro _ mem rfl
      exact filled [] mem rfl
    have all := eq_of_sublist_of_flatten sub some_ (by rw [← flatMap_raw fields, same])
    rw [← all]
    exact kept_of_groups fields
  · intro kept
    have all := @flatMap_raw_of_kept [] lines filled (.inr kept.first) kept.form
        (by simpa using few)
    rw [all]
    rfl

/-- The line with an end, if it had none. -/
def endLine (raw : List UInt8) : List UInt8 :=
  if raw.getLast? = some lf then raw else raw ++ [cr, lf]

def IsCrlfLine (raw : List UInt8) : Prop := ∃ text, lf ∉ text ∧ raw = text ++ [cr, lf]

theorem stripSuffix_concat (byte : UInt8) (text : List UInt8) :
    stripSuffix byte (text ++ [byte]) = text := by
  rw [stripSuffix, if_pos List.getLast?_concat, List.dropLast_concat]

theorem content_crlf (text : List UInt8) : content (text ++ [cr, lf]) = text := by
  have shape : text ++ [cr, lf] = (text ++ [cr]) ++ [lf] := by simp
  rw [content, shape, stripSuffix_concat, stripSuffix_concat]

theorem IsCrlfLine.ended (line : IsCrlfLine raw) : ∃ front, lf ∉ front ∧ raw = front ++ [lf] := by
  obtain ⟨text, noLf, rfl⟩ := line
  refine ⟨text ++ [cr], ?_, by simp⟩
  rw [List.mem_append, not_or]
  exact ⟨noLf, by decide⟩

theorem IsCrlfLine.getLast?_eq (line : IsCrlfLine raw) : raw.getLast? = some lf := by
  obtain ⟨front, -, rfl⟩ := line.ended
  exact List.getLast?_concat

theorem FromLines.getLast?_eq (h : FromLines lines header) (crlf : ∀ raw ∈ lines, IsCrlfLine raw) :
    header.raw.getLast? = some lf := by
  cases h with
  | @first raw header filled own form =>
    rw [parseHeader_raw form]
    exact (crlf raw List.mem_cons_self).getLast?_eq
  | @more lines header raw before ended filled folded =>
    have last := (crlf raw (List.mem_append_right _ (List.mem_singleton.mpr rfl))).getLast?_eq
    have some_ : raw ≠ [] := by
      rintro rfl
      exact filled rfl
    show (header.raw ++ raw).getLast? = some lf
    rw [List.getLast?_append_of_ne_nil _ some_, last]

theorem flatMap_endLine (fields : List.Forall₂ FromLines groups headers)
    (crlf : ∀ raw ∈ groups.flatten, IsCrlfLine raw) :
    headers.flatMap (fun header => endLine header.raw) = groups.flatten.flatten := by
  rw [← flatMap_raw fields]
  induction fields with
  | nil => rfl
  | @cons group header groups headers here later ih =>
    rw [List.flatten_cons] at crlf
    rw [List.flatMap_cons, List.flatMap_cons,
      ih fun raw mem => crlf raw (List.mem_append_right _ mem), endLine,
      if_pos (here.getLast?_eq fun raw mem => crlf raw (List.mem_append_left _ mem))]

theorem Made.filter (made : Made kept headers) (p : HeaderLine → Bool) :
    Made kept (headers.filter p) := by
  obtain ⟨groups, fields, sub⟩ := made
  have some_ : ∃ groups', List.Forall₂ FromLines groups' (headers.filter p) ∧
      groups'.Sublist groups := by
    clear sub
    induction fields with
    | nil => exact ⟨[], .nil, List.Sublist.refl _⟩
    | @cons group header groups headers here later ih =>
      obtain ⟨groups', fields, sub⟩ := ih
      rw [List.filter_cons]
      split
      · exact ⟨group :: groups', .cons here fields, sub.cons_cons group⟩
      · exact ⟨groups', fields, sub.cons group⟩
  obtain ⟨groups', fields', sub'⟩ := some_
  exact ⟨groups', fields', sub'.flatten.trans sub⟩

theorem parseLines_append (h : FromLines lines header)
    (room : headers.length + lines.length ≤ maxHeaderLines) (rest : List (List UInt8)) :
    parseLines headers (lines ++ rest) = parseLines (headers ++ [header]) rest := by
  induction h generalizing rest with
  | first filled own form =>
    rw [List.length_singleton] at room
    rw [List.singleton_append, parseLines_cons (by omega) filled, own, if_neg Bool.false_ne_true, form]
  | @more lines header raw before ended filled folded ih =>
    have some_ := List.length_pos_iff.mpr before.lines_kept.1
    rw [List.length_append, List.length_singleton] at room
    rw [List.append_assoc, ih (by omega), List.singleton_append, parseLines_cons _ filled, folded,
      if_pos rfl, List.modifyLast_concat]
    rw [List.length_append, List.length_singleton]
    omega

theorem parseLines_groups (fields : List.Forall₂ FromLines groups headers) {done : List HeaderLine}
    (room : done.length + groups.flatten.length ≤ maxHeaderLines) (rest : List (List UInt8)) :
    parseLines done (groups.flatten ++ rest) = parseLines (done ++ headers) rest := by
  induction fields generalizing done with
  | nil => rw [List.flatten_nil, List.nil_append, List.append_nil]
  | @cons group header groups headers here later ih =>
    have some_ := List.length_pos_iff.mpr here.lines_kept.1
    rw [List.flatten_cons, List.length_append] at room
    rw [List.flatten_cons, List.append_assoc, parseLines_append here (by omega), ih,
      List.append_assoc, List.singleton_append]
    rw [List.length_append, List.length_singleton]
    omega

theorem splitInclusive_lines (plain : ∀ raw ∈ lines, ∃ text, lf ∉ text ∧ raw = text ++ [lf])
    (text : List UInt8) :
    splitInclusive (lines.flatten ++ text) = lines ++ splitInclusive text := by
  induction lines with
  | nil => rfl
  | cons raw rest ih =>
    obtain ⟨own, noLf, rfl⟩ := plain raw List.mem_cons_self
    rw [List.flatten_cons, List.append_assoc, splitInclusive_append, splitInclusive_line noLf,
      ih fun other mem => plain other (List.mem_cons_of_mem _ mem)]
    rfl

def fieldsOf (text : List UInt8) : List HeaderLine := parseLines [] (splitInclusive text)

theorem fieldsOf_written (made : Made kept headers) (crlf : ∀ raw ∈ kept, IsCrlfLine raw)
    (few : kept.length ≤ maxHeaderLines) :
    fieldsOf (headers.flatMap (fun header => endLine header.raw) ++ [cr, lf]) = headers := by
  obtain ⟨groups, fields, sub⟩ := made
  have own : ∀ raw ∈ groups.flatten, IsCrlfLine raw := fun raw mem => crlf raw (sub.subset mem)
  have plain : ∀ raw ∈ groups.flatten, ∃ text, lf ∉ text ∧ raw = text ++ [lf] :=
    fun raw mem => (own raw mem).ended
  have room : ([] : List HeaderLine).length + groups.flatten.length ≤ maxHeaderLines := by
    rw [List.length_nil, Nat.zero_add]
    exact sub.length_le.trans few
  have last : splitInclusive [cr, lf] = [[cr, lf]] := by decide
  rw [fieldsOf, flatMap_endLine fields own, splitInclusive_lines plain, last,
    parseLines_groups fields room, List.nil_append, parseLines_blank (by decide)]

end MailStack.Mime

/-! The headers of a message are read in as many bytes as the parser looks at, and the end of its
blank line. -/

namespace MailStack.Mime

theorem parseLines_before_blank {raw : List UInt8} (blank : content raw = [])
    (headers : List HeaderLine) (lines rest : List (List UInt8)) :
    parseLines headers (lines ++ raw :: rest) = parseLines headers lines := by
  induction lines generalizing headers with
  | nil => rw [List.nil_append, parseLines_blank blank, parseLines]
  | cons first lines ih =>
    rw [List.cons_append]
    by_cases full : maxHeaderLines ≤ headers.length
    · rw [parseLines_full full, parseLines_full full]
    · by_cases filled : content first = []
      · rw [parseLines_blank filled, parseLines_blank filled]
      · rw [parseLines_cons (by omega) filled, parseLines_cons (by omega) filled, ih, ih]
        split
        · rfl
        · cases parseHeader first (content first) with
          | none => rfl
          | some header => exact ih _

theorem parseLines_blank_line {before tail raw : List UInt8} {more : List (List UInt8)}
    (lines : splitInclusive tail = raw :: more) (blank : content raw = []) :
    parseLines [] (splitInclusive (before ++ [lf] ++ tail)) =
      parseLines [] (splitInclusive (before ++ [lf])) := by
  rw [splitInclusive_append, lines, parseLines_before_blank blank]

theorem parseLines_take_lf {message : List UInt8} {position : Nat}
    (found : find [lf, lf] message = some position) (n : Nat) :
    parseLines [] (splitInclusive ((message.take (position + 1)).take n)) =
      parseLines [] (splitInclusive (message.take n)) := by
  obtain ⟨before, rest, rfl, rfl⟩ := append_of_find found
  rw [List.take_take]
  by_cases short : n ≤ before.length + 1
  · rw [Nat.min_eq_left short]
  · obtain ⟨k, rfl⟩ : ∃ k, n = before.length + 1 + (k + 1) := ⟨n - before.length - 2, by omega⟩
    have shape : before ++ [lf, lf] ++ rest = (before ++ [lf]) ++ ([lf] ++ rest) := by simp
    have size : before.length + 1 = (before ++ [lf]).length := by
      rw [List.length_append, List.length_singleton]
    rw [Nat.min_eq_right (by omega), shape, size, List.take_left, List.take_length_add_append]
    exact (parseLines_blank_line rfl rfl).symm

theorem parseLines_take_crlf {message : List UInt8} {position : Nat}
    (found : find [cr, lf, cr, lf] message = some position) (n : Nat) :
    parseLines [] (splitInclusive ((message.take (position + 2)).take n)) =
      parseLines [] (splitInclusive (message.take n)) := by
  obtain ⟨before, rest, rfl, rfl⟩ := append_of_find found
  rw [List.take_take]
  by_cases short : n ≤ before.length + 2
  · rw [Nat.min_eq_left short]
  · obtain ⟨k, rfl⟩ : ∃ k, n = before.length + 2 + (k + 1) := ⟨n - before.length - 3, by omega⟩
    have shape : before ++ [cr, lf, cr, lf] ++ rest =
        (before ++ [cr] ++ [lf]) ++ ([cr, lf] ++ rest) := by
      simp
    have size : before.length + 2 = (before ++ [cr] ++ [lf]).length := by simp
    rw [Nat.min_eq_right (by omega), shape, size, List.take_left, List.take_length_add_append]
    cases k with
    | zero => exact (parseLines_blank_line rfl rfl).symm
    | succ k => exact (parseLines_blank_line rfl rfl).symm

theorem parseHeaders_lines (message : List UInt8) :
    (parseHeaders message).lines =
      parseLines [] (splitInclusive (message.take maxHeaderBytes)) := by
  rw [parseHeaders, splitHeadersBody]
  dsimp only
  cases crlf : find [cr, lf, cr, lf] message with
  | some position => exact parseLines_take_crlf crlf maxHeaderBytes
  | none =>
    cases found : find [lf, lf] message with
    | some position => exact parseLines_take_lf found maxHeaderBytes
    | none => rfl

theorem parseHeaders_take (message : List UInt8) :
    parseHeaders (message.take (maxHeaderBytes + 2)) = parseHeaders message := by
  have lines : (parseHeaders (message.take (maxHeaderBytes + 2))).lines =
      (parseHeaders message).lines := by
    rw [parseHeaders_lines, parseHeaders_lines, List.take_take,
      Nat.min_eq_left (Nat.le_add_right _ 2)]
  exact congrArg Headers.mk lines

end MailStack.Mime
