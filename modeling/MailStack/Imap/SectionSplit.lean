import MailStack.Imap.Sections
import MailStack.Mime.HeaderLines
import Mathlib.Data.List.TakeWhile

/-! Whether the header and the text that are fetched of a message are the message. -/

namespace MailStack.Imap

open Lib Mime

/-- Every line that ends does so with CRLF. -/
def HasCrlf (message : List UInt8) : Prop :=
  ∀ raw ∈ splitInclusive message, lf ∈ raw → [cr, lf] <:+ raw

instance (message : List UInt8) : Decidable (HasCrlf message) :=
  inferInstanceAs (Decidable (∀ _ ∈ _, _ → _))

def headerLines (message : List UInt8) : List (List UInt8) :=
  (splitInclusive message).takeWhile (· ≠ [cr, lf])

/-- The header section is within the limits of the parser. -/
structure WithinLimits (message : List UInt8) : Prop where
  lines : (headerLines message).length ≤ maxHeaderLines
  bytes : (headerLines message).flatten.length ≤ maxHeaderBytes

/-- A blank line ends header lines, none of which is dropped, or there is nothing but this line. -/
def Intact (message : List UInt8) : Prop :=
  message = [cr, lf] ∨
    ([cr, lf] ∈ splitInclusive message ∧ headerLines message ≠ [] ∧ Mime.Kept (headerLines message))

instance (message : List UInt8) : Decidable (Intact message) :=
  inferInstanceAs (Decidable (_ ∨ _))

/-- The header and the text are the message, and the fields of some names and those of all others
are the fields of the header. -/
structure Partitioned (message : List UInt8) : Prop where
  whole : ∃ header text, extractSection message .header = some header ∧
    extractSection message .text = some text ∧ extractSection message .full = some (header ++ text)
  fields : ∀ names, ∃ header asked others, extractSection message .header = some header ∧
    extractSection message (.headerFields names false) = some asked ∧
    extractSection message (.headerFields names true) = some others ∧
    ((fieldsOf asked).map (·.name)).Disjoint ((fieldsOf others).map (·.name)) ∧
    (fieldsOf asked ++ fieldsOf others).Perm (fieldsOf header)

variable {message raw : List UInt8}

theorem HasCrlf.isCrlfLine (crlf : HasCrlf message) (mem : raw ∈ splitInclusive message)
    (ended : raw.getLast? = some lf) : IsCrlfLine raw := by
  have noLf := not_mem_dropLast mem
  obtain ⟨text, rfl⟩ := crlf raw mem (List.mem_of_getLast? ended)
  refine ⟨text, fun inside => noLf ?_, rfl⟩
  rw [List.dropLast_append_of_ne_nil (by simp)]
  exact List.mem_append_left _ inside

theorem eq_takeWhile_append {α : Type*} [DecidableEq α] {x : α} {xs : List α} (mem : x ∈ xs) :
    ∃ ys, xs = xs.takeWhile (· ≠ x) ++ x :: ys := by
  induction xs with
  | nil => cases mem
  | cons y xs ih =>
    by_cases same : y = x
    · subst same
      exact ⟨xs, by simp⟩
    · obtain ⟨ys, eq⟩ := ih ((List.mem_cons.mp mem).resolve_left (Ne.symm same))
      refine ⟨ys, ?_⟩
      rw [List.takeWhile_cons, decide_eq_true same, if_pos rfl, List.cons_append, ← eq]

theorem exists_body (blank : [cr, lf] ∈ splitInclusive message) :
    ∃ body, splitInclusive message = headerLines message ++ [cr, lf] :: body :=
  eq_takeWhile_append blank

theorem mem_headerLines (mem : raw ∈ headerLines message) :
    raw ∈ splitInclusive message ∧ raw ≠ [cr, lf] := by
  refine ⟨(List.takeWhile_subset _) mem, ?_⟩
  have notBlank := @List.mem_takeWhile_imp _ (fun raw => decide (raw ≠ [cr, lf])) _ _ mem
  exact of_decide_eq_true notBlank

theorem isCrlfLine_of_headerLines (crlf : HasCrlf message)
    (blank : [cr, lf] ∈ splitInclusive message) (mem : raw ∈ headerLines message) :
    IsCrlfLine raw := by
  obtain ⟨body, split⟩ := exists_body blank
  have all := allEnded_splitInclusive message
  rw [split] at all
  exact crlf.isCrlfLine (mem_headerLines mem).1 (all.before raw mem)

theorem content_of_headerLines (crlf : HasCrlf message)
    (blank : [cr, lf] ∈ splitInclusive message) (mem : raw ∈ headerLines message) :
    content raw ≠ [] := by
  obtain ⟨text, noLf, rfl⟩ := isCrlfLine_of_headerLines crlf blank mem
  rw [content_crlf]
  rintro rfl
  exact (mem_headerLines mem).2 rfl

theorem allEnded_headerLines (message : List UInt8) : AllEnded (headerLines message) := by
  have all := allEnded_splitInclusive message
  rw [← @List.takeWhile_append_dropWhile _ (fun raw => decide (raw ≠ [cr, lf]))
    (splitInclusive message)] at all
  exact all.left

theorem made_headerLines (message : List UInt8) :
    Made (headerLines message) (parseLines [] (headerLines message)) := by
  have none_ : Made [] [] := ⟨[], .nil, List.Sublist.refl _⟩
  have made := made_parseLines none_ (List.forall_mem_nil _)
    (allEnded_headerLines message)
  rwa [List.nil_append] at made

/-- With lines before it, the blank line ends the header. -/
theorem split_at_blank (crlf : HasCrlf message) {body : List (List UInt8)}
    (split : splitInclusive message = headerLines message ++ [cr, lf] :: body)
    (some_ : headerLines message ≠ []) :
    splitInclusive (headerLines message).flatten = headerLines message ∧
      splitHeadersBody message = ((headerLines message).flatten, body.flatten) := by
  have blank : [cr, lf] ∈ splitInclusive message := by
    rw [split]
    exact List.mem_append_right _ List.mem_cons_self
  have ended (raw : List UInt8) (mem : raw ∈ headerLines message) : IsCrlfLine raw :=
    isCrlfLine_of_headerLines crlf blank mem
  have lines : splitInclusive (headerLines message).flatten = headerLines message := by
    have read := splitInclusive_lines (fun raw mem => (ended raw mem).ended) []
    rwa [List.append_nil, splitInclusive, List.append_nil] at read
  refine ⟨lines, ?_⟩
  have whole : message = (headerLines message).flatten ++ [cr, lf] ++ body.flatten := by
    have bytes := flatten_splitInclusive message
    rw [split, List.flatten_append, List.flatten_cons, ← List.append_assoc] at bytes
    exact bytes.symm
  obtain ⟨init, last, eq⟩ := (List.eq_nil_or_concat (headerLines message)).resolve_left some_
  rw [List.concat_eq_append] at eq
  have lastMem : last ∈ headerLines message := by
    rw [eq]
    exact List.mem_append_right _ (List.mem_singleton.mpr rfl)
  obtain ⟨text, -, lastEq⟩ := ended last lastMem
  have front : (headerLines message).flatten = (init.flatten ++ text) ++ [cr, lf] := by
    rw [eq, lastEq, List.flatten_append, List.flatten_singleton, List.append_assoc]
  have isHead : IsHead (headerLines message).flatten := by
    refine ⟨.inr ⟨init.flatten ++ text ++ [cr], by rw [front]; simp⟩, fun raw mem isBlank => ?_⟩
    rw [lines] at mem
    rcases isBlank with rfl | rfl
    · obtain ⟨text, -, eq⟩ := ended _ mem
      have size := congrArg List.length eq
      rw [List.length_append] at size
      simp at size
    · exact (mem_headerLines mem).2 rfl
  rw [front] at isHead whole ⊢
  have parts := splitHeadersBody_crlf isHead body.flatten
  rw [← whole] at parts
  exact parts

theorem parseHeaders_lines (crlf : HasCrlf message) (within : WithinLimits message)
    (blank : [cr, lf] ∈ splitInclusive message) (some_ : headerLines message ≠ []) :
    (parseHeaders message).lines = parseLines [] (headerLines message) := by
  obtain ⟨body, split⟩ := exists_body blank
  obtain ⟨lines, parts⟩ := split_at_blank crlf split some_
  rw [parseHeaders, parts, List.take_of_length_le within.bytes, lines]

theorem header_of_crlf (body : List UInt8) : ∃ n ≥ 2,
    (splitHeadersBody ([cr, lf] ++ body)).1 = ([cr, lf] ++ body).take n := by
  unfold splitHeadersBody
  cases find [cr, lf, cr, lf] ([cr, lf] ++ body) with
  | some position => exact ⟨position + 2, by omega, rfl⟩
  | none =>
    cases found : find [lf, lf] ([cr, lf] ++ body) with
    | some position =>
      refine ⟨position + 1, ?_, rfl⟩
      obtain ⟨before, after, eq, size⟩ := append_of_find found
      by_contra less
      have none_ : before = [] := List.length_eq_zero_iff.mp (by omega)
      rw [none_] at eq
      cases (List.cons.inj eq).1
    | none => exact ⟨([cr, lf] ++ body).length, by simp, List.take_length.symm⟩

theorem parseHeaders_of_blank (body : List UInt8) :
    (parseHeaders ([cr, lf] ++ body)).lines = [] := by
  have begins : ∃ more, ((splitHeadersBody ([cr, lf] ++ body)).1.take maxHeaderBytes) =
      [cr] ++ [lf] ++ more := by
    obtain ⟨n, two, eq⟩ := header_of_crlf body
    have room : 2 ≤ maxHeaderBytes := by decide
    obtain ⟨k, size⟩ : ∃ k, min maxHeaderBytes n = k + 2 := ⟨min maxHeaderBytes n - 2, by omega⟩
    exact ⟨body.take k, by rw [eq, List.take_take, size]; rfl⟩
  obtain ⟨more, eq⟩ := begins
  have first : content ([cr] ++ [lf]) = [] := by decide
  rw [parseHeaders, eq, splitInclusive_append, splitInclusive_line (by decide)]
  exact @parseLines_blank [] _ (splitInclusive more) first

/-- A header goes into the section, as the names say. -/
def included (filter : Option (List String × Bool)) (header : HeaderLine) : Bool :=
  match filter with
  | none => true
  | some (names, not) =>
    let matched := names.any fun name => eqIgnoreAsciiCase name header.name
    if not then !matched else matched

theorem rawBlock_eq (headers : Headers) (filter : Option (List String × Bool)) :
    rawBlock headers filter =
      (headers.lines.filter (included filter)).flatMap (fun header => endLine header.raw) ++
        [cr, lf] :=
  rfl

theorem endLine_ended (raw : List UInt8) : (endLine raw).getLast? = some lf := by
  unfold endLine
  split
  · assumption
  · rw [List.getLast?_append_of_ne_nil _ (by simp)]
    rfl

theorem blank_mem_rawBlock (headers : Headers) (filter : Option (List String × Bool))
    (text : List UInt8) : [cr, lf] ∈ splitInclusive (rawBlock headers filter ++ text) := by
  rw [rawBlock_eq]
  rcases List.eq_nil_or_concat (headers.lines.filter (included filter)) with eq | ⟨init, last, eq⟩
  · rw [eq]
    exact mem_splitInclusive_of_isBlank (.inr rfl) text
  · obtain ⟨front, ended⟩ := List.getLast?_eq_some_iff.mp (endLine_ended last.raw)
    rw [eq, List.concat_eq_append, List.flatMap_append, List.flatMap_singleton, ended,
      ← List.append_assoc, List.append_assoc _ [cr, lf], splitInclusive_append]
    exact List.mem_append_right _ (mem_splitInclusive_of_isBlank (.inr rfl) text)

variable {headers : Headers} {kept : List (List UInt8)}

theorem fieldsOf_rawBlock (made : Made kept headers.lines) (crlf : ∀ raw ∈ kept, IsCrlfLine raw)
    (few : kept.length ≤ maxHeaderLines) (filter : Option (List String × Bool)) :
    fieldsOf (rawBlock headers filter) = headers.lines.filter (included filter) := by
  rw [rawBlock_eq]
  exact fieldsOf_written (made.filter _) crlf few

/-- Each field is in one of two sections of the same names. -/
theorem fields_of_sections (made : Made kept headers.lines) (crlf : ∀ raw ∈ kept, IsCrlfLine raw)
    (few : kept.length ≤ maxHeaderLines) (names : List String) :
    ((fieldsOf (rawBlock headers (some (names, false)))).map (·.name)).Disjoint
        ((fieldsOf (rawBlock headers (some (names, true)))).map (·.name)) ∧
      (fieldsOf (rawBlock headers (some (names, false))) ++
        fieldsOf (rawBlock headers (some (names, true)))).Perm (fieldsOf (rawBlock headers none)) := by
  rw [fieldsOf_rawBlock made crlf few, fieldsOf_rawBlock made crlf few,
    fieldsOf_rawBlock made crlf few]
  constructor
  · intro name asked other
    obtain ⟨header, mem, rfl⟩ := List.mem_map.mp asked
    obtain ⟨header', mem', same⟩ := List.mem_map.mp other
    have matched : (names.any fun name => eqIgnoreAsciiCase name header.name) = true :=
      (List.mem_filter.mp mem).2
    have unmatched : (!names.any fun name => eqIgnoreAsciiCase name header'.name) = true :=
      (List.mem_filter.mp mem').2
    have same : header'.name = header.name := same
    rw [same, matched] at unmatched
    cases unmatched
  · have all : headers.lines.filter (included none) = headers.lines :=
      List.filter_eq_self.mpr fun _ _ => rfl
    rw [all]
    exact List.filter_append_perm (included (some (names, false))) headers.lines

theorem Partitioned.blank (parts : Partitioned message) : [cr, lf] ∈ splitInclusive message := by
  obtain ⟨header, text, headerEq, textEq, fullEq⟩ := parts.whole
  have whole : message = header ++ text := Option.some.inj fullEq
  rw [whole, ← Option.some.inj headerEq]
  exact blank_mem_rawBlock _ _ text

theorem whole_iff : (∃ header text, extractSection message .header = some header ∧
      extractSection message .text = some text ∧
      extractSection message .full = some (header ++ text)) ↔
    message = rawBlock (parseHeaders message) none ++ (splitHeadersBody message).2 := by
  constructor
  · rintro ⟨header, text, headerEq, textEq, fullEq⟩
    rw [← Option.some.inj headerEq, ← Option.some.inj textEq] at fullEq
    exact Option.some.inj fullEq
  · intro whole
    exact ⟨_, _, rfl, rfl, congrArg some whole⟩

/-- The message is in its parts where its headers are all the lines before the blank one. -/
theorem whole_iff_kept (crlf : HasCrlf message) (within : WithinLimits message)
    (blank : [cr, lf] ∈ splitInclusive message) (some_ : headerLines message ≠ []) :
    message = rawBlock (parseHeaders message) none ++ (splitHeadersBody message).2 ↔
      Mime.Kept (headerLines message) := by
  have ended (raw : List UInt8) (mem : raw ∈ headerLines message) : IsCrlfLine raw :=
    isCrlfLine_of_headerLines crlf blank mem
  obtain ⟨body, split⟩ := exists_body blank
  have bytes : (headerLines message).flatten ++ [cr, lf] ++ body.flatten = message := by
    have bytes := flatten_splitInclusive message
    rwa [split, List.flatten_append, List.flatten_cons, ← List.append_assoc] at bytes
  obtain ⟨groups, fields, sub⟩ := made_headerLines message
  have raws : rawBlock (parseHeaders message) none =
      (parseLines [] (headerLines message)).flatMap (·.raw) ++ [cr, lf] := by
    have all : (parseHeaders message).lines.filter (included none) = (parseHeaders message).lines :=
      List.filter_eq_self.mpr fun _ _ => rfl
    rw [rawBlock_eq, all, parseHeaders_lines crlf within blank some_, flatMap_raw fields,
      flatMap_endLine fields fun raw mem => ended raw (sub.subset mem)]
  rw [← flatMap_raw_eq_iff (fun raw => content_of_headerLines crlf blank)
    (allEnded_headerLines message) within.lines, raws, (split_at_blank crlf split some_).2]
  constructor
  · intro whole
    have both := bytes.trans whole
    exact (List.append_cancel_right (List.append_cancel_right both)).symm
  · intro same
    rw [same, bytes]

theorem only_blank {body : List UInt8} (whole : [cr, lf] ++ body =
      rawBlock (parseHeaders ([cr, lf] ++ body)) none ++ (splitHeadersBody ([cr, lf] ++ body)).2) :
    [cr, lf] ++ body = [cr, lf] := by
  have nothing : rawBlock (parseHeaders ([cr, lf] ++ body)) none = [cr, lf] := by
    rw [rawBlock_eq, parseHeaders_of_blank]
    rfl
  rw [nothing] at whole
  have same := (List.append_cancel_left whole).symm
  have isHead : IsHead [] := ⟨.inl rfl, List.forall_mem_nil _⟩
  rcases (body_eq_iff isHead (.inr rfl)).mp same with none_ | ⟨-, ends⟩ | ⟨other, -⟩
  · rw [none_]
    rfl
  · cases List.suffix_nil.mp ends
  · cases other

/-- For each message with CRLF line ends whose header section is within the limits, its sections are
its parts exactly where it is intact. -/
theorem partitioned_iff (crlf : HasCrlf message) (within : WithinLimits message) :
    Partitioned message ↔ Intact message := by
  constructor
  · intro parts
    have blank := parts.blank
    have whole := whole_iff.mp parts.whole
    by_cases none_ : headerLines message = []
    · obtain ⟨body, split⟩ := exists_body blank
      rw [none_, List.nil_append] at split
      have bytes := flatten_splitInclusive message
      rw [split, List.flatten_cons] at bytes
      rw [← bytes] at whole ⊢
      exact .inl (only_blank whole)
    · exact .inr ⟨blank, none_, (whole_iff_kept crlf within blank none_).mp whole⟩
  · rintro (rfl | ⟨blank, some_, kept⟩)
    · have none_ : (parseHeaders [cr, lf]).lines = [] := parseHeaders_of_blank []
      refine ⟨whole_iff.mpr (by decide), fun names => ⟨_, _, _, rfl, rfl, rfl, ?_⟩⟩
      refine @fields_of_sections _ [] ?_ (List.forall_mem_nil _)
        (Nat.zero_le _) names
      rw [none_]
      exact ⟨[], .nil, List.Sublist.refl _⟩
    · have made := made_headerLines message
      rw [← parseHeaders_lines crlf within blank some_] at made
      refine ⟨whole_iff.mpr ((whole_iff_kept crlf within blank some_).mpr kept), fun names => ?_⟩
      exact ⟨_, _, _, rfl, rfl, rfl, fields_of_sections made
        (fun raw => isCrlfLine_of_headerLines crlf blank) within.lines names⟩

/-- A field that is folded, one with an empty value and a body of two lines. -/
theorem partitioned_iff_folded :
    HasCrlf (bytes "A: x\r\n\ty\r\nB:\r\n\r\nbody\r\nend") ∧
      Intact (bytes "A: x\r\n\ty\r\nB:\r\n\r\nbody\r\nend") ∧
      Partitioned (bytes "A: x\r\n\ty\r\nB:\r\n\r\nbody\r\nend") := by
  have crlf : HasCrlf (bytes "A: x\r\n\ty\r\nB:\r\n\r\nbody\r\nend") := by decide +kernel
  have intact : Intact (bytes "A: x\r\n\ty\r\nB:\r\n\r\nbody\r\nend") := by decide +kernel
  exact ⟨crlf, intact, (partitioned_iff crlf ⟨by decide +kernel, by decide +kernel⟩).mpr intact⟩

/-- A line that has no colon is in no section. -/
theorem bad_line_dropped :
    HasCrlf (bytes "A: x\r\nbad line\r\n\r\nbody") ∧
      WithinLimits (bytes "A: x\r\nbad line\r\n\r\nbody") ∧
      extractSection (bytes "A: x\r\nbad line\r\n\r\nbody") .header = some (bytes "A: x\r\n\r\n") ∧
      extractSection (bytes "A: x\r\nbad line\r\n\r\nbody") .text = some (bytes "body") ∧
      ¬Partitioned (bytes "A: x\r\nbad line\r\n\r\nbody") := by
  refine ⟨by decide +kernel, ⟨by decide +kernel, by decide +kernel⟩, by decide +kernel,
    by decide +kernel, fun parts => ?_⟩
  exact absurd (whole_iff.mp parts.whole) (by decide +kernel)

end MailStack.Imap
