import MailStack.Lib.Utf8
import MailStack.Mime.HeaderLines

/-! Header lines that are written out: each with CRLF after it, and read back as the fields that
they were made of. -/

namespace MailStack.Mime

open Lib

variable {raw : List UInt8} {lines : List (List UInt8)}

def written (lines : List (List UInt8)) : List UInt8 := lines.flatMap (· ++ [cr, lf])

@[simp] theorem written_nil : written [] = [] := rfl

@[simp] theorem written_cons (line : List UInt8) (lines : List (List UInt8)) :
    written (line :: lines) = line ++ [cr, lf] ++ written lines := List.flatMap_cons

@[simp] theorem written_append (lines more : List (List UInt8)) :
    written (lines ++ more) = written lines ++ written more := List.flatMap_append

theorem splitInclusive_written_append (plain : ∀ line ∈ lines, lf ∉ line) (text : List UInt8) :
    splitInclusive (written lines ++ text) = lines.map (· ++ [cr, lf]) ++ splitInclusive text := by
  have ended : ∀ raw ∈ lines.map (· ++ [cr, lf]), ∃ text, lf ∉ text ∧ raw = text ++ [lf] := by
    intro raw mem
    obtain ⟨line, inside, rfl⟩ := List.mem_map.mp mem
    exact IsCrlfLine.ended ⟨line, plain line inside, rfl⟩
  rw [← splitInclusive_lines ended, written, List.flatMap_def]

theorem splitInclusive_written (plain : ∀ line ∈ lines, lf ∉ line) :
    splitInclusive (written lines) = lines.map (· ++ [cr, lf]) := by
  have whole := splitInclusive_written_append plain []
  rwa [List.append_nil, splitInclusive, List.append_nil] at whole

theorem map_content_written (plain : ∀ line ∈ lines, lf ∉ line) :
    (splitInclusive (written lines)).map content = lines := by
  rw [splitInclusive_written plain, List.map_map]
  have same : content ∘ (· ++ [cr, lf]) = id := funext content_crlf
  rw [same, List.map_id]

theorem isHead_written
    (plain : ∀ line ∈ lines, line ≠ [] ∧ lf ∉ line) : IsHead (written lines) where
  ended := by
    rcases List.eq_nil_or_concat lines with rfl | ⟨front, last, rfl⟩
    · exact .inl rfl
    · exact .inr ⟨written front ++ last ++ [cr], by simp⟩
  filled := by
    rw [splitInclusive_written fun line mem => (plain line mem).2]
    intro raw mem blank
    obtain ⟨line, inside, rfl⟩ := List.mem_map.mp mem
    rcases blank with eq | eq
    · have size := congrArg List.length eq
      simp at size
    · exact (plain line inside).1 (@List.append_cancel_right _ _ [cr, lf] _ eq)

theorem splitHeadersBody_written (some_ : lines ≠ [])
    (plain : ∀ line ∈ lines, line ≠ [] ∧ lf ∉ line) (body : List UInt8) :
    splitHeadersBody (written lines ++ [cr, lf] ++ body) = (written lines, body) := by
  obtain ⟨front, last, rfl⟩ := (List.eq_nil_or_concat lines).resolve_left some_
  have shape : written (front.concat last) = written front ++ last ++ [cr, lf] := by simp
  have isHead := isHead_written plain
  rw [shape] at isHead ⊢
  exact splitHeadersBody_crlf isHead body

/-- A name that `parse_headers` takes for one, in lower case. -/
structure IsFieldName (name lower : String) : Prop where
  colon : (58 : UInt8) ∉ bytes name
  lowered : toAsciiLowercase (trim name) = lower
  graphic : (lower.isEmpty || !lower.toList.all fun c => 0x21 ≤ c.val && c.val ≤ 0x7e) = false
  own : (bytes name).head? ≠ some 32 ∧ (bytes name).head? ≠ some 9

theorem parseHeader_named {name lower : String} (named : IsFieldName name lower)
    (raw data : List UInt8) : parseHeader raw (bytes name ++ 58 :: data) =
      some { name := lower, raw, value := trim (fromUtf8Lossy data) } := by
  have colon : (bytes name ++ 58 :: data).findIdx? (· = 58) = some (bytes name).length := by
    rw [List.findIdx?_append]
    have none : (bytes name).findIdx? (fun b => decide (b = 58)) = none := by
      rw [List.findIdx?_eq_none_iff]
      intro b mem
      exact decide_eq_false fun eq => named.colon (eq ▸ mem)
    have here : (58 :: data).findIdx? (fun b => decide (b = 58)) = some 0 := rfl
    simp [none, here]
  have after : (bytes name ++ 58 :: data).drop ((bytes name).length + 1) = data := by
    rw [← List.drop_drop, List.drop_left]
    rfl
  rw [parseHeader, colon]
  dsimp only
  rw [List.take_left, fromUtf8Lossy_bytes, named.lowered, named.graphic, after]
  rfl

def fieldLine (field : String × String) : List UInt8 := bytes (field.1 ++ ": " ++ field.2)

def asHeaderLine (lower : String) (field : String × String) : HeaderLine :=
  { name := lower, raw := fieldLine field ++ [cr, lf], value := trim (" " ++ field.2) }

theorem fieldLine_eq (field : String × String) :
    fieldLine field = bytes field.1 ++ 58 :: bytes (" " ++ field.2) := by
  have colon : bytes ": " = 58 :: bytes " " := by decide
  rw [fieldLine, bytes_append, bytes_append, bytes_append, colon]
  simp

theorem fromLines_fieldLine {field : String × String} {lower : String}
    (named : IsFieldName field.1 lower) :
    FromLines [fieldLine field ++ [cr, lf]] (asHeaderLine lower field) := by
  have text : content (fieldLine field ++ [cr, lf]) =
      bytes field.1 ++ 58 :: bytes (" " ++ field.2) := by
    rw [content_crlf, fieldLine_eq]
  refine .first ?_ ?_ ?_
  · rw [text]
    simp
  · obtain ⟨notBlank, notTab⟩ := named.own
    rw [isFolded, text]
    cases first : bytes field.1 with
    | nil => rfl
    | cons byte more =>
      rw [first] at notBlank notTab
      simpa using And.intro notBlank notTab
  · rw [text, parseHeader_named named, fromUtf8Lossy_bytes]
    rfl

/-- Fields that are written out are read back, with their names in lower case. -/
theorem fieldsOf_fieldLines {fields : List (String × String)} {lowers : List String}
    (named : List.Forall₂ (fun field lower => IsFieldName field.1 lower) fields lowers)
    (plain : ∀ field ∈ fields, lf ∉ fieldLine field) (few : fields.length ≤ maxHeaderLines) :
    fieldsOf (written (fields.map fieldLine)) = List.zipWith asHeaderLine lowers fields := by
  have groups : List.Forall₂ FromLines (fields.map fun field => [fieldLine field ++ [cr, lf]])
      (List.zipWith asHeaderLine lowers fields) := by
    clear plain few
    induction named with
    | nil => exact .nil
    | cons here later ih => exact .cons (fromLines_fieldLine here) ih
  have flat : (fields.map fun field => [fieldLine field ++ [cr, lf]]).flatten =
      (fields.map fieldLine).map (· ++ [cr, lf]) := by
    clear named plain few groups
    induction fields with
    | nil => rfl
    | cons field fields ih => simp [ih]
  have room : ([] : List HeaderLine).length +
      (fields.map fun field => [fieldLine field ++ [cr, lf]]).flatten.length ≤ maxHeaderLines := by
    rw [flat, List.length_map, List.length_map, List.length_nil, Nat.zero_add]
    exact few
  have lines : splitInclusive (written (fields.map fieldLine)) =
      (fields.map fieldLine).map (· ++ [cr, lf]) := by
    refine splitInclusive_written ?_
    intro line mem
    obtain ⟨field, inside, rfl⟩ := List.mem_map.mp mem
    exact plain field inside
  have read := parseLines_groups groups room []
  rwa [flat, List.append_nil, List.nil_append, parseLines, ← lines] at read

end MailStack.Mime
