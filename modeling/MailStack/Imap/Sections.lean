import MailStack.Imap.Command
import MailStack.Mime.BlankLine
import MailStack.Mime.MultipartJoin
import MailStack.Mime.Structure

/-! The sections of a message that a FETCH can ask for, and how the number path of a part is
followed. -/

namespace MailStack.Imap

open Lib Mime

/-- `raw_block`: the header lines as they stand in the message, all or those that are asked for. -/
def rawBlock (headers : Headers) (filter : Option (List String × Bool)) : List UInt8 :=
  let included := headers.lines.filter fun line =>
    match filter with
    | none => true
    | some (names, not) =>
      let matched := names.any fun name => eqIgnoreAsciiCase name line.name
      if not then !matched else matched
  (included.flatMap fun line =>
    if line.raw.getLast? = some lf then line.raw else line.raw ++ [cr, lf]) ++ [cr, lf]

/-- The loop of `resolve_part`, with the number of steps made. In a message that is no multipart,
the number 1 ends it there. -/
def resolveFrom : Nat → List UInt8 → List Nat → Option (List UInt8)
  | _, current, [] => some current
  | depth, current, index :: rest =>
    let content := contentType (parseHeaders current)
    if content.isMultipart then
      match content.param "boundary" with
      | none => none
      | some boundary =>
        if index = 0 then none
        else
          match (multipartParts (splitHeadersBody current).2 boundary)[index - 1]? with
          | none => none
          | some part => resolveFrom (depth + 1) part rest
    else if depth = 0 ∧ index = 1 then some current
    else none

def resolvePart (message : List UInt8) (path : List Nat) : Option (List UInt8) :=
  resolveFrom 0 message path

def extractSection (message : List UInt8) : Section → Option (List UInt8)
  | .full => some message
  | .header => some (rawBlock (parseHeaders message) none)
  | .text => some (splitHeadersBody message).2
  | .headerFields names not => some (rawBlock (parseHeaders message) (some (names, not)))
  | .part path => (resolvePart message path).map fun part => (splitHeadersBody part).2
  | .mime path =>
    if path.isEmpty then some (rawBlock (parseHeaders message) none)
    else (resolvePart message path).map fun part => rawBlock (parseHeaders part) none
  | .headerPart path =>
    if path.isEmpty then some (rawBlock (parseHeaders message) none)
    else (resolvePart message path).map fun part => rawBlock (parseHeaders part) none
  | .textPart path =>
    if path.isEmpty then some (splitHeadersBody message).2
    else (resolvePart message path).map fun part => (splitHeadersBody part).2

end MailStack.Imap

/-! The sections of the parts that a message was made from. -/

namespace MailStack.Imap

open Lib Mime

variable {boundary : String} {preamble epilogue message part : List UInt8}
  {parts : List (List UInt8)}

theorem resolvePart_multipart {index : Nat}
    (multipart : (contentType (parseHeaders message)).isMultipart = true)
    (param : (contentType (parseHeaders message)).param "boundary" = some boundary) :
    resolvePart message [index + 1] =
      (multipartParts (splitHeadersBody message).2 boundary)[index]? := by
  rw [resolvePart, resolveFrom]
  simp only [multipart, param, if_true, Nat.add_sub_cancel, if_neg (Nat.succ_ne_zero index)]
  cases (multipartParts (splitHeadersBody message).2 boundary)[index]? <;> rfl

/-- Parts that were joined are found again, and what is fetched of a part is what follows its blank
line, exactly where no LF is in the delimiter and that blank line is one that is looked for. -/
theorem joined_parts_fetched_iff (joinable : Joinable boundary preamble parts) :
    (multipartParts (joined boundary preamble epilogue parts) boundary = parts ↔
        parts = [] ∨ '\n' ∉ boundary.toList) ∧
      ∀ (message : List UInt8), (contentType (parseHeaders message)).isMultipart = true →
        (contentType (parseHeaders message)).param "boundary" = some boundary →
        (splitHeadersBody message).2 = joined boundary preamble epilogue parts →
        ∀ (index : Nat) (head blank rest : List UInt8), parts[index]? =
          some (head ++ blank ++ rest) →
          IsHead head → IsBlank blank →
          (extractSection message (.part [index + 1]) = some rest ↔
            '\n' ∉ boundary.toList ∧ (rest = [] ∨ IsFound head blank rest)) := by
  have split := @multipartParts_joined_iff boundary preamble epilogue parts joinable
  refine ⟨split, ?_⟩
  intro message multipart param body index head blank rest there isHead isBlank
  rw [extractSection, resolvePart_multipart multipart param, body]
  by_cases withLf : '\n' ∈ boundary.toList
  · rw [multipartParts_of_lf (mem_marker.mpr withLf)]
    constructor
    · intro found
      cases found
    · rintro ⟨noLf, -⟩
      exact absurd withLf noLf
  · rw [split.mpr (.inr withLf), there, Option.map_some, Option.some.injEq,
      body_eq_iff isHead isBlank, and_iff_right withLf]

def blankParts : List (List UInt8) :=
  [bytes "Subject: a\r\n\r\none\r\n\r\ntwo", bytes "\r\none"]

def joinedMessage : List UInt8 :=
  bytes "Content-Type: multipart/mixed; boundary=b\r\n\r\n" ++ joined "b" [] [] blankParts

theorem blankParts_joinable : Joinable "b" [] blankParts where
  trailing c mem := by
    obtain rfl : 'b' = c := by simpa using mem
    decide
  few := by simp [blankParts, maxParts]
  plain := by
    unfold NoDelimiter
    decide +kernel
  before := List.forall_mem_nil _
  ended := .inl rfl

theorem joinedMessage_multipart :
    (contentType (parseHeaders joinedMessage)).isMultipart = true ∧
      (contentType (parseHeaders joinedMessage)).param "boundary" = some "b" ∧
      (splitHeadersBody joinedMessage).2 = joined "b" [] [] blankParts := by
  decide +kernel

theorem joined_parts_fetched_two :
    multipartParts (joined "b" [] [] blankParts) "b" = blankParts ∧
      extractSection joinedMessage (.part [1]) = some (bytes "one\r\n\r\ntwo") := by
  obtain ⟨multipart, param, body⟩ := joinedMessage_multipart
  have both := @joined_parts_fetched_iff "b" [] [] blankParts blankParts_joinable
  have isHead : IsHead (bytes "Subject: a\r\n") := by decide +kernel
  have isBlank : IsBlank [cr, lf] := .inr rfl
  have there : blankParts[0]? =
      some (bytes "Subject: a\r\n" ++ [cr, lf] ++ bytes "one\r\n\r\ntwo") := by decide +kernel
  refine ⟨both.1.mpr (.inr (by decide)), ?_⟩
  refine (both.2 joinedMessage multipart param body 0 _ _ _ there isHead isBlank).mpr
    ⟨by decide, .inr (.inl ⟨rfl, ?_⟩)⟩
  decide +kernel

/-- Of a part that begins with its blank line nothing is fetched. -/
theorem part_after_blank_line_lost :
    multipartParts (joined "b" [] [] blankParts) "b" = blankParts ∧
      blankParts[1]? = some ([] ++ [cr, lf] ++ bytes "one") ∧
      extractSection joinedMessage (.part [2]) = some [] := by
  decide +kernel

end MailStack.Imap
