import MailStack.Lib.Text

/-! How the SMTP client writes message data: lines end with CR and LF, a dot is put before a line
that begins with one, and a dot alone ends the data. -/

namespace MailStack.Smtp

open Lib

/-- The line without one CR at its end. -/
def stripLineCr (line : List Char) : List Char :=
  if line.getLast? = some '\r' then line.dropLast else line

def stuffLine (line : List Char) : List Char :=
  if line.head? = some '.' then '.' :: line else line

def crlf : List Char := ['\r', '\n']

/-- The lines of a text: what is between the line feeds, without one CR at the end. -/
def textLines (text : String) : List (List Char) := (text.toList.splitOn '\n').map stripLineCr

def dotStuff (text : String) : String :=
  String.ofList (crlf.intercalate ((textLines text).map stuffLine))

def terminateData (text : String) : String :=
  let body := dotStuff text
  let separator := if crlf <:+ body.toList then "" else "\r\n"
  body ++ separator ++ ".\r\n"

/-- The lines that a text stands for: nothing follows a final line ending. -/
def canonicalLines (text : String) : List (List Char) :=
  let lines := textLines text
  if lines.length > 1 ∧ lines.getLast? = some [] then lines.dropLast else lines

def crlfCanonical (text : String) : String :=
  String.ofList ((canonicalLines text).flatMap (· ++ crlf))

theorem intercalate_concat {α : Type*} (sep last : List α) (init : List (List α)) :
    sep.intercalate (init ++ [last]) = init.flatMap (· ++ sep) ++ last := by
  induction init with
  | nil => simp
  | cons first rest ih =>
    cases rest with
    | nil => simp
    | cons second rest =>
      simp only [List.cons_append, List.intercalate_cons_cons] at ih ⊢
      rw [ih]
      simp

theorem stripLineCr_subset (line : List Char) : stripLineCr line ⊆ line := by
  unfold stripLineCr
  split
  · exact List.dropLast_subset line
  · exact List.Subset.refl line

theorem textLines_ne_nil (text : String) : textLines text ≠ [] := by
  simp [textLines, List.splitOn_ne_nil]

variable {line : List Char}

theorem not_mem_textLines {text : String} (h : line ∈ textLines text) :
    '\n' ∉ line := by
  obtain ⟨part, mem, rfl⟩ := List.mem_map.mp h
  exact fun inLine => not_mem_of_mem_splitOn mem (stripLineCr_subset part inLine)

theorem canonicalLines_subset (text : String) : canonicalLines text ⊆ textLines text := by
  simp only [canonicalLines]
  split
  · exact List.dropLast_subset _
  · exact List.Subset.refl _

@[simp] theorem stuffLine_eq_nil : stuffLine line = [] ↔ line = [] := by
  cases line with
  | nil => simp [stuffLine]
  | cons first rest => simp only [stuffLine]; split <;> simp

theorem not_mem_stuffLine (h : '\n' ∉ line) : '\n' ∉ stuffLine line := by
  unfold stuffLine
  split
  · simpa using h
  · exact h

/-- Where the last line has no line feed, a text ends with a line ending exactly if that line is
empty and another is before it. -/
theorem crlf_suffix_iff {init : List (List Char)} {last : List Char} (h : '\n' ∉ last) :
    crlf <:+ init.flatMap (· ++ crlf) ++ last ↔ last = [] ∧ init ≠ [] := by
  constructor
  · rintro ⟨before, eq⟩
    have lastChar : (init.flatMap (· ++ crlf) ++ last).getLast? = some '\n' := by
      rw [← eq]
      simp [crlf]
    have empty : last = [] := by
      by_contra some
      rw [List.getLast?_append_of_ne_nil _ some] at lastChar
      exact h (List.mem_of_getLast? lastChar)
    refine ⟨empty, ?_⟩
    rintro rfl
    simp [empty] at lastChar
  · rintro ⟨rfl, some⟩
    rw [← List.dropLast_concat_getLast some]
    simp only [List.flatMap_append, List.flatMap_singleton, List.append_nil]
    exact ⟨init.dropLast.flatMap (· ++ crlf) ++ init.getLast some, by simp⟩

/-- The written data is its lines, each with its dot and its line ending, and a dot alone. -/
theorem toList_terminateData (text : String) :
    (terminateData text).toList =
      (canonicalLines text).flatMap (fun line => stuffLine line ++ crlf) ++ ['.', '\r', '\n'] := by
  obtain ⟨init, last, lines⟩ : ∃ init last, textLines text = init ++ [last] :=
    ⟨_, _, (List.dropLast_concat_getLast (textLines_ne_nil text)).symm⟩
  have inLast : '\n' ∉ stuffLine last :=
    not_mem_stuffLine (not_mem_textLines (by rw [lines]; simp))
  have body : (dotStuff text).toList =
      (init.map stuffLine).flatMap (· ++ crlf) ++ stuffLine last := by
    rw [dotStuff, lines, String.toList_ofList, List.map_append]
    exact intercalate_concat _ _ _
  have ends : crlf <:+ (dotStuff text).toList ↔ last = [] ∧ init ≠ [] := by
    rw [body, crlf_suffix_iff inLast]
    simp
  have several : (textLines text).length > 1 ∧ (textLines text).getLast? = some [] ↔
      last = [] ∧ init ≠ [] := by
    rw [lines]
    simp [and_comm, List.length_pos_iff]
  by_cases finished : last = [] ∧ init ≠ []
  · have canonical : canonicalLines text = init := by
      simp only [canonicalLines]
      rw [if_pos (several.mpr finished), lines, List.dropLast_concat]
    simp only [terminateData, String.toList_append]
    rw [if_pos (ends.mpr finished), canonical, body]
    simp [finished.1, stuffLine, List.flatMap_map]
  · have canonical : canonicalLines text = init ++ [last] := by
      simp only [canonicalLines]
      rw [if_neg (several.not.mpr finished), lines]
    simp only [terminateData, String.toList_append]
    rw [if_neg (ends.not.mpr finished), canonical, body]
    simp [List.flatMap_map, crlf]

example : crlfCanonical "..a\n.\r\nb\r" = "..a\r\n.\r\nb\r\n" := by decide

example : terminateData "..a\n.\r\nb\r" = "...a\r\n..\r\nb\r\n.\r\n" := by decide

end MailStack.Smtp
