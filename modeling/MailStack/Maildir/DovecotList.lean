import MailStack.Maildir.Migration

/-! The file of UIDs that Dovecot keeps in a folder, in the two versions that are in use, and what
is read of it. -/

namespace MailStack.Maildir

open Lib

inductive DovecotVersion
  | one
  | three

def DovecotVersion.word : DovecotVersion → String
  | .one => "1"
  | .three => "3"

/-- A message in the file. Version 1 has no extension fields; the flags follow `:2,` in the name, if
there are any. -/
structure DovecotRecord where
  uid : UInt32
  extensions : List String
  base : String
  flags : Option String

def DovecotRecord.filename (r : DovecotRecord) : String :=
  r.base ++ (r.flags.elim "" (":2," ++ ·))

def DovecotRecord.line (r : DovecotRecord) : DovecotVersion → String
  | .one => sentence (toString r.uid.toNat) [r.filename]
  | .three => sentence (toString r.uid.toNat) (r.extensions ++ [":" ++ r.filename])

structure DovecotRecord.WellFormed (r : DovecotRecord) : Prop where
  uid : 0 < r.uid.toNat
  base : r.base.toList ≠ [] ∧ ':' ∉ r.base.toList
  inside : '\n' ∉ r.filename.toList
  last : ∀ c ∈ r.filename.toList.getLast?, isWhitespace c = false
  extensions : ∀ field ∈ r.extensions, IsWord field

/-- What a file of Dovecot says. `further` are the fields that a header of version 3 has after the
next UID. -/
structure DovecotList where
  version : DovecotVersion
  uidvalidity : UInt32
  uidnext : UInt32
  further : List String
  records : List DovecotRecord
  validity : 0 < uidvalidity.toNat
  header : ∀ field ∈ further, IsWord field
  wellFormed : ∀ r ∈ records, r.WellFormed
  increasing : records.Pairwise fun a b => a.uid.toNat < b.uid.toNat
  below : ∀ r ∈ records, r.uid.toNat < uidnext.toNat
  bases : (records.map (·.base)).Nodup

namespace DovecotList

variable (list : DovecotList)

def headerFields : List String :=
  match list.version with
  | .one => [toString list.uidvalidity.toNat, toString list.uidnext.toNat]
  | .three =>
    ("V" ++ toString list.uidvalidity.toNat) :: ("N" ++ toString list.uidnext.toNat) ::
      list.further

def headerLine : String := sentence list.version.word list.headerFields

def lines : List String := list.headerLine :: list.records.map (·.line list.version)

def text : String := String.join (list.lines.map (· ++ "\n"))

end DovecotList

theorem parseU32_toString (n : UInt32) : parseU32 (toString n.toNat) = some n := by
  have range : n.toNat ≤ u32Max := by
    have := n.toNat_lt
    simp only [u32Max]
    omega
  rw [parseU32, parseUnsigned_toString range, Option.map_some, UInt32.ofNat_toNat]

theorem isWord_toString (n : Nat) : IsWord (toString n) := by
  refine ⟨by simp, fun c mem => ?_⟩
  exact not_isWhitespace_of_graphic (graphic_of_mem_toString mem)

namespace DovecotRecord

variable {r : DovecotRecord}

theorem WellFormed.filename_ne_nil (h : r.WellFormed) : r.filename.toList ≠ [] := by
  simp [filename, h.base.1]

theorem WellFormed.dovecotBase (h : r.WellFormed) : dovecotBase r.filename = r.base := by
  obtain ⟨first, rest, chars⟩ := List.exists_cons_of_ne_nil h.base.1
  have noColon : stripPrefix ":" r.filename = none := by
    refine stripPrefix_eq_none 0 (by decide) ?_
    have other : first ≠ ':' := fun same => h.base.2 (by simp [chars, same])
    simp [filename, chars, other.symm]
  have split : splitOnceText ":2," r.filename = r.flags.map fun flags => (r.base, flags) := by
    have name : r.filename.toList = r.base.toList ++ (r.flags.elim "" (":2," ++ ·)).toList := by
      simp [filename]
    cases found : r.flags with
    | none =>
      rw [found] at name
      simp only [splitOnceText, name]
      simp [splitOnceAt_eq_none h.base.2]
    | some flags =>
      rw [found] at name
      have here : splitOnceAt [':', '2', ','] (r.base.toList ++ ([':', '2', ','] ++ flags.toList)) =
          some (r.base.toList, flags.toList) := splitOnceAt_append h.base.2 _
      simp only [List.cons_append, List.nil_append] at here
      simp only [splitOnceText, name, Option.elim_some, String.toList_append]
      simp [here]
  simp only [Maildir.dovecotBase, noColon, Option.getD_none, split]
  cases flags : r.flags with
  | none => simp [filename, flags]
  | some flags => rfl

theorem WellFormed.line_one (h : r.WellFormed) :
    dovecotRecord (r.line .one) = some (r.uid, r.base) := by
  have chars : (r.line .one).toList =
      (toString r.uid.toNat).toList ++ ' ' :: r.filename.toList := by
    simp [line]
  have trimmed : trim (r.line .one) = r.line .one := by
    refine trim_eq_self (fun c mem => ?_) fun c mem => ?_
    · rw [chars, List.head?_append_of_ne_nil _ (by simp)] at mem
      exact (isWord_toString _).inside c (List.mem_of_head? mem)
    · rw [chars, List.getLast?_append_of_ne_nil _ (by simp), List.getLast?_cons_of_ne_nil] at mem
      · exact h.last c mem
      · exact h.filename_ne_nil
  have nonempty : (r.line .one).isEmpty = false := by
    simp [← String.toList_eq_nil_iff, chars]
  have split : splitOnce ' ' (r.line .one) = some (toString r.uid.toNat, r.filename) := by
    have parts : r.line .one = toString r.uid.toNat ++ String.singleton ' ' ++ r.filename := by
      simp [← String.toList_inj, chars]
    rw [parts]
    exact splitOnce_append (blank_not_mem_toString _) _
  have base : r.base.isEmpty = false := by
    simpa [← String.toList_eq_nil_iff] using h.base.1
  simp only [dovecotRecord, trimmed, nonempty, Bool.false_eq_true, if_false, split, parseU32_toString,
    h.dovecotBase, base]

theorem WellFormed.line_inside (h : r.WellFormed) (version : DovecotVersion) :
    '\n' ∉ (r.line version).toList ∧ (r.line version).toList.getLast? ≠ some '\r' := by
  have digits : '\n' ∉ (toString r.uid.toNat).toList := fun mem =>
    absurd ((isWord_toString _).inside _ mem) (by decide)
  have last : r.filename.toList.getLast? ≠ some '\r' := fun mem =>
    absurd (h.last _ mem) (by decide)
  cases version with
  | one =>
    simp only [line, sentence_toList, List.flatMap_cons, List.flatMap_nil, List.append_nil]
    refine ⟨?_, ?_⟩
    · rw [List.mem_append, List.mem_cons, not_or, not_or]
      exact ⟨digits, by decide, h.inside⟩
    rwa [List.getLast?_append_of_ne_nil _ (by simp), List.getLast?_cons_of_ne_nil]
    exact h.filename_ne_nil
  | three =>
    have fields : '\n' ∉ r.extensions.flatMap fun w => ' ' :: w.toList := by
      intro mem
      obtain ⟨field, inFields, inside⟩ := List.mem_flatMap.mp mem
      rcases List.mem_cons.mp inside with blank | inside
      · cases blank
      · exact absurd ((h.extensions field inFields).inside _ inside) (by decide)
    simp only [line, sentence_toList, List.flatMap_append, List.flatMap_cons, List.flatMap_nil,
      List.append_nil, ← List.append_assoc]
    refine ⟨?_, ?_⟩
    · rw [List.mem_append, List.mem_append, not_or, not_or]
      exact ⟨⟨digits, fields⟩, by simpa using h.inside⟩
    rw [List.getLast?_append_of_ne_nil _ (by simp), List.getLast?_cons_of_ne_nil (by simp),
      String.toList_append, List.getLast?_append_of_ne_nil _ h.filename_ne_nil]
    exact last

end DovecotRecord

/-! A header of version 3 has a letter before each number, and these are not read. -/

theorem parseU32_letter (n : Nat) : parseU32 ("V" ++ toString n) = none := by
  have chars : ("V" ++ toString n).toList = 'V' :: (toString n).toList := by simp
  have noDigits : ('V' :: (toString n).toList).all Char.isDigit = false := by
    rw [List.all_cons]
    rfl
  simp only [parseU32, parseUnsigned, chars, List.head?_cons, Option.some.injEq, Char.reduceEq,
    if_false, noDigits, Bool.not_false, Bool.or_true, if_true, Option.map_none]

namespace DovecotList

variable {list : DovecotList}

theorem isWord_version : IsWord list.version.word := by
  cases list.version <;> exact ⟨by decide, List.forall_mem_singleton.mpr (by decide)⟩

theorem isWord_field : ∀ w ∈ list.headerFields, IsWord w := by
  intro w mem
  unfold headerFields at mem
  cases version : list.version with
  | one =>
    simp only [version, List.mem_cons, List.not_mem_nil, or_false] at mem
    rcases mem with rfl | rfl <;> exact isWord_toString _
  | three =>
    simp only [version, List.mem_cons] at mem
    rcases mem with rfl | rfl | mem
    · exact (isWord_toString _).prepend (c := 'V') (by decide)
    · exact (isWord_toString _).prepend (c := 'N') (by decide)
    · exact list.header w mem

theorem headerLine_words :
    splitWhitespace list.headerLine = list.version.word :: list.headerFields :=
  splitWhitespace_sentence isWord_version isWord_field

theorem headerLine_inside :
    '\n' ∉ list.headerLine.toList ∧ list.headerLine.toList.getLast? ≠ some '\r' := by
  have chars : ∀ c ∈ list.headerLine.toList, c ≠ '\n' ∧ c ≠ '\r' := by
    intro c mem
    rw [headerLine, sentence_toList, List.mem_append, List.mem_flatMap] at mem
    have visible : isWhitespace c = false ∨ c = ' ' := by
      rcases mem with mem | ⟨w, inRest, mem⟩
      · exact .inl (isWord_version.inside c mem)
      · rcases List.mem_cons.mp mem with blank | mem
        · exact .inr blank
        · exact .inl ((isWord_field w inRest).inside c mem)
    rcases visible with visible | rfl
    · refine ⟨?_, ?_⟩ <;> rintro rfl <;> revert visible <;> decide
    · decide
  exact ⟨fun mem => (chars _ mem).1 rfl, fun last => (chars _ (List.mem_of_getLast? last)).2 rfl⟩

theorem lines_text : Lib.lines list.text = list.lines := by
  refine lines_join fun l mem => ?_
  rcases List.mem_cons.mp mem with rfl | mem
  · exact headerLine_inside
  · obtain ⟨r, inRecords, rfl⟩ := List.mem_map.mp mem
    exact (list.wellFormed r inRecords).line_inside _

def candidates (list : DovecotList) : List Candidate := list.records.map fun r => (r.uid, r.base)

theorem read_one (one : list.version = .one) :
    readDovecotUidlist list.text =
      some
        { uidvalidity := list.uidvalidity
          uidnext := list.uidnext
          records := list.candidates } := by
  have header : dovecotHeader list.headerLine = some (list.uidvalidity, list.uidnext) := by
    have words : splitWhitespace list.headerLine =
        ["1", toString list.uidvalidity.toNat, toString list.uidnext.toNat] := by
      rw [headerLine_words, headerFields, one]
      rfl
    have version : parseUnsigned u32Max "1" = some 1 := by decide
    have positive : list.uidvalidity ≠ 0 := fun zero => by
      simpa [zero] using list.validity
    simp only [dovecotHeader, words, List.getElem?_cons_zero, List.getElem?_cons_succ,
      Option.bind_some, version, parseU32_toString, if_neg positive]
    exact if_neg (by decide)
  have records : (list.records.map (·.line .one)).filterMap dovecotRecord = list.candidates := by
    rw [List.filterMap_map, candidates, ← List.filterMap_eq_map]
    refine List.filterMap_congr fun r mem => ?_
    rw [Function.comp_apply, (list.wellFormed r mem).line_one, Function.comp_apply]
  simp only [readDovecotUidlist, lines_text, lines, header, one, records]

theorem read_three (three : list.version = .three) : readDovecotUidlist list.text = none := by
  have words : splitWhitespace list.headerLine =
      "3" :: ("V" ++ toString list.uidvalidity.toNat) :: ("N" ++ toString list.uidnext.toNat) ::
        list.further := by
    rw [headerLine_words, headerFields, three]
    rfl
  have version : parseUnsigned u32Max "3" = some 3 := by decide
  have header : dovecotHeader list.headerLine = none := by
    simp only [dovecotHeader, words, List.getElem?_cons_zero, List.getElem?_cons_succ,
      Option.bind_some, version, parseU32_letter]
    exact if_neg (by decide)
  simp only [readDovecotUidlist, lines_text, lines, header]

end DovecotList

end MailStack.Maildir
