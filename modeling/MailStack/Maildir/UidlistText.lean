import Mathlib.Data.List.Sort
import MailStack.Maildir.Uidlist

/-! The text of the list of UIDs: how it is written to its file and how it is read from there. -/

namespace MailStack.Maildir

open Lib

/-! ### Writing -/

def UidEntry.line (e : UidEntry) : String :=
  toString e.uid ++ " " ++ toString e.modseq ++ " " ++ e.base

def UidList.lines (list : UidList) : List String :=
  ["MAILSTACK-UIDLIST 2",
    "uidvalidity " ++ toString list.uidvalidity,
    "uidnext " ++ toString list.uidnext,
    "highestmodseq " ++ toString list.highestModseq] ++ list.byUid.map UidEntry.line

/-- What `write_uidlist` writes. -/
def UidList.render (list : UidList) : String := String.join (list.lines.map (· ++ "\n"))

/-! ### Reading -/

inductive UidlistVersion
  | one
  | two
deriving DecidableEq

/-- What was read of a file so far. The entries are in the order of their UIDs. -/
structure UidlistReading where
  uidvalidity : Option Nat
  uidnext : Option Nat
  highestModseq : Option Nat
  byUid : List UidEntry

/-- Modification numbers from 1 on, in the order of the UIDs. -/
def number (entries : List UidEntry) : List UidEntry :=
  (entries.zipIdx 1).map fun (e, modseq) => { e with modseq }

def UidlistReading.start (version : UidlistVersion) : UidlistReading :=
  { uidvalidity := none
    uidnext := none
    highestModseq := if version = .one then some 0 else none
    byUid := [] }

namespace UidlistReading

variable (r : UidlistReading)

def readUidvalidity (value : String) : Option UidlistReading :=
  match parseUnsigned u32Max value with
  | some n =>
    if 0 < n ∧ r.uidvalidity.isNone then some { r with uidvalidity := some n } else none
  | none => none

def readUidnext (value : String) : Option UidlistReading :=
  match parseUnsigned u32Max value with
  | some n => if 0 < n ∧ r.uidnext.isNone then some { r with uidnext := some n } else none
  | none => none

def readHighestModseq (version : UidlistVersion) (value : String) : Option UidlistReading :=
  if version = .one then none
  else
    match parseUnsigned u64Max value with
    | some n =>
      if r.highestModseq.isNone then some { r with highestModseq := some n } else none
    | none => none

/-- The modification number and the base. The first version has only the base. -/
def parseRest (version : UidlistVersion) (rest : String) : Option (Nat × String) :=
  match version with
  | .one => some (0, rest)
  | .two =>
    match splitOnce ' ' rest with
    | none => none
    | some (field, base) =>
      match parseUnsigned u64Max field with
      | none => none
      | some modseq => if modseq = 0 then none else some (modseq, base)

def insert (e : UidEntry) : Option UidlistReading :=
  if e.uid = 0 ∨ ¬isValidBase e.base ∨ (∃ o ∈ r.byUid, o.uid = e.uid) ∨
      ∃ o ∈ r.byUid, o.base = e.base then none
  else some { r with byUid := r.byUid.orderedInsert (fun a b => a.uid ≤ b.uid) e }

def readEntry (version : UidlistVersion) (line : String) : Option UidlistReading :=
  match splitOnce ' ' line with
  | none => none
  | some (field, rest) =>
    match parseUnsigned u32Max field with
    | none => none
    | some uid =>
      match parseRest version rest with
      | none => none
      | some (modseq, base) => r.insert { uid, base, modseq }

/-- One line after the header. `none` when the file is not as it should be. -/
def readLine (version : UidlistVersion) (line : String) : Option UidlistReading :=
  let line := trim line
  if line.isEmpty then some r
  else
    match stripPrefix "uidvalidity " line with
    | some value => r.readUidvalidity value
    | none =>
      match stripPrefix "uidnext " line with
      | some value => r.readUidnext value
      | none =>
        match stripPrefix "highestmodseq " line with
        | some value => r.readHighestModseq version value
        | none => r.readEntry version line

/-- The checks after the last line. -/
def finish (version : UidlistVersion) : Option UidList :=
  match r.uidvalidity, r.uidnext with
  | some uidvalidity, some uidnext =>
    if (r.byUid.getLast?.any fun e => uidnext ≤ e.uid) then none
    else
      match version with
      | .one =>
        some
          { uidvalidity
            uidnext
            highestModseq := r.byUid.length
            byUid := number r.byUid }
      | .two =>
        let highestModseq := r.highestModseq.getD 0
        if highestModseq < (r.byUid.map (·.modseq)).foldr max 0 then none
        else some { uidvalidity, uidnext, highestModseq, byUid := r.byUid }
  | _, _ => none

end UidlistReading

def uidlistVersion (header : String) : Option UidlistVersion :=
  if header = "MAILSTACK-UIDLIST 1" then some .one
  else if header = "MAILSTACK-UIDLIST 2" then some .two
  else none

/-- `load_uidlist` on what the file contains. -/
def parseUidlist (contents : String) : Option UidList :=
  match Lib.lines contents with
  | [] => none
  | header :: rest =>
    match uidlistVersion header with
    | none => none
    | some version =>
      match rest.foldlM (fun r line => r.readLine version line) (UidlistReading.start version) with
      | none => none
      | some r => r.finish version

/-! ### Entries in order -/

/-- Entries with UIDs and bases of their own, in the order of the UIDs. -/
structure InOrder (entries : List UidEntry) : Prop where
  uids : ∀ e ∈ entries, 0 < e.uid ∧ e.uid ≤ u32Max
  valid : ∀ e ∈ entries, isValidBase e.base = true
  sorted : entries.Pairwise fun a b => a.uid < b.uid
  bases : (entries.map (·.base)).Nodup

variable {e : UidEntry} {base : String}

theorem orderedInsert_sorted {entries : List UidEntry}
    (sorted : entries.Pairwise fun a b => a.uid < b.uid) (new : ∀ o ∈ entries, o.uid ≠ e.uid) :
    (entries.orderedInsert (fun a b => a.uid ≤ b.uid) e).Pairwise fun a b => a.uid < b.uid := by
  induction entries with
  | nil => simp
  | cons o rest ih =>
    obtain ⟨first, later⟩ := List.pairwise_cons.mp sorted
    have := new o List.mem_cons_self
    by_cases le : e.uid ≤ o.uid
    · rw [List.orderedInsert_cons, if_pos le]
      refine List.pairwise_cons.mpr ⟨fun x mem => ?_, sorted⟩
      rcases List.mem_cons.mp mem with rfl | mem
      · omega
      · have := first x mem
        omega
    · rw [List.orderedInsert_cons, if_neg le]
      refine List.pairwise_cons.mpr ⟨fun x mem => ?_, ih later fun x mem => ?_⟩
      · rcases (List.mem_orderedInsert _).mp mem with rfl | mem
        · omega
        · exact first x mem
      · exact new x (List.mem_cons_of_mem _ mem)

theorem InOrder.insert {entries : List UidEntry} (h : InOrder entries)
    (uid : 0 < e.uid ∧ e.uid ≤ u32Max) (valid : isValidBase e.base = true)
    (newUid : ∀ o ∈ entries, o.uid ≠ e.uid) (newBase : ∀ o ∈ entries, o.base ≠ e.base) :
    InOrder (entries.orderedInsert (fun a b => a.uid ≤ b.uid) e) := by
  refine ⟨fun o mem => ?_, fun o mem => ?_, orderedInsert_sorted h.sorted newUid, ?_⟩
  · rcases (List.mem_orderedInsert _).mp mem with rfl | old
    · exact uid
    · exact h.uids o old
  · rcases (List.mem_orderedInsert _).mp mem with rfl | old
    · exact valid
    · exact h.valid o old
  · have perm := (List.perm_orderedInsert (fun a b : UidEntry => a.uid ≤ b.uid) e entries).map
      (·.base)
    refine perm.nodup_iff.mpr (List.nodup_cons.mpr ⟨fun inOld => ?_, h.bases⟩)
    obtain ⟨o, old, same⟩ := List.mem_map.mp inOld
    exact newBase o old same

theorem inOrder_nil : InOrder [] := ⟨nofun, nofun, .nil, .nil⟩

variable {n : Nat}

theorem length_le_of_sorted {entries : List UidEntry}
    (sorted : entries.Pairwise fun a b => a.uid < b.uid)
    (uids : ∀ e ∈ entries, 0 < e.uid ∧ e.uid ≤ n) : entries.length ≤ n := by
  have nodup : (entries.map (·.uid - 1)).Nodup := by
    refine List.pairwise_map.mpr (sorted.imp_of_mem fun {a b} memA _ less => ?_)
    have := uids a memA
    omega
  have inside : entries.map (·.uid - 1) ⊆ List.range n := by
    intro uid mem
    obtain ⟨e, inEntries, rfl⟩ := List.mem_map.mp mem
    have := uids e inEntries
    rw [List.mem_range]
    omega
  simpa using (List.subperm_of_subset nodup inside).length_le

section Number

variable {entries : List UidEntry}

theorem number_uids : (number entries).map (·.uid) = entries.map (·.uid) := by
  rw [number, List.map_map]
  conv_rhs => rw [← List.zipIdx_map_fst 1 entries, List.map_map]
  rfl

theorem number_bases : (number entries).map (·.base) = entries.map (·.base) := by
  rw [number, List.map_map]
  conv_rhs => rw [← List.zipIdx_map_fst 1 entries, List.map_map]
  rfl

theorem number_modseqs (mem : e ∈ number entries) :
    0 < e.modseq ∧ e.modseq ≤ entries.length := by
  obtain ⟨⟨o, n⟩, inIdx, rfl⟩ := List.mem_map.mp mem
  have := List.le_snd_of_mem_zipIdx inIdx
  have := List.snd_lt_add_of_mem_zipIdx inIdx
  simp only
  omega

theorem mem_number (mem : e ∈ number entries) :
    ∃ o ∈ entries, o.uid = e.uid ∧ o.base = e.base := by
  obtain ⟨⟨o, n⟩, inIdx, rfl⟩ := List.mem_map.mp mem
  exact ⟨o, List.fst_mem_of_mem_zipIdx inIdx, rfl, rfl⟩

theorem InOrder.number (h : InOrder entries) : InOrder (number entries) := by
  refine ⟨fun e mem => ?_, fun e mem => ?_, ?_, ?_⟩
  · obtain ⟨o, old, uid, -⟩ := mem_number mem
    exact uid ▸ h.uids o old
  · obtain ⟨o, old, -, base⟩ := mem_number mem
    exact base ▸ h.valid o old
  · have uids : (entries.map (·.uid)).Pairwise (· < ·) := List.pairwise_map.mpr h.sorted
    rw [← number_uids] at uids
    exact List.pairwise_map.mp uids
  · rw [number_bases]
    exact h.bases

end Number

/-- The fields have the widths that they have in the program, and the entries are in the order of
their UIDs, as in the map that the program keeps them in. -/
structure UidList.Stored (list : UidList) : Prop where
  range : list.uidvalidity ≤ u32Max ∧ list.uidnext ≤ u32Max ∧ list.highestModseq ≤ u64Max
  entries : ∀ e ∈ list.byUid, e.uid ≤ u32Max ∧ e.modseq ≤ u64Max
  valid : ∀ e ∈ list.byUid, isValidBase e.base = true
  sorted : list.byUid.Pairwise fun a b => a.uid < b.uid

variable {list : UidList}

/-- Entries in order make a list that passes the checks, if the numbers of the list are above
theirs. -/
theorem InOrder.accepted (h : InOrder list.byUid)
    (uidvalidity : 0 < list.uidvalidity ∧ list.uidvalidity ≤ u32Max)
    (uidnext : 0 < list.uidnext ∧ list.uidnext ≤ u32Max) (highest : list.highestModseq ≤ u64Max)
    (below : ∀ e ∈ list.byUid, e.uid < list.uidnext)
    (modseqs : ∀ e ∈ list.byUid, 0 < e.modseq ∧ e.modseq ≤ list.highestModseq) :
    list.Accepted ∧ list.Stored := by
  have range : list.uidvalidity ≤ u32Max ∧ list.uidnext ≤ u32Max ∧ list.highestModseq ≤ u64Max :=
    ⟨uidvalidity.2, uidnext.2, highest⟩
  refine ⟨⟨uidvalidity.1, uidnext.1, range, fun e mem => ⟨(h.uids e mem).1, below e mem⟩, modseqs,
    h.valid, ?_, h.bases⟩, ⟨range, fun e mem => ?_, h.valid, h.sorted⟩⟩
  · exact List.pairwise_map.mpr (h.sorted.imp fun less => Nat.ne_of_lt less)
  · exact ⟨(h.uids e mem).2, (modseqs e mem).2.trans highest⟩

/-! ### What is written is read back -/

theorem graphic_of_valid (valid : isValidBase base = true) :
    ∀ c ∈ base.toList, isAsciiGraphic c = true := by
  intro c mem
  simp only [isValidBase, Bool.and_eq_true, List.all_eq_true] at valid
  exact (valid.2 c mem).1.1

theorem base_ne_nil (valid : isValidBase base = true) : base.toList ≠ [] := by
  intro empty
  obtain rfl : base = "" := String.toList_inj.mp empty
  revert valid
  decide

variable {c : Char}

theorem not_isWhitespace_of_graphic (h : isAsciiGraphic c = true) :
    isWhitespace c = false := by
  simp only [isAsciiGraphic, Bool.and_eq_true, decide_eq_true_eq, UInt32.le_iff_toNat_le,
    UInt32.reduceToNat] at h
  simp only [isWhitespace, Bool.or_eq_false_iff, Bool.and_eq_false_iff, decide_eq_false_iff_not,
    UInt32.le_iff_toNat_le, ← UInt32.toNat_inj, UInt32.reduceToNat]
  omega

theorem graphic_of_isDigit (h : c.isDigit = true) : isAsciiGraphic c = true := by
  simp only [Char.isDigit, Bool.and_eq_true, decide_eq_true_eq, UInt32.le_iff_toNat_le, ge_iff_le,
    Char.reduceVal, UInt32.reduceToNat] at h
  simp only [isAsciiGraphic, Bool.and_eq_true, decide_eq_true_eq, UInt32.le_iff_toNat_le,
    UInt32.reduceToNat]
  omega

theorem graphic_of_mem_toString (h : c ∈ (toString n).toList) :
    isAsciiGraphic c = true :=
  graphic_of_isDigit (isDigit_of_mem_toString h)

theorem blank_not_mem_toString (n : Nat) : ' ' ∉ (toString n).toList :=
  fun mem => absurd (graphic_of_mem_toString mem) (by decide)

/-- A line of words: it is not empty, begins and ends with a printed character, and has blanks at
most between. -/
structure IsLine (line : String) : Prop where
  first : ∃ c, line.toList.head? = some c ∧ isAsciiGraphic c = true
  last : ∃ c, line.toList.getLast? = some c ∧ isAsciiGraphic c = true
  inside : ∀ c ∈ line.toList, isAsciiGraphic c = true ∨ c = ' '

theorem isLine_word {word : String} (some : word.toList ≠ [])
    (graphic : ∀ c ∈ word.toList, isAsciiGraphic c = true) : IsLine word := by
  refine ⟨?_, ?_, fun c mem => .inl (graphic c mem)⟩
  · exact ⟨_, List.head?_eq_some_head some, graphic _ (List.head_mem some)⟩
  · exact ⟨_, List.getLast?_eq_some_getLast some, graphic _ (List.getLast_mem some)⟩

theorem IsLine.append {a b : String} (ha : IsLine a) (hb : IsLine b) :
    IsLine (a ++ " " ++ b) := by
  obtain ⟨c, head, first⟩ := ha.first
  obtain ⟨d, last, final⟩ := hb.last
  refine ⟨⟨c, ?_, first⟩, ⟨d, ?_, final⟩, fun x mem => ?_⟩
  · simp [head]
  · rw [String.toList_append, List.getLast?_append, last]
    rfl
  · simp only [String.toList_append, List.mem_append] at mem
    rcases mem with (mem | mem) | mem
    · exact ha.inside x mem
    · exact .inr (by simpa using mem)
    · exact hb.inside x mem

theorem isLine_toString (n : Nat) : IsLine (toString n) :=
  isLine_word (by simp) fun _ => graphic_of_mem_toString

variable {line : String}

theorem IsLine.trim (h : IsLine line) : trim line = line := by
  obtain ⟨c, head, first⟩ := h.first
  obtain ⟨d, last, final⟩ := h.last
  refine trim_eq_self ?_ ?_
  · intro x eq
    obtain rfl : c = x := Option.some.inj (head.symm.trans eq)
    exact not_isWhitespace_of_graphic first
  · intro x eq
    obtain rfl : d = x := Option.some.inj (last.symm.trans eq)
    exact not_isWhitespace_of_graphic final

theorem IsLine.isEmpty (h : IsLine line) : line.isEmpty = false := by
  obtain ⟨c, head, -⟩ := h.first
  rw [String.isEmpty_eq_false_iff]
  rintro rfl
  cases head

theorem IsLine.unbroken (h : IsLine line) :
    '\n' ∉ line.toList ∧ line.toList.getLast? ≠ some '\r' := by
  constructor
  · intro mem
    rcases h.inside _ mem with graphic | blank
    · exact absurd graphic (by decide)
    · exact absurd blank (by decide)
  · intro last
    obtain ⟨d, last', final⟩ := h.last
    obtain rfl : d = '\r' := Option.some.inj (last'.symm.trans last)
    exact absurd final (by decide)

theorem UidEntry.isLine (valid : isValidBase e.base = true) : IsLine e.line :=
  ((isLine_toString e.uid).append (isLine_toString e.modseq)).append
    (isLine_word (base_ne_nil valid) (graphic_of_valid valid))

theorem UidList.isLine (valid : ∀ e ∈ list.byUid, isValidBase e.base = true)
    (mem : line ∈ list.lines) : IsLine line := by
  have named : ∀ (name : String) (n : Nat), IsLine name → IsLine (name ++ " " ++ toString n) :=
    fun name n h => h.append (isLine_toString n)
  simp only [UidList.lines, List.cons_append, List.nil_append, List.mem_cons, List.mem_map] at mem
  rcases mem with rfl | rfl | rfl | rfl | ⟨e, mem, rfl⟩
  · exact (@isLine_word "MAILSTACK-UIDLIST" (by decide) (List.all_eq_true.mp (by decide))).append
      (@isLine_word "2" (by decide) (List.all_eq_true.mp (by decide)))
  · exact named "uidvalidity" _ (isLine_word (by decide) (List.all_eq_true.mp (by decide)))
  · exact named "uidnext" _ (isLine_word (by decide) (List.all_eq_true.mp (by decide)))
  · exact named "highestmodseq" _ (isLine_word (by decide) (List.all_eq_true.mp (by decide)))
  · exact UidEntry.isLine (valid e mem)

theorem lines_render (valid : ∀ e ∈ list.byUid, isValidBase e.base = true) :
    Lib.lines list.render = list.lines :=
  lines_join fun _ mem => (UidList.isLine valid mem).unbroken

namespace UidlistReading

variable {r : UidlistReading}

theorem readLine_uidvalidity (range : n ≤ u32Max) :
    r.readLine .two ("uidvalidity " ++ toString n) =
      if 0 < n ∧ r.uidvalidity.isNone then some { r with uidvalidity := some n } else none := by
  have line : IsLine ("uidvalidity" ++ " " ++ toString n) :=
    (isLine_word (by decide) (List.all_eq_true.mp (by decide))).append (isLine_toString n)
  have joined : "uidvalidity" ++ " " = "uidvalidity " := rfl
  rw [joined] at line
  simp only [readLine, line.trim, line.isEmpty, Bool.false_eq_true, if_false, stripPrefix_append,
    readUidvalidity, parseUnsigned_toString range]

theorem readLine_uidnext (range : n ≤ u32Max) :
    r.readLine .two ("uidnext " ++ toString n) =
      if 0 < n ∧ r.uidnext.isNone then some { r with uidnext := some n } else none := by
  have line : IsLine ("uidnext" ++ " " ++ toString n) :=
    (isLine_word (by decide) (List.all_eq_true.mp (by decide))).append (isLine_toString n)
  have joined : "uidnext" ++ " " = "uidnext " := rfl
  have other : stripPrefix "uidvalidity " ("uidnext " ++ toString n) = none :=
    stripPrefix_eq_none 3 (by decide) (by simp)
  rw [joined] at line
  simp only [readLine, line.trim, line.isEmpty, Bool.false_eq_true, if_false, stripPrefix_append,
    other, readUidnext, parseUnsigned_toString range]

theorem readLine_highestModseq (range : n ≤ u64Max) :
    r.readLine .two ("highestmodseq " ++ toString n) =
      if r.highestModseq.isNone then some { r with highestModseq := some n } else none := by
  have line : IsLine ("highestmodseq" ++ " " ++ toString n) :=
    (isLine_word (by decide) (List.all_eq_true.mp (by decide))).append (isLine_toString n)
  have joined : "highestmodseq" ++ " " = "highestmodseq " := rfl
  have other : ∀ p : String, p.toList.head? = some 'u' →
      stripPrefix p ("highestmodseq " ++ toString n) = none := by
    intro p head
    refine stripPrefix_eq_none 0 (List.length_pos_of_mem (List.mem_of_head? head)) ?_
    rw [← List.head?_eq_getElem?, head]
    simp
  rw [joined] at line
  simp only [readLine, line.trim, line.isEmpty, Bool.false_eq_true, if_false, stripPrefix_append,
    other "uidvalidity " rfl, other "uidnext " rfl, readHighestModseq, reduceCtorEq,
    parseUnsigned_toString range]

theorem stripPrefix_entry {p : String} (first : ∃ c, p.toList.head? = some c ∧
    c.isDigit = false) : stripPrefix p e.line = none := by
  obtain ⟨c, head, notDigit⟩ := first
  refine stripPrefix_eq_none 0 (List.length_pos_of_mem (List.mem_of_head? head)) fun same => ?_
  have begins : e.line.toList.head? = some c := by
    rw [List.head?_eq_getElem?, ← same, ← List.head?_eq_getElem?, head]
  have inUid : c ∈ (toString e.uid).toList := by
    refine List.mem_of_head? ?_
    rw [← begins, UidEntry.line, String.toList_append, String.toList_append, String.toList_append,
      String.toList_append, List.append_assoc, List.append_assoc, List.append_assoc,
      List.head?_append_of_ne_nil _ (by simp)]
  rw [isDigit_of_mem_toString inUid] at notDigit
  cases notDigit

theorem readLine_entry (valid : isValidBase e.base = true)
    (range : e.uid ≤ u32Max ∧ e.modseq ≤ u64Max) :
    r.readLine .two e.line = if e.modseq = 0 then none else r.insert e := by
  have line := UidEntry.isLine valid
  have fields : splitOnce ' ' e.line =
      some (toString e.uid, toString e.modseq ++ " " ++ e.base) := by
    have parts : e.line =
        toString e.uid ++ String.singleton ' ' ++ (toString e.modseq ++ " " ++ e.base) := by
      simp [UidEntry.line, ← String.toList_inj]
    rw [parts]
    exact splitOnce_append (blank_not_mem_toString e.uid) _
  have rest : splitOnce ' ' (toString e.modseq ++ " " ++ e.base) =
      some (toString e.modseq, e.base) :=
    splitOnce_append (blank_not_mem_toString e.modseq) _
  simp only [readLine, line.trim, line.isEmpty, Bool.false_eq_true, if_false,
    stripPrefix_entry (p := "uidvalidity ") ⟨'u', rfl, rfl⟩,
    stripPrefix_entry (p := "uidnext ") ⟨'u', rfl, rfl⟩,
    stripPrefix_entry (p := "highestmodseq ") ⟨'h', rfl, rfl⟩, readEntry, fields,
    parseUnsigned_toString range.1, parseRest, rest, parseUnsigned_toString range.2]
  split_ifs <;> rfl

theorem orderedInsert_last {entries : List UidEntry} (above : ∀ o ∈ entries, o.uid < e.uid) :
    entries.orderedInsert (fun a b => a.uid ≤ b.uid) e = entries ++ [e] := by
  induction entries with
  | nil => rfl
  | cons o rest ih =>
    have := above o List.mem_cons_self
    rw [List.orderedInsert_of_not_le _ _ (by omega),
      ih fun o' mem => above o' (List.mem_cons_of_mem _ mem)]
    rfl

theorem readLine_next (valid : isValidBase e.base = true)
    (range : e.uid ≤ u32Max ∧ e.modseq ≤ u64Max) (above : ∀ o ∈ r.byUid, o.uid < e.uid) :
    r.readLine .two e.line =
      if (0 < e.uid ∧ 0 < e.modseq) ∧ e.base ∉ r.byUid.map (·.base) then
        some { r with byUid := r.byUid ++ [e] }
      else none := by
  have newUid : ¬∃ o ∈ r.byUid, o.uid = e.uid := by
    rintro ⟨o, mem, same⟩
    have := above o mem
    omega
  rw [readLine_entry valid range, insert, orderedInsert_last above]
  by_cases next : (0 < e.uid ∧ 0 < e.modseq) ∧ e.base ∉ r.byUid.map (·.base)
  · rw [if_pos next, if_neg (by omega), if_neg]
    rintro (zero | invalid | uid | other)
    · omega
    · exact invalid valid
    · exact newUid uid
    · exact next.2 (List.mem_map.mpr other)
  · rw [if_neg next]
    by_cases unnumbered : e.modseq = 0
    · rw [if_pos unnumbered]
    · rw [if_neg unnumbered, if_pos]
      by_cases zero : e.uid = 0
      · exact .inl zero
      · refine .inr (.inr (.inr ?_))
        by_contra other
        exact next ⟨by omega, fun mem => other (List.mem_map.mp mem)⟩

theorem read_entries {entries : List UidEntry}
    (valid : ∀ e ∈ entries, isValidBase e.base = true)
    (range : ∀ e ∈ entries, e.uid ≤ u32Max ∧ e.modseq ≤ u64Max)
    (sorted : (r.byUid ++ entries).Pairwise fun a b => a.uid < b.uid)
    (bases : (r.byUid.map (·.base)).Nodup) :
    (entries.map UidEntry.line).foldlM (fun r line => r.readLine .two line) r =
      if (∀ e ∈ entries, 0 < e.uid ∧ 0 < e.modseq) ∧ ((r.byUid ++ entries).map (·.base)).Nodup then
        some { r with byUid := r.byUid ++ entries }
      else none := by
  induction entries generalizing r with
  | nil => simp [bases]
  | cons e rest ih =>
    have above : ∀ o ∈ r.byUid, o.uid < e.uid := fun o mem =>
      (List.pairwise_append.mp sorted).2.2 o mem e List.mem_cons_self
    have shift : r.byUid ++ e :: rest = (r.byUid ++ [e]) ++ rest := by simp
    rw [List.map_cons, List.foldlM_cons,
      readLine_next (valid e List.mem_cons_self) (range e List.mem_cons_self) above]
    by_cases next : (0 < e.uid ∧ 0 < e.modseq) ∧ e.base ∉ r.byUid.map (·.base)
    · have grown : ((r.byUid ++ [e]).map (·.base)).Nodup := by
        rw [List.map_append]
        exact List.nodup_append.mpr ⟨bases, by simp, by simpa using next.2⟩
      rw [if_pos next]
      simp only [Option.bind_eq_bind, Option.bind_some]
      rw [ih (r := { r with byUid := r.byUid ++ [e] })
        (fun e' mem => valid e' (List.mem_cons_of_mem _ mem))
        (fun e' mem => range e' (List.mem_cons_of_mem _ mem)) (shift ▸ sorted) grown]
      simp only [← shift, List.forall_mem_cons, next.1, true_and]
    · rw [if_neg next, if_neg]
      · rfl
      · rintro ⟨numbered, nodup⟩
        refine next ⟨numbered e List.mem_cons_self, fun mem => ?_⟩
        rw [List.map_append] at nodup
        exact (List.nodup_append.mp nodup).2.2 _ mem _ (by simp) rfl

end UidlistReading

theorem modseqs_le_iff {entries : List UidEntry} {m : Nat} :
    (entries.map (·.modseq)).foldr max 0 ≤ m ↔ ∀ e ∈ entries, e.modseq ≤ m := by
  induction entries with
  | nil => simp
  | cons e rest ih => simp [ih]

theorem last_lt_iff {entries : List UidEntry} (sorted : entries.Pairwise fun a b => a.uid < b.uid) :
    (entries.getLast?.any fun e => decide (n ≤ e.uid)) = false ↔ ∀ e ∈ entries, e.uid < n := by
  induction entries using List.reverseRecOn with
  | nil => simp
  | append_singleton init last ih =>
    have below := (List.pairwise_append.mp sorted).2.2
    simp only [List.getLast?_concat, Option.any_some, decide_eq_false_iff_not, not_le]
    constructor
    · intro h e mem
      rcases List.mem_append.mp mem with mem | mem
      · exact (below e mem last (List.mem_singleton.mpr rfl)).trans h
      · rwa [List.mem_singleton.mp mem]
    · exact fun h => h last (by simp)

theorem read_lines (stored : list.Stored) :
    list.lines.tail.foldlM (fun r line => r.readLine .two line) (UidlistReading.start .two) =
      if (0 < list.uidvalidity ∧ 0 < list.uidnext) ∧
          (∀ e ∈ list.byUid, 0 < e.uid ∧ 0 < e.modseq) ∧ (list.byUid.map (·.base)).Nodup then
        some
          { uidvalidity := some list.uidvalidity
            uidnext := some list.uidnext
            highestModseq := some list.highestModseq
            byUid := list.byUid }
      else none := by
  have entries := UidlistReading.read_entries
    (r := { uidvalidity := some list.uidvalidity
            uidnext := some list.uidnext
            highestModseq := some list.highestModseq
            byUid := [] })
    stored.valid stored.entries (by simpa using stored.sorted) (by simp)
  simp only [List.nil_append] at entries
  simp only [UidList.lines, List.cons_append, List.nil_append, List.tail_cons, List.foldlM_cons,
    UidlistReading.readLine_uidvalidity stored.range.1]
  by_cases validity : 0 < list.uidvalidity
  · simp only [UidlistReading.start, validity, Option.isNone_none, and_self, if_true,
      Option.bind_eq_bind, Option.bind_some, UidlistReading.readLine_uidnext stored.range.2.1]
    by_cases next : 0 < list.uidnext
    · simp only [next, Option.isNone_none, and_self, if_true, Option.bind_some, reduceCtorEq,
        if_false, UidlistReading.readLine_highestModseq stored.range.2.2, entries, true_and]
    · simp [next]
  · simp [validity]

/-- What is written of a list is read back as that list, if it passes the checks. -/
theorem parse_render (stored : list.Stored) :
    parseUidlist list.render = loadUidlist (some list) := by
  have header : list.lines = "MAILSTACK-UIDLIST 2" :: list.lines.tail := rfl
  have version : uidlistVersion "MAILSTACK-UIDLIST 2" = some .two := by decide
  have uids : (list.byUid.map (·.uid)).Nodup := by
    refine List.Pairwise.map _ (fun a b less => ?_) stored.sorted
    omega
  rw [parseUidlist, lines_render stored.valid, header]
  simp only [version, read_lines stored, loadUidlist]
  by_cases accepted : list.Accepted
  · have lines : (0 < list.uidvalidity ∧ 0 < list.uidnext) ∧
        (∀ e ∈ list.byUid, 0 < e.uid ∧ 0 < e.modseq) ∧ (list.byUid.map (·.base)).Nodup :=
      ⟨⟨accepted.uidvalidity, accepted.uidnext⟩,
        fun e mem => ⟨(accepted.bounds e mem).1, (accepted.modseqs e mem).1⟩, accepted.bases⟩
    have last := (last_lt_iff stored.sorted).mpr fun e mem => (accepted.bounds e mem).2
    have highest : ¬list.highestModseq < (list.byUid.map (·.modseq)).foldr max 0 :=
      not_lt.mpr (modseqs_le_iff.mpr fun e mem => (accepted.modseqs e mem).2)
    simp only [if_pos accepted, if_pos lines, UidlistReading.finish, last, Bool.false_eq_true,
      if_false, Option.getD_some, highest]
  · rw [if_neg accepted]
    split_ifs with lines
    · simp only [UidlistReading.finish, Option.getD_some]
      split_ifs with last highest
      · rfl
      · rfl
      · -- every check passed
        have below := (last_lt_iff stored.sorted).mp (by simpa using last)
        have modseqs := modseqs_le_iff.mp (not_lt.mp highest)
        exact absurd
          { uidvalidity := lines.1.1
            uidnext := lines.1.2
            range := stored.range
            bounds := fun e mem => ⟨(lines.2.1 e mem).1, below e mem⟩
            modseqs := fun e mem => ⟨(lines.2.1 e mem).2, modseqs e mem⟩
            valid := stored.valid
            uids
            bases := lines.2.2 } accepted
    · rfl

/-! ### What is read is well formed -/

/-- What holds of the fields and the entries while a file is read. -/
structure UidlistReading.Sound (version : UidlistVersion) (r : UidlistReading) : Prop where
  uidvalidity : ∀ n ∈ r.uidvalidity, 0 < n ∧ n ≤ u32Max
  uidnext : ∀ n ∈ r.uidnext, 0 < n ∧ n ≤ u32Max
  highestModseq : ∀ n ∈ r.highestModseq, n ≤ u64Max
  entries : InOrder r.byUid
  modseqs : version = .two → ∀ e ∈ r.byUid, 0 < e.modseq

namespace UidlistReading

variable {version : UidlistVersion} {r r' : UidlistReading}

variable {value : String}

theorem Sound.readUidvalidity (h : r.Sound version)
    (run : r.readUidvalidity value = some r') : r'.Sound version := by
  unfold UidlistReading.readUidvalidity at run
  split at run
  · rename_i n parsed
    split_ifs at run with cond
    cases run
    refine ⟨fun m eq => ?_, h.uidnext, h.highestModseq, h.entries, h.modseqs⟩
    cases eq
    exact ⟨cond.1, parseUnsigned_le parsed⟩
  · cases run

theorem Sound.readUidnext (h : r.Sound version)
    (run : r.readUidnext value = some r') : r'.Sound version := by
  unfold UidlistReading.readUidnext at run
  split at run
  · rename_i n parsed
    split_ifs at run with cond
    cases run
    refine ⟨h.uidvalidity, fun m eq => ?_, h.highestModseq, h.entries, h.modseqs⟩
    cases eq
    exact ⟨cond.1, parseUnsigned_le parsed⟩
  · cases run

theorem Sound.readHighestModseq (h : r.Sound version)
    (run : r.readHighestModseq version value = some r') : r'.Sound version := by
  unfold UidlistReading.readHighestModseq at run
  split at run
  · cases run
  split at run
  · rename_i n parsed
    split_ifs at run
    cases run
    refine ⟨h.uidvalidity, h.uidnext, fun m eq => ?_, h.entries, h.modseqs⟩
    cases eq
    exact parseUnsigned_le parsed
  · cases run

theorem parseRest_modseq {rest base : String} {modseq : Nat}
    (h : parseRest .two rest = some (modseq, base)) : 0 < modseq := by
  simp only [parseRest] at h
  split at h
  · cases h
  split at h
  · cases h
  split_ifs at h with zero
  cases h
  exact Nat.pos_of_ne_zero zero

theorem Sound.readEntry (h : r.Sound version)
    (run : r.readEntry version line = some r') : r'.Sound version := by
  unfold UidlistReading.readEntry at run
  split at run
  · cases run
  split at run
  · cases run
  rename_i uid parsed
  split at run
  · cases run
  rename_i modseq base rest
  unfold UidlistReading.insert at run
  split_ifs at run with refused
  simp only [not_or, not_not, not_exists, not_and] at refused
  obtain ⟨positive, valid, newUid, newBase⟩ := refused
  cases run
  refine ⟨h.uidvalidity, h.uidnext, h.highestModseq,
    h.entries.insert ⟨Nat.pos_of_ne_zero positive, parseUnsigned_le parsed⟩ valid newUid newBase,
    fun two e mem => ?_⟩
  rcases (List.mem_orderedInsert _).mp mem with rfl | old
  · subst two
    exact parseRest_modseq rest
  · exact h.modseqs two e old

theorem Sound.readLine (h : r.Sound version)
    (run : r.readLine version line = some r') : r'.Sound version := by
  simp only [UidlistReading.readLine] at run
  split at run
  · cases run
    exact h
  split at run
  · exact h.readUidvalidity run
  split at run
  · exact h.readUidnext run
  split at run
  · exact h.readHighestModseq run
  · exact h.readEntry run

theorem Sound.start : (start version).Sound version := by
  refine ⟨nofun, nofun, fun n eq => ?_, inOrder_nil, fun _ => nofun⟩
  cases version with
  | one =>
    cases eq
    exact Nat.zero_le _
  | two => cases eq

theorem Sound.readLines {lines : List String} (h : r.Sound version)
    (run : lines.foldlM (fun r line => r.readLine version line) r = some r') :
    r'.Sound version := by
  induction lines generalizing r with
  | nil =>
    cases run
    exact h
  | cons line rest ih =>
    rw [List.foldlM_cons, Option.bind_eq_bind, Option.bind_eq_some_iff] at run
    obtain ⟨next, step, later⟩ := run
    exact ih (h.readLine step) later

theorem Sound.finish (h : r.Sound version) (run : r.finish version = some list) :
    list.Accepted ∧ list.Stored := by
  unfold UidlistReading.finish at run
  split at run
  · rename_i uidvalidity uidnext validity next
    split at run
    · cases run
    rename_i last
    have below := (last_lt_iff h.entries.sorted).mp (by simpa using last)
    cases version with
    | one =>
      cases run
      have few : r.byUid.length ≤ u64Max :=
        (length_le_of_sorted h.entries.sorted h.entries.uids).trans (by decide)
      refine h.entries.number.accepted (h.uidvalidity _ validity) (h.uidnext _ next) few ?_
        fun e mem => number_modseqs mem
      intro e mem
      obtain ⟨o, old, same, -⟩ := mem_number mem
      exact same ▸ below o old
    | two =>
      simp only at run
      split at run
      · cases run
      rename_i highest
      cases run
      have range : r.highestModseq.getD 0 ≤ u64Max := by
        cases read : r.highestModseq with
        | none => exact Nat.zero_le _
        | some n => exact h.highestModseq n read
      exact h.entries.accepted (h.uidvalidity _ validity) (h.uidnext _ next) range below
        fun e mem => ⟨h.modseqs rfl e mem, modseqs_le_iff.mp (not_lt.mp highest) e mem⟩
  · cases run

end UidlistReading

theorem parse_accepted {contents : String}
    (h : parseUidlist contents = some list) : list.Accepted ∧ list.Stored := by
  unfold parseUidlist at h
  split at h
  · cases h
  split at h
  · cases h
  split at h
  · cases h
  rename_i run
  exact (UidlistReading.Sound.start.readLines run).finish h

end MailStack.Maildir
