import Mathlib.Algebra.Order.Group.Int
import Mathlib.Algebra.Order.Group.Nat
import Mathlib.Data.List.Basic
import Mathlib.Data.List.Induction

/-! The operations on text that Rust's standard library gives: ASCII case, Unicode white space,
trimming, splitting at a character, prefixes. -/

namespace MailStack.Lib

/-- The control characters of Unicode, general category `Cc`. -/
def isControl (c : Char) : Bool := c.val < 0x20 || (0x7f ≤ c.val && c.val ≤ 0x9f)

/-- The characters with the Unicode property `White_Space`. -/
def isWhitespace (c : Char) : Bool :=
  (0x9 ≤ c.val && c.val ≤ 0xd) || c.val = 0x20 || c.val = 0x85 || c.val = 0xa0 ||
    c.val = 0x1680 || (0x2000 ≤ c.val && c.val ≤ 0x200a) || c.val = 0x2028 || c.val = 0x2029 ||
    c.val = 0x202f || c.val = 0x205f || c.val = 0x3000

def trimStart (s : String) : String := String.ofList (s.toList.dropWhile isWhitespace)

def trimEnd (s : String) : String :=
  String.ofList (s.toList.reverse.dropWhile isWhitespace).reverse

def trim (s : String) : String := trimEnd (trimStart s)

def toAsciiLowercase (s : String) : String := String.ofList (s.toList.map Char.toLower)

def toAsciiUppercase (s : String) : String := String.ofList (s.toList.map Char.toUpper)

def eqIgnoreAsciiCase (s t : String) : Bool := toAsciiLowercase s == toAsciiLowercase t

/-- What all elements of a list meet is decided over the list, also where their type is finite. -/
instance (priority := high) decidableForallMem {α : Type*} {p : α → Prop} [DecidablePred p]
    (xs : List α) :
    Decidable (∀ x ∈ xs, p x) := List.decidableBAll p xs

instance (priority := high) decidableExistsMem {α : Type*} {p : α → Prop} [DecidablePred p]
    (xs : List α) :
    Decidable (∃ x ∈ xs, p x) := List.decidableBEx p xs

/-- What stands before and after the first `c`. -/
def splitOnceChars (c : Char) : List Char → Option (List Char × List Char)
  | [] => none
  | x :: xs =>
    if x = c then some ([], xs) else (splitOnceChars c xs).map fun p => (x :: p.1, p.2)

/-- What stands before and after the last `c`. -/
def rsplitOnceChars (c : Char) : List Char → Option (List Char × List Char)
  | [] => none
  | x :: xs =>
    match rsplitOnceChars c xs with
    | some p => some (x :: p.1, p.2)
    | none => if x = c then some ([], xs) else none

def splitOnce (c : Char) (s : String) : Option (String × String) :=
  (splitOnceChars c s.toList).map fun p => (String.ofList p.1, String.ofList p.2)

def rsplitOnce (c : Char) (s : String) : Option (String × String) :=
  (rsplitOnceChars c s.toList).map fun p => (String.ofList p.1, String.ofList p.2)

/-- What stands before and after the first place that has the characters `sep`. -/
def splitOnceAt (sep : List Char) : List Char → Option (List Char × List Char)
  | [] => if sep.isEmpty then some ([], []) else none
  | x :: xs =>
    if sep.isPrefixOf (x :: xs) then some ([], (x :: xs).drop sep.length)
    else (splitOnceAt sep xs).map fun p => (x :: p.1, p.2)

def splitOnceText (sep s : String) : Option (String × String) :=
  (splitOnceAt sep.toList s.toList).map fun p => (String.ofList p.1, String.ofList p.2)

/-- What stands before and after the last place that has `sep`. -/
def rsplitOnceAt (sep : List Char) : List Char → Option (List Char × List Char)
  | [] => none
  | x :: xs =>
    match rsplitOnceAt sep xs with
    | some p => some (x :: p.1, p.2)
    | none => if sep.isPrefixOf (x :: xs) then some ([], (x :: xs).drop sep.length) else none

def rsplitOnceText (sep s : String) : Option (String × String) :=
  (rsplitOnceAt sep.toList s.toList).map fun p => (String.ofList p.1, String.ofList p.2)

/-- What follows the prefix `p` of `s`. -/
def stripPrefix (p s : String) : Option String :=
  if p.toList <+: s.toList then some (String.ofList (s.toList.drop p.toList.length)) else none

def contains (s : String) (c : Char) : Bool := s.toList.contains c

/-- The parts between runs of white space. -/
def splitWhitespace (s : String) : List String :=
  ((s.toList.splitOnP isWhitespace).filter fun part => !part.isEmpty).map String.ofList

/-- The lines of a text, without the LF that ends each and without a CR before it. What follows the
last LF is a line if there is anything. -/
def lines (s : String) : List String :=
  let parts := s.toList.splitOn '\n'
  let ended := parts.dropLast.map fun l => if l.getLast? = some '\r' then l.dropLast else l
  (ended ++ (parts.getLast?.filter fun l => !l.isEmpty).toList).map String.ofList

/-- The number that a text of digits, after at most one plus sign, stands for, if it is at most
`top`. -/
def parseUnsigned (top : Nat) (s : String) : Option Nat :=
  let digits := if s.toList.head? = some '+' then s.toList.drop 1 else s.toList
  if digits.isEmpty || !digits.all Char.isDigit then none
  else
    let value := digits.foldl (fun n c => 10 * n + (c.toNat - '0'.toNat)) 0
    if value ≤ top then some value else none

/-- The number that a text of digits stands for, after at most one sign, if it is one of `i64`. -/
def parseI64 (s : String) : Option Int :=
  if s.toList.head? = some '-' then
    -- a second sign is not read
    if s.toList[1]? = some '+' then none
    else (parseUnsigned (2 ^ 63) (String.ofList (s.toList.drop 1))).map fun (n : Nat) => -(n : Int)
  else (parseUnsigned (2 ^ 63 - 1) s).map Int.ofNat

/-- The number with zeros before its digits. A sign counts. -/
def zeroPadded (width : Nat) (n : Int) : String :=
  let sign := if n < 0 then "-" else ""
  let digits := toString n.natAbs
  sign ++ String.ofList (List.replicate (width - sign.length - digits.length) '0') ++ digits

/-- Whether `s` has the text `part` somewhere. -/
def containsText (s part : String) : Bool := s.toList.tails.any part.toList.isPrefixOf

/-- The text without the characters `c` at its two ends. -/
def trimMatches (c : Char) (s : String) : String :=
  String.ofList ((s.toList.dropWhile (· = c)).reverse.dropWhile (· = c)).reverse

/-- Words with a blank before each but the first. -/
def sentence (first : String) (rest : List String) : String :=
  first ++ String.join (rest.map (" " ++ ·))

/-- The text that UTF-8 bytes encode. -/
def fromUtf8 (bytes : List UInt8) : Option String := String.fromUTF8? ⟨bytes.toArray⟩

/-- What stands for bytes that are not UTF-8. -/
def replacement : Char := '\uFFFD'

def isContinuation (b : UInt8) : Bool := 0x80 ≤ b && b ≤ 0xBF

/-- The bytes that can follow `first` in a sequence of three or four. -/
def isSecond (first b : UInt8) : Bool :=
  if first = 0xE0 then 0xA0 ≤ b && b ≤ 0xBF
  else if first = 0xED then 0x80 ≤ b && b ≤ 0x9F
  else if first = 0xF0 then 0x90 ≤ b && b ≤ 0xBF
  else if first = 0xF4 then 0x80 ≤ b && b ≤ 0x8F
  else isContinuation b

/-- The value of the bytes of a sequence, the first one without its `marks` high bits. -/
def joinBits (marks : Nat) (first : UInt8) (rest : List UInt8) : Char :=
  Char.ofNat (rest.foldl (fun n b => n * 64 + b.toNat % 64) (first.toNat % 2 ^ (8 - marks)))

/-- The characters of UTF-8 bytes. The longest beginning of a sequence that does not go on as it
should is replaced by one character. -/
@[grind =] def lossyChars : List UInt8 → List Char
  | [] => []
  | a :: rest =>
    if a < 0x80 then Char.ofNat a.toNat :: lossyChars rest
    else if 0xC2 ≤ a && a ≤ 0xDF then
      match rest with
      | b :: rest =>
        if isContinuation b then joinBits 3 a [b] :: lossyChars rest
        else replacement :: lossyChars (b :: rest)
      | [] => [replacement]
    else if 0xE0 ≤ a && a ≤ 0xEF then
      match rest with
      | b :: rest =>
        if isSecond a b then
          match rest with
          | c :: rest =>
            if isContinuation c then joinBits 4 a [b, c] :: lossyChars rest
            else replacement :: lossyChars (c :: rest)
          | [] => [replacement]
        else replacement :: lossyChars (b :: rest)
      | [] => [replacement]
    else if 0xF0 ≤ a && a ≤ 0xF4 then
      match rest with
      | b :: rest =>
        if isSecond a b then
          match rest with
          | c :: rest =>
            if isContinuation c then
              match rest with
              | d :: rest =>
                if isContinuation d then joinBits 5 a [b, c, d] :: lossyChars rest
                else replacement :: lossyChars (d :: rest)
              | [] => [replacement]
            else replacement :: lossyChars (c :: rest)
          | [] => [replacement]
        else replacement :: lossyChars (b :: rest)
      | [] => [replacement]
    else replacement :: lossyChars rest

def fromUtf8Lossy (bytes : List UInt8) : String := String.ofList (lossyChars bytes)

/-- The bytes of the UTF-8 encoding. -/
def bytes (s : String) : List UInt8 := s.toList.flatMap String.utf8EncodeChar

@[simp] theorem toList_toAsciiLowercase (s : String) :
    (toAsciiLowercase s).toList = s.toList.map Char.toLower := String.toList_ofList

variable {c : Char} {top n : Nat}

theorem isUpper_iff : c.isUpper = true ↔ c.val ≥ 'A'.val ∧ c.val ≤ 'Z'.val :=
  decide_eq_true_iff

theorem isUpper_eq_false (outside : c.toNat < 65 ∨ 90 < c.toNat) :
    c.isUpper = false := by
  rw [← Bool.not_eq_true, isUpper_iff]
  intro upper
  have range : 65 ≤ c.val.toNat ∧ c.val.toNat ≤ 90 := upper
  have code : c.toNat = c.val.toNat := rfl
  omega

theorem isLower_iff : c.isLower = true ↔ c.val ≥ 'a'.val ∧ c.val ≤ 'z'.val :=
  Bool.and_eq_true_iff.trans (and_congr decide_eq_true_iff decide_eq_true_iff)

theorem toLower_val (upper : c.val ≥ 'A'.val ∧ c.val ≤ 'Z'.val) :
    c.toLower.val = c.val + ('a'.val - 'A'.val) :=
  congrArg Char.val (dif_pos upper)

theorem toLower_toLower (c : Char) : c.toLower.toLower = c.toLower := by
  by_cases upper : c.val ≥ 'A'.val ∧ c.val ≤ 'Z'.val
  · have lowered := toLower_val upper
    have past : ¬(c.toLower.val ≥ 'A'.val ∧ c.toLower.val ≤ 'Z'.val) := by
      rw [lowered]
      simp only [ge_iff_le, UInt32.le_iff_toNat_le, UInt32.toNat_add] at upper ⊢
      have : 'A'.val.toNat = 65 ∧ 'Z'.val.toNat = 90 ∧ ('a'.val - 'A'.val).toNat = 32 := by decide
      omega
    exact dif_neg past
  · have same : c.toLower = c := dif_neg upper
    rw [same, same]

@[simp] theorem toAsciiLowercase_toAsciiLowercase (s : String) :
    toAsciiLowercase (toAsciiLowercase s) = toAsciiLowercase s := by
  simp only [toAsciiLowercase, String.toList_ofList, List.map_map]
  congr 1
  exact List.map_congr_left fun c _ => toLower_toLower c

theorem isUpper_toLower (c : Char) : c.toLower.isUpper = false := by
  have lowered := toLower_toLower c
  by_contra upper
  rw [Bool.not_eq_false, isUpper_iff] at upper
  have moved := toLower_val upper
  rw [lowered] at moved
  have : (c.toLower.val + ('a'.val - 'A'.val)).toNat = c.toLower.val.toNat := by rw [← moved]
  rw [UInt32.toNat_add] at this
  have : 'Z'.val.toNat = 90 ∧ ('a'.val - 'A'.val).toNat = 32 := by decide
  have low := UInt32.le_iff_toNat_le.mp upper.2
  omega

theorem toLower_eq_self (h : c.isUpper = false) : c.toLower = c := by
  exact dif_neg fun upper => Bool.false_ne_true (h.symm.trans (isUpper_iff.mpr upper))

/-- `to_lowercase`, which goes by the tables of Unicode. -/
structure Lowercase where
  toLowercase : String → String
  ascii : ∀ s, (∀ c ∈ s.toList, c.val < 0x80) → toLowercase s = toAsciiLowercase s
  noUpper : ∀ s, ∀ c ∈ (toLowercase s).toList, c.isUpper = false

/-- The part of these tables for ASCII. -/
def asciiLowercase : Lowercase where
  toLowercase := toAsciiLowercase
  ascii _ _ := rfl
  noUpper s c mem := by
    obtain ⟨d, _, rfl⟩ := List.mem_map.mp (toList_toAsciiLowercase s ▸ mem)
    exact isUpper_toLower d

/-! ### Visible characters -/

theorem isControl_iff (c : Char) :
    isControl c = true ↔ c.toNat < 32 ∨ 127 ≤ c.toNat ∧ c.toNat ≤ 159 := by
  have code : c.toNat = c.val.toNat := rfl
  simp only [isControl, Bool.or_eq_true, Bool.and_eq_true, decide_eq_true_eq,
    UInt32.lt_iff_toNat_lt, UInt32.le_iff_toNat_le, UInt32.reduceToNat, code]

theorem isControl_eq_false (h : 32 ≤ c.toNat ∧ c.toNat ≤ 126) : isControl c = false := by
  rw [← Bool.not_eq_true, isControl_iff]
  omega

theorem isWhitespace_eq_false (h : 33 ≤ c.toNat ∧ c.toNat ≤ 126) :
    isWhitespace c = false := by
  have code : c.toNat = c.val.toNat := rfl
  simp only [isWhitespace, Bool.or_eq_false_iff, Bool.and_eq_false_iff, decide_eq_false_iff_not,
    UInt32.le_iff_toNat_le, ← UInt32.toNat_inj, UInt32.reduceToNat]
  omega

theorem isAlphanum_range (h : c.isAlphanum = true) : 48 ≤ c.toNat ∧ c.toNat ≤ 122 := by
  have either : (c.isUpper = true ∨ c.isLower = true) ∨ c.isDigit = true := by
    rcases (Bool.or_eq_true _ _).mp h with alpha | digit
    · exact .inl ((Bool.or_eq_true _ _).mp alpha)
    · exact .inr digit
  simp only [isUpper_iff, isLower_iff, Char.isDigit, Bool.and_eq_true, decide_eq_true_eq,
    UInt32.le_iff_toNat_le, ge_iff_le] at either
  have : 'A'.val.toNat = 65 ∧ 'Z'.val.toNat = 90 ∧ 'a'.val.toNat = 97 ∧ 'z'.val.toNat = 122 ∧
      '0'.val.toNat = 48 ∧ '9'.val.toNat = 57 := by decide
  show 48 ≤ c.val.toNat ∧ c.val.toNat ≤ 122
  omega

/-! ### Splitting -/

/-- The parts between separators have none. -/
theorem not_mem_of_mem_splitOn {α : Type*} [DecidableEq α] {sep : α} {xs part : List α}
    (h : part ∈ xs.splitOn sep) : sep ∉ part := by
  induction xs generalizing part with
  | nil =>
    obtain rfl : part = [] := by simpa using h
    simp
  | cons x xs ih =>
    rw [List.splitOn_cons_eq_if_modifyHead] at h
    split at h
    · rcases List.mem_cons.mp h with rfl | h
      · simp
      · exact ih h
    · rename_i other
      cases parts : xs.splitOn sep with
      | nil => exact absurd parts (List.splitOn_ne_nil sep xs)
      | cons first rest =>
        rw [parts] at h ih
        rcases List.mem_cons.mp h with rfl | h
        · have ne : sep ≠ x := fun eq => other (by simp [eq])
          simp [ne, ih List.mem_cons_self]
        · exact ih (List.mem_cons_of_mem _ h)

/-- What is in a list of parts is a separator or in a part. -/
theorem mem_intercalate {α : Type*} {sep c : α} {parts : List (List α)}
    (mem : c ∈ [sep].intercalate parts) : c = sep ∨ ∃ part ∈ parts, c ∈ part := by
  induction parts with
  | nil => cases mem
  | cons part parts ih =>
    cases parts with
    | nil =>
      rw [List.intercalate_singleton] at mem
      exact .inr ⟨part, List.mem_cons_self, mem⟩
    | cons next parts =>
      rw [List.intercalate_cons_cons, List.append_assoc] at mem
      rcases List.mem_append.mp mem with mem | mem
      · exact .inr ⟨part, List.mem_cons_self, mem⟩
      rcases List.mem_append.mp mem with mem | mem
      · exact .inl (List.mem_singleton.mp mem)
      · obtain same | ⟨later, inside, mem⟩ := ih mem
        · exact .inl same
        · exact .inr ⟨later, List.mem_cons_of_mem _ inside, mem⟩

/-- Lines that are written with an LF after each are read back. -/
theorem lines_join {ls : List String}
    (h : ∀ l ∈ ls, '\n' ∉ l.toList ∧ l.toList.getLast? ≠ some '\r') :
    lines (String.join (ls.map (· ++ "\n"))) = ls := by
  have split : (String.join (ls.map (· ++ "\n"))).toList.splitOn '\n' =
      ls.map String.toList ++ [[]] := by
    induction ls with
    | nil => simp
    | cons l rest ih =>
      have joined : (String.join ((l :: rest).map (· ++ "\n"))).toList =
          l.toList ++ '\n' :: (String.join (rest.map (· ++ "\n"))).toList := by
        simp [String.toList_join]
      rw [joined, List.splitOn_append_cons_self_of_not_mem (h l List.mem_cons_self).1,
        ih fun l' mem => h l' (List.mem_cons_of_mem _ mem)]
      rfl
  have kept : (ls.map String.toList).map
      (fun l => if l.getLast? = some '\r' then l.dropLast else l) =
      ls.map String.toList := by
    rw [List.map_map]
    exact List.map_congr_left fun l mem => if_neg (h l mem).2
  simp only [lines, split, List.dropLast_concat, kept]
  simp

/-- The two parts, of which the first one has no separator. -/
theorem splitOnceChars_eq_some {s before after : List Char}
    (h : splitOnceChars c s = some (before, after)) : s = before ++ c :: after ∧ c ∉ before := by
  induction s generalizing before with
  | nil => cases h
  | cons x xs ih =>
    rw [splitOnceChars] at h
    split at h
    · rename_i here
      cases h
      exact ⟨by rw [here, List.nil_append], List.not_mem_nil⟩
    · rename_i other
      obtain ⟨⟨a, b⟩, parts, eq⟩ := Option.map_eq_some_iff.mp h
      cases eq
      obtain ⟨rfl, missing⟩ := ih parts
      exact ⟨rfl, by simp [missing, Ne.symm other]⟩

theorem splitOnce_eq_some {s before after : String} (h : splitOnce c s = some (before, after)) :
    s.toList = before.toList ++ c :: after.toList ∧ c ∉ before.toList := by
  obtain ⟨⟨a, b⟩, parts, eq⟩ := Option.map_eq_some_iff.mp h
  cases eq
  simpa using splitOnceChars_eq_some parts

/-- The two parts, of which the second one has no separator. -/
theorem rsplitOnceChars_eq_some {s before after : List Char}
    (h : rsplitOnceChars c s = some (before, after)) : s = before ++ c :: after ∧ c ∉ after := by
  have absent : ∀ xs : List Char, rsplitOnceChars c xs = none → c ∉ xs := by
    intro xs
    induction xs with
    | nil => exact fun _ => List.not_mem_nil
    | cons x xs ih =>
      intro none
      rw [rsplitOnceChars] at none
      cases later : rsplitOnceChars c xs with
      | some p => simp [later] at none
      | none =>
        have other : x ≠ c := by simpa [later] using none
        simpa [Ne.symm other] using ih later
  induction s generalizing before with
  | nil => cases h
  | cons x xs ih =>
    rw [rsplitOnceChars] at h
    cases later : rsplitOnceChars c xs with
    | some p =>
      rw [later] at h
      cases h
      obtain ⟨rfl, none⟩ := ih later
      exact ⟨rfl, none⟩
    | none =>
      simp only [later] at h
      split at h
      · rename_i here
        cases h
        exact ⟨by rw [here]; rfl, absent _ later⟩
      · cases h

theorem rsplitOnce_eq_some {s before after : String} (h : rsplitOnce c s = some (before, after)) :
    s.toList = before.toList ++ c :: after.toList ∧ c ∉ after.toList := by
  obtain ⟨⟨b, a⟩, found, eq⟩ := Option.map_eq_some_iff.mp h
  obtain ⟨rfl, rfl⟩ := Prod.mk.inj eq
  rw [String.toList_ofList, String.toList_ofList]
  exact rsplitOnceChars_eq_some found

theorem rsplitOnce_append (before : String) {after : String} (h : c ∉ after.toList) :
    rsplitOnce c (before ++ String.singleton c ++ after) = some (before, after) := by
  have absent : ∀ cs : List Char, c ∉ cs → rsplitOnceChars c cs = none := by
    intro cs
    induction cs with
    | nil => exact fun _ => rfl
    | cons x xs ih =>
      intro none
      rw [List.mem_cons, not_or] at none
      simp [rsplitOnceChars, ih none.2, Ne.symm none.1]
  have parts : ∀ cs : List Char,
      rsplitOnceChars c (cs ++ c :: after.toList) = some (cs, after.toList) := by
    intro cs
    induction cs with
    | nil => simp [rsplitOnceChars, absent _ h]
    | cons x xs ih => simp [rsplitOnceChars, ih]
  simp [rsplitOnce, parts]

theorem splitOnceChars_append {before : List Char} (h : c ∉ before)
    (after : List Char) : splitOnceChars c (before ++ c :: after) = some (before, after) := by
  induction before with
  | nil => simp [splitOnceChars]
  | cons x xs ih =>
    rw [List.mem_cons, not_or] at h
    simp [splitOnceChars, Ne.symm h.1, ih h.2]

theorem splitOnce_append {before : String} (h : c ∉ before.toList) (after : String) :
    splitOnce c (before ++ String.singleton c ++ after) = some (before, after) := by
  simp [splitOnce, splitOnceChars_append h]

/-- No place of a text has `sep` when none has its first character. -/
theorem splitOnceAt_eq_none {sep s : List Char} (h : c ∉ s) :
    splitOnceAt (c :: sep) s = none := by
  induction s with
  | nil => rfl
  | cons x xs ih =>
    rw [List.mem_cons, not_or] at h
    simp [splitOnceAt, h.1, ih h.2]

/-- The first place that has `sep` is the first that has its first character. -/
theorem splitOnceAt_append {before sep : List Char} (h : c ∉ before) (after : List Char) :
    splitOnceAt (c :: sep) (before ++ (c :: sep ++ after)) = some (before, after) := by
  induction before with
  | nil =>
    have here : (c :: sep).isPrefixOf (c :: (sep ++ after)) = true :=
      List.isPrefixOf_iff_prefix.mpr (List.prefix_append (c :: sep) after)
    simp only [List.nil_append, List.cons_append, splitOnceAt, here, if_true]
    simp
  | cons x xs ih =>
    rw [List.mem_cons, not_or] at h
    have other : (c :: sep).isPrefixOf (x :: (xs ++ (c :: sep ++ after))) = false := by
      rw [List.isPrefixOf, beq_false_of_ne h.1, Bool.false_and]
    simp only [List.cons_append] at other ih ⊢
    simp only [splitOnceAt, other, Bool.false_eq_true, if_false, ih h.2, Option.map_some]

theorem rsplitOnceAt_eq_some {sep s before after : List Char}
    (h : rsplitOnceAt sep s = some (before, after)) : s = before ++ sep ++ after := by
  induction s generalizing before with
  | nil => cases h
  | cons x xs ih =>
    rw [rsplitOnceAt] at h
    cases later : rsplitOnceAt sep xs with
    | some p =>
      rw [later] at h
      cases h
      rw [ih later]
      rfl
    | none =>
      simp only [later] at h
      split at h
      · rename_i here
        cases h
        obtain ⟨rest, eq⟩ := List.isPrefixOf_iff_prefix.mp here
        rw [← eq, List.drop_left]
        rfl
      · cases h

/-- The last place that has `sep` is the last that has its first character. -/
theorem rsplitOnceAt_append (before : List Char) {sep after : List Char}
    (absent : c ∉ sep ++ after) :
    rsplitOnceAt (c :: sep) (before ++ c :: (sep ++ after)) = some (before, after) := by
  have none : ∀ xs : List Char, c ∉ xs → rsplitOnceAt (c :: sep) xs = none := by
    intro xs
    induction xs with
    | nil => exact fun _ => rfl
    | cons x xs ih =>
      intro missing
      rw [List.mem_cons, not_or] at missing
      simp [rsplitOnceAt, ih missing.2, missing.1]
  induction before with
  | nil =>
    have here : (c :: sep).isPrefixOf (c :: (sep ++ after)) = true :=
      List.isPrefixOf_iff_prefix.mpr (List.prefix_append (c :: sep) after)
    simp only [List.nil_append, rsplitOnceAt, none _ absent, here, if_true]
    simp
  | cons x xs ih => simp only [List.cons_append, rsplitOnceAt, ih]

/-! ### Words -/

@[simp] theorem sentence_toList (first : String) (rest : List String) :
    (sentence first rest).toList = first.toList ++ rest.flatMap fun w => ' ' :: w.toList := by
  simp [sentence, String.toList_join, List.flatMap_map]

/-- A word: it has something, and no white space. -/
structure IsWord (w : String) : Prop where
  some : w.toList ≠ []
  inside : ∀ c ∈ w.toList, isWhitespace c = false

theorem IsWord.prepend {w : String} (h : IsWord w) (visible : isWhitespace c = false) :
    IsWord (String.singleton c ++ w) := by
  refine ⟨by simp, fun x mem => ?_⟩
  rw [String.toList_append, String.toList_singleton, List.singleton_append] at mem
  rcases List.mem_cons.mp mem with rfl | mem
  · exact visible
  · exact h.inside x mem

/-- Words are what is between the white space. -/
theorem splitWhitespace_sentence {first : String} {rest : List String} (h : IsWord first)
    (words : ∀ w ∈ rest, IsWord w) : splitWhitespace (sentence first rest) = first :: rest := by
  have parts : (sentence first rest).toList.splitOnP isWhitespace =
      first.toList :: rest.map String.toList := by
    rw [sentence_toList]
    induction rest generalizing first with
    | nil =>
      simpa using List.splitOnP_eq_singleton h.inside
    | cons w rest ih =>
      rw [List.flatMap_cons, List.cons_append,
        List.splitOnP_append_cons_of_forall_mem h.inside ' ' (by decide),
        ih (words w List.mem_cons_self) fun w' mem => words w' (List.mem_cons_of_mem _ mem)]
      rfl
  have all : (first.toList :: rest.map String.toList).filter (fun part => !part.isEmpty) =
      first.toList :: rest.map String.toList := by
    refine List.filter_eq_self.mpr fun part mem => ?_
    rcases List.mem_cons.mp mem with rfl | mem
    · simpa using h.some
    · obtain ⟨w, inRest, rfl⟩ := List.mem_map.mp mem
      simpa using (words w inRest).some
  rw [splitWhitespace, parts, all]
  simp

/-- A blank parts words. -/
theorem splitWhitespace_blank (s t : String) :
    splitWhitespace (s ++ " " ++ t) = splitWhitespace s ++ splitWhitespace t := by
  have chars : (s ++ " " ++ t).toList = s.toList ++ ' ' :: t.toList := by simp
  rw [splitWhitespace, chars, List.splitOnP_append_cons _ _ (by decide), List.filter_append,
    List.map_append]
  rfl

theorem splitWhitespace_word {word : String} (h : IsWord word) : splitWhitespace word = [word] := by
  have alone := @splitWhitespace_sentence word [] h (by simp)
  rwa [sentence, List.map_nil, String.join_nil, String.append_empty] at alone

theorem stripPrefix_append (p s : String) : stripPrefix p (p ++ s) = some s := by
  simp [stripPrefix]

/-- A text that differs from the prefix at a place does not have it. -/
theorem stripPrefix_eq_none {p s : String} (i : Nat) (inside : i < p.toList.length)
    (h : p.toList[i]? ≠ s.toList[i]?) : stripPrefix p s = none := by
  refine if_neg fun pre => h ?_
  obtain ⟨rest, eq⟩ := pre
  rw [← eq, List.getElem?_append_left inside]

variable {s : String}

theorem mem_of_mem_trim (mem : c ∈ (trim s).toList) : c ∈ s.toList := by
  simp only [trim, trimEnd, trimStart, String.toList_ofList, List.mem_reverse] at mem
  have inner := (List.dropWhile_sublist _).subset mem
  rw [List.mem_reverse] at inner
  exact (List.dropWhile_sublist _).subset inner

/-- Trimming leaves a text that neither begins nor ends with white space. -/
theorem trim_eq_self (first : ∀ c ∈ s.toList.head?, isWhitespace c = false)
    (last : ∀ c ∈ s.toList.getLast?, isWhitespace c = false) : trim s = s := by
  have front : trimStart s = s := by
    cases eq : s.toList with
    | nil => simp [trimStart, eq, ← String.toList_inj]
    | cons c rest =>
      rw [eq] at first
      simp [trimStart, eq, first c rfl, ← String.toList_inj]
  have back : s.toList.reverse.dropWhile isWhitespace = s.toList.reverse := by
    rw [← List.head?_reverse] at last
    cases eq : s.toList.reverse with
    | nil => rfl
    | cons c rest =>
      rw [eq] at last
      simp [last c rfl]
  rw [trim, front, trimEnd, back]
  simp

theorem trim_visible (visible : ∀ c ∈ s.toList, isWhitespace c = false) : trim s = s :=
  trim_eq_self (fun c first => visible c (List.mem_of_head? first))
    fun c last => visible c (List.mem_of_getLast? last)

theorem trim_between {c d : Char} {inner : List Char} (shape : s.toList = c :: (inner ++ [d]))
    (first : isWhitespace c = false) (last : isWhitespace d = false) : trim s = s := by
  refine trim_eq_self ?_ ?_
  · rw [shape]
    rintro x head
    obtain rfl := Option.some.inj head
    exact first
  · rw [shape, ← List.cons_append, List.getLast?_concat]
    rintro x back
    obtain rfl := Option.some.inj back
    exact last

theorem isWhitespace_of_head?_dropWhile {cs : List Char}
    (first : (cs.dropWhile isWhitespace).head? = some c) : isWhitespace c = false := by
  have visible := List.head?_dropWhile_not isWhitespace cs
  rwa [first] at visible

theorem toList_trim (s : String) : (trim s).toList =
    ((s.toList.dropWhile isWhitespace).reverse.dropWhile isWhitespace).reverse := by
  simp [trim, trimEnd, trimStart]

theorem trim_blank (s : String) : trim (" " ++ s) = trim s := by
  have blank : " ".toList = [' '] := by decide
  rw [← String.toList_inj, toList_trim, toList_trim, String.toList_append, blank]
  rfl

theorem isWhitespace_of_head?_trim (first : (trim s).toList.head? = some c) :
    isWhitespace c = false := by
  -- what is left at the end is a prefix of what is left at the start
  have start : (trim s).toList <+: s.toList.dropWhile isWhitespace := by
    rw [toList_trim, ← List.reverse_suffix, List.reverse_reverse]
    exact List.dropWhile_suffix _
  obtain ⟨rest, joined⟩ := start
  have front : (s.toList.dropWhile isWhitespace).head? = some c := by
    rw [← joined, List.head?_append, first]
    rfl
  exact isWhitespace_of_head?_dropWhile front

theorem isWhitespace_of_getLast?_trim
    (last : (trim s).toList.getLast? = some c) : isWhitespace c = false := by
  rw [toList_trim, List.getLast?_reverse] at last
  exact isWhitespace_of_head?_dropWhile last

/-- Words are what they are without the white space around them. -/
theorem words_trimStart (cs : List Char) :
    (((cs.dropWhile isWhitespace).splitOnP isWhitespace).filter fun part => !part.isEmpty) =
      (cs.splitOnP isWhitespace).filter fun part => !part.isEmpty := by
  induction cs with
  | nil => rfl
  | cons c cs ih =>
    by_cases white : isWhitespace c = true
    · rw [List.dropWhile_cons_of_pos white, ih, List.splitOnP_cons_eq_if_modifyHead, if_pos white]
      rfl
    · rw [List.dropWhile_cons_of_neg white]

theorem words_trimEnd (cs : List Char) :
    (((cs.reverse.dropWhile isWhitespace).reverse.splitOnP isWhitespace).filter fun part =>
        !part.isEmpty) =
      (cs.splitOnP isWhitespace).filter fun part => !part.isEmpty := by
  induction cs using List.reverseRecOn with
  | nil => rfl
  | append_singleton cs c ih =>
    rw [List.reverse_concat]
    by_cases white : isWhitespace c = true
    · rw [List.dropWhile_cons_of_pos white, ih, List.splitOnP_append_cons cs [] white,
        List.filter_append]
      simp
    · rw [List.dropWhile_cons_of_neg white, List.reverse_cons, List.reverse_reverse]

theorem splitWhitespace_trim (s : String) : splitWhitespace (trim s) = splitWhitespace s := by
  rw [splitWhitespace, toList_trim, words_trimEnd, words_trimStart]
  rfl

@[simp] theorem trim_trim (s : String) : trim (trim s) = trim s :=
  trim_eq_self (fun _ first => isWhitespace_of_head?_trim first)
    fun _ last => isWhitespace_of_getLast?_trim last

theorem toLower_toNat (upper : c.val ≥ 'A'.val ∧ c.val ≤ 'Z'.val) :
    c.toLower.val.toNat = c.val.toNat + 32 := by
  have codes : 'A'.val.toNat = 65 ∧ 'Z'.val.toNat = 90 ∧ ('a'.val - 'A'.val).toNat = 32 := by
    decide
  simp only [ge_iff_le, UInt32.le_iff_toNat_le] at upper
  rw [toLower_val upper, UInt32.toNat_add]
  omega

theorem isWhitespace_toLower (c : Char) : isWhitespace c.toLower = isWhitespace c := by
  by_cases upper : c.val ≥ 'A'.val ∧ c.val ≤ 'Z'.val
  · have lowered : c.toLower.toNat = c.toNat + 32 := toLower_toNat upper
    have range : 65 ≤ c.toNat ∧ c.toNat ≤ 90 := upper
    rw [isWhitespace_eq_false (by omega), isWhitespace_eq_false (by omega)]
  · rw [show c.toLower = c from dif_neg upper]

theorem eq_of_toLower_eq {c d : Char} (other : ¬(d.val ≥ 'a'.val ∧ d.val ≤ 'z'.val))
    (h : c.toLower = d) : c = d := by
  by_cases upper : c.val ≥ 'A'.val ∧ c.val ≤ 'Z'.val
  · refine absurd ?_ other
    have lowered := toLower_toNat upper
    have range : 65 ≤ c.val.toNat ∧ c.val.toNat ≤ 90 := upper
    rw [h] at lowered
    show 97 ≤ d.val.toNat ∧ d.val.toNat ≤ 122
    omega
  · rwa [show c.toLower = c from dif_neg upper] at h

theorem isControl_toLower (c : Char) : isControl c.toLower = isControl c := by
  by_cases upper : c.val ≥ 'A'.val ∧ c.val ≤ 'Z'.val
  · have lowered := toLower_toNat upper
    have range : 65 ≤ c.val.toNat ∧ c.val.toNat ≤ 90 := upper
    have code : c.toNat = c.val.toNat ∧ c.toLower.toNat = c.toLower.val.toNat := ⟨rfl, rfl⟩
    rw [isControl_eq_false (by omega), isControl_eq_false (by omega)]
  · rw [show c.toLower = c from dif_neg upper]

theorem length_utf8EncodeChar_toLower (c : Char) :
    (String.utf8EncodeChar c.toLower).length = (String.utf8EncodeChar c).length := by
  by_cases upper : c.val ≥ 'A'.val ∧ c.val ≤ 'Z'.val
  · have lowered := toLower_toNat upper
    have range : 65 ≤ c.val.toNat ∧ c.val.toNat ≤ 90 := upper
    have short : ∀ d : Char, d.val.toNat ≤ 127 → (String.utf8EncodeChar d).length = 1 := by
      intro d ascii
      rw [String.utf8EncodeChar, if_pos ascii]
      rfl
    rw [short _ (by omega), short _ (by omega)]
  · rw [show c.toLower = c from dif_neg upper]

theorem trim_toAsciiLowercase
    (s : String) : trim (toAsciiLowercase s) = toAsciiLowercase (trim s) := by
  have same : isWhitespace ∘ Char.toLower = isWhitespace := funext isWhitespace_toLower
  simp only [trim, trimEnd, trimStart, toAsciiLowercase, String.toList_ofList, List.dropWhile_map,
    ← List.map_reverse, same]

/-! ### Numbers -/

theorem isDigit_of_mem_toString {n : Nat} (h : c ∈ (toString n).toList) :
    c.isDigit = true := by
  rw [Nat.toString_eq_repr, Nat.toList_repr] at h
  exact Nat.isDigit_of_mem_toDigits (by decide) (by decide) h

/-- A number that is written in digits is read if it is within the bound. -/
theorem parseUnsigned_toString_eq (top n : Nat) :
    parseUnsigned top (toString n) = if n ≤ top then some n else none := by
  have noSign : (toString n).toList.head? ≠ some '+' := by
    intro sign
    exact absurd (isDigit_of_mem_toString (List.mem_of_head? sign)) (by decide)
  have digits : (toString n).toList.all Char.isDigit = true :=
    List.all_eq_true.mpr fun c mem => isDigit_of_mem_toString mem
  have value : (toString n).toList.foldl (fun n c => 10 * n + (c.toNat - '0'.toNat)) 0 = n := by
    rw [Nat.toString_eq_repr, Nat.toList_repr]
    exact Nat.ofDigitChars_ten_toDigits
  have some : (toString n).toList.isEmpty = false := by simp
  simp only [parseUnsigned, if_neg noSign, some, digits, Bool.not_true, Bool.or_self, Bool.false_eq_true,
    if_false, value]

/-- A number that is written in digits is read back. -/
theorem parseUnsigned_toString (h : n ≤ top) :
    parseUnsigned top (toString n) = some n := by
  rw [parseUnsigned_toString_eq, if_pos h]

theorem parseUnsigned_le (h : parseUnsigned top s = some n) :
    n ≤ top := by
  simp only [parseUnsigned] at h
  generalize (if s.toList.head? = some '+' then s.toList.drop 1 else s.toList) = digits at h
  split at h
  · cases h
  split at h
  · cases h
    assumption
  · cases h

/-- A number of `i64` that is written with its sign is read back. -/
theorem parseI64_toString {n : Int} (low : -2 ^ 63 ≤ n) (high : n ≤ 2 ^ 63 - 1) :
    parseI64 (toString n) = some n := by
  cases n with
  | ofNat m =>
    have small : m ≤ 2 ^ 63 - 1 := by
      have : (m : Int) ≤ 2 ^ 63 - 1 := high
      omega
    have noSign : (toString m).toList.head? ≠ some '-' := by
      intro sign
      exact absurd (isDigit_of_mem_toString (List.mem_of_head? sign)) (by decide)
    show parseI64 (toString m) = _
    rw [parseI64, if_neg noSign, parseUnsigned_toString small]
    rfl
  | negSucc m =>
    have small : m + 1 ≤ 2 ^ 63 := by omega
    have text : toString (Int.negSucc m) = "-" ++ toString (m + 1) := rfl
    have front : ("-" ++ toString (m + 1)).toList = '-' :: (toString (m + 1)).toList := by simp
    have noPlus : (toString (m + 1)).toList.head? ≠ some '+' := by
      intro sign
      exact absurd (isDigit_of_mem_toString (List.mem_of_head? sign)) (by decide)
    rw [text, parseI64, front, List.head?_cons, if_pos rfl, List.getElem?_cons_succ, ← List.head?_eq_getElem?,
      if_neg noPlus, List.drop_one, List.tail_cons, String.ofList_toList,
      parseUnsigned_toString small]
    rfl

theorem parseI64_range {n : Int} (h : parseI64 s = some n) :
    -2 ^ 63 ≤ n ∧ n ≤ 2 ^ 63 - 1 := by
  unfold parseI64 at h
  split at h
  · split at h
    · cases h
    obtain ⟨m, parsed, rfl⟩ := Option.map_eq_some_iff.mp h
    have := parseUnsigned_le parsed
    omega
  · obtain ⟨m, parsed, rfl⟩ := Option.map_eq_some_iff.mp h
    have := parseUnsigned_le parsed
    simp only [Int.ofNat_eq_natCast]
    omega

/-! ### UTF-8 -/

/-- An ASCII byte occurs only as the encoding of its own character. -/
theorem ascii_mem_utf8EncodeChar {byte : UInt8} (mem : byte ∈ String.utf8EncodeChar c)
    (ascii : byte.toNat < 0x80) :
    c.val.toNat = byte.toNat ∧ String.utf8EncodeChar c = [byte] := by
  simp only [String.utf8EncodeChar] at mem ⊢
  generalize c.val.toNat = v at mem ⊢
  by_cases small : v ≤ 0x7f
  · rw [if_pos small] at mem ⊢
    obtain rfl := List.mem_singleton.mp mem
    simp only [UInt8.toNat_ofNat', and_true]
    omega
  · -- the bytes of a longer encoding all have their high bit set
    have high : ∀ n : Nat, 0x80 ≤ n → n < 0x100 → byte ≠ UInt8.ofNat n := by
      rintro n low short rfl
      simp only [UInt8.toNat_ofNat', Nat.mod_eq_of_lt short] at ascii
      omega
    rw [if_neg small] at mem
    split at mem
    · rcases List.mem_pair.mp mem with eq | eq <;> exact absurd eq (high _ (by omega) (by omega))
    split at mem
    · simp only [List.mem_cons, List.not_mem_nil, or_false] at mem
      rcases mem with eq | eq | eq <;> exact absurd eq (high _ (by omega) (by omega))
    · simp only [List.mem_cons, List.not_mem_nil, or_false] at mem
      rcases mem with eq | eq | eq | eq <;> exact absurd eq (high _ (by omega) (by omega))

@[simp] theorem bytes_ofList (cs : List Char) :
    bytes (String.ofList cs) = cs.flatMap String.utf8EncodeChar := by
  simp [bytes]

@[simp] theorem bytes_append (s t : String) : bytes (s ++ t) = bytes s ++ bytes t := by
  simp [bytes]

end MailStack.Lib
