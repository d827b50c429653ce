import MailStack.Lib.Text

/-! JSON values. An object is a list of fields, of which the first with a key counts. -/

namespace MailStack.Lib

def isNumberChar (c : Char) : Bool :=
  c.isDigit || c = '-' || c = '+' || c = '.' || c = 'e' || c = 'E'

/-- A number, as the text that it is written with. -/
structure JsonNumber where
  text : String
  first : text.toList.head?.any (fun c => c.isDigit || c = '-') = true
  all : text.toList.all isNumberChar = true

inductive Json
  | null
  | bool (b : Bool)
  | number (n : JsonNumber)
  | string (s : String)
  | array (items : List Json)
  | object (fields : List (String × Json))

namespace Json

def get (key : String) : Json → Option Json
  | .object fields => fields.lookup key
  | _ => none

def asStr : Json → Option String
  | .string s => some s
  | _ => none

/-- The text in the field of the key. -/
def getStr (key : String) (value : Json) : Option String := (value.get key).bind asStr

end Json

theorem toString_ne_empty (n : Nat) : (toString n).toList ≠ [] := by
  simp [Nat.repr, Nat.toDigits_ne_nil]

def JsonNumber.ofNat (n : Nat) : JsonNumber where
  text := toString n
  first := by
    obtain ⟨c, rest, shape⟩ := List.exists_cons_of_ne_nil (toString_ne_empty n)
    have digit :=
      isDigit_of_mem_toString (n := n) (c := c) (by rw [shape]; exact List.mem_cons_self)
    rw [shape, List.head?_cons, Option.any_some, digit, Bool.true_or]
  all := by
    rw [List.all_eq_true]
    intro c mem
    simp [isNumberChar, isDigit_of_mem_toString mem]

end MailStack.Lib

/-! How JSON writes texts and numbers, and that what it writes says where it ends. -/

namespace MailStack.Lib

def hexDigit (n : Nat) : Char := if n < 10 then Char.ofNat (48 + n) else Char.ofNat (87 + n)

def hex4 (n : Nat) : List Char :=
  [hexDigit (n / 4096 % 16), hexDigit (n / 256 % 16), hexDigit (n / 16 % 16), hexDigit (n % 16)]

/-- A character inside of the quotation marks. -/
def jsonChar (c : Char) : List Char :=
  if c = '"' then ['\\', '"']
  else if c = '\\' then ['\\', '\\']
  else if c = '\n' then ['\\', 'n']
  else if c = '\r' then ['\\', 'r']
  else if c = '\t' then ['\\', 't']
  else if c = '\x08' then ['\\', 'b']
  else if c = '\x0c' then ['\\', 'f']
  else if c.toNat < 0x20 then ['\\', 'u'] ++ hex4 c.toNat
  else [c]

def jsonString (s : String) : String := String.ofList ('"' :: s.toList.flatMap jsonChar ++ ['"'])

def hexValue (c : Char) : Nat := if c.isDigit then c.toNat - 48 else c.toNat - 87

/-- The character that a text inside of quotation marks begins with. -/
def readJsonChar : List Char → Option (Char × List Char)
  | '\\' :: 'u' :: a :: b :: c :: d :: rest =>
    some (Char.ofNat (hexValue a * 4096 + hexValue b * 256 + hexValue c * 16 + hexValue d), rest)
  | '\\' :: 'n' :: rest => some ('\n', rest)
  | '\\' :: 'r' :: rest => some ('\r', rest)
  | '\\' :: 't' :: rest => some ('\t', rest)
  | '\\' :: 'b' :: rest => some ('\x08', rest)
  | '\\' :: 'f' :: rest => some ('\x0c', rest)
  | '\\' :: c :: rest => some (c, rest)
  | c :: rest => some (c, rest)
  | [] => none

theorem readJsonChar_control (rest : List Char) :
    ∀ n < 0x20, readJsonChar (['\\', 'u'] ++ hex4 n ++ rest) = some (Char.ofNat n, rest) := by
  intro n small
  have back : hexValue (hexDigit (n / 4096 % 16)) * 4096 +
      hexValue (hexDigit (n / 256 % 16)) * 256 +
      hexValue (hexDigit (n / 16 % 16)) * 16 + hexValue (hexDigit (n % 16)) = n := by
    revert n
    decide
  simp only [hex4, List.cons_append, List.nil_append, readJsonChar, back]

/-- A character is read back, whatever follows. -/
theorem readJsonChar_jsonChar (c : Char) (rest : List Char) :
    readJsonChar (jsonChar c ++ rest) = some (c, rest) := by
  unfold jsonChar
  split_ifs with h1 h2 h3 h4 h5 h6 h7 h8
  · rw [h1]; rfl
  · rw [h2]; rfl
  · rw [h3]; rfl
  · rw [h4]; rfl
  · rw [h5]; rfl
  · rw [h6]; rfl
  · rw [h7]; rfl
  · rw [readJsonChar_control rest _ h8, Char.ofNat_toNat]
  · simp [readJsonChar, h2]

theorem jsonChar_ne_quote {c : Char} {rest after : List Char} :
    jsonChar c ++ rest ≠ '"' :: after := by
  intro same
  have read := readJsonChar_jsonChar c rest
  rw [same] at read
  obtain rfl : '"' = c := by simpa [readJsonChar] using congrArg (·.map Prod.fst) read
  cases same

theorem flatMap_jsonChar_inj {cs ds a b : List Char}
    (same : cs.flatMap jsonChar ++ '"' :: a = ds.flatMap jsonChar ++ '"' :: b) :
    cs = ds ∧ a = b := by
  induction cs generalizing ds with
  | nil =>
    cases ds with
    | nil => simpa using same
    | cons d ds =>
      rw [List.flatMap_cons, List.append_assoc] at same
      exact absurd same.symm jsonChar_ne_quote
  | cons c cs ih =>
    cases ds with
    | nil =>
      rw [List.flatMap_cons, List.append_assoc] at same
      exact absurd same jsonChar_ne_quote
    | cons d ds =>
      rw [List.flatMap_cons, List.flatMap_cons, List.append_assoc, List.append_assoc] at same
      have read := congrArg readJsonChar same
      rw [readJsonChar_jsonChar, readJsonChar_jsonChar, Option.some.injEq, Prod.mk.injEq] at read
      obtain ⟨rfl, later⟩ := read
      obtain ⟨rfl, rfl⟩ := ih later
      exact ⟨rfl, rfl⟩

/-- A text in quotation marks ends where it ends. -/
theorem jsonString_append_inj {s t : String} {a b : List Char}
    (same : (jsonString s).toList ++ a = (jsonString t).toList ++ b) : s = t ∧ a = b := by
  simp only [jsonString, String.toList_ofList, List.cons_append, List.append_assoc,
    List.nil_append, List.cons.injEq, true_and] at same
  obtain ⟨texts, rfl⟩ := flatMap_jsonChar_inj same
  exact ⟨String.toList_inj.mp texts, rfl⟩

/-- Two texts of characters of a kind, each followed by another character or by nothing. -/
theorem append_inj_of_all {p : Char → Bool} {ds es a b : List Char} (hd : ds.all p = true)
    (he : es.all p = true) (ha : a.head?.any p = false) (hb : b.head?.any p = false)
    (same : ds ++ a = es ++ b) : ds = es ∧ a = b := by
  have front : ∀ {xs rest : List Char}, xs.all p = true → rest.head?.any p = false →
      (xs ++ rest).takeWhile p = xs := by
    intro xs rest all ends
    rw [List.takeWhile_append_of_pos fun c mem => List.all_eq_true.mp all c mem]
    cases rest with
    | nil => simp
    | cons c rest =>
      have other : p c = false := ends
      simp [other]
  have texts : ds = es := by rw [← front hd ha, same, front he hb]
  subst texts
  exact ⟨rfl, List.append_cancel_left same⟩

/-- A number ends before what is no digit. -/
theorem toString_append_inj {m n : Nat} {a b : List Char} (ha : a.head?.any Char.isDigit = false)
    (hb : b.head?.any Char.isDigit = false)
    (same : (toString m).toList ++ a = (toString n).toList ++ b) : m = n ∧ a = b := by
  have digits : ∀ k : Nat, (toString k).toList.all Char.isDigit = true := fun k =>
    List.all_eq_true.mpr fun c mem => isDigit_of_mem_toString mem
  obtain ⟨texts, rfl⟩ := append_inj_of_all (digits m) (digits n) ha hb same
  refine ⟨?_, rfl⟩
  have read := parseUnsigned_toString (Nat.le_max_left m n)
  rw [String.toList_inj.mp texts, parseUnsigned_toString (Nat.le_max_right m n)] at read
  exact (Option.some.inj read).symm

end MailStack.Lib
