import MailStack.Lib.Parse
import MailStack.Lib.Utf8
import MailStack.Net.LineIo

/-! The commands of ManageSieve as they are read: a line of words and quoted strings, the last of
which may announce a literal that follows. -/

namespace MailStack.ManageSieve

open Lib Maildir Net

def maxLine : Nat := 64 * 1024

def maxScript : Nat := 64 * 1024

structure Command where
  name : String
  args : List String
  literal : Option (List UInt8)
deriving DecidableEq

def isBlank (c : Char) : Bool := c = ' ' || c = '\t'

/-- What follows an opening quote, with the characters before. -/
def quoted (value : List Char) : Parse Char MailError String
  | [] => .error (.protocol "unterminated string")
  | '"' :: rest => .ok (String.ofList value, rest)
  | ['\\'] => .error (.protocol "unterminated escape")
  | '\\' :: escaped :: rest =>
    if escaped = '"' || escaped = '\\' then quoted (value ++ [escaped]) rest
    else quoted (value ++ ['\\', escaped]) rest
  | c :: rest => quoted (value ++ [c]) rest

/-- The next token after blanks, which there may be none of. -/
def nextToken : Parse Char MailError (Option String) := fun input =>
  match input.dropWhile isBlank with
  | [] => .ok (none, [])
  | '"' :: rest => (some <$> quoted []) rest
  | c :: rest =>
    .ok (some (String.ofList ((c :: rest).takeWhile fun c => !isBlank c)),
      (c :: rest).dropWhile fun c => !isBlank c)

/-- The body of the loop: it ends with the line. -/
def tokenStep (tokens : List String) : Parse Char MailError (List String ⊕ List String) :=
  (fun token => token.elim (.inr tokens) fun token => .inl (tokens ++ [token])) <$> nextToken

/-- What the model of the loop would say if it stopped too early. -/
def stuck : MailError := .protocol "the loop does not end"

def tokenize (line : String) : Except MailError (List String) :=
  (Parse.loop tokenStep stuck [] line.toList).map Prod.fst

def stripSuffix (c : Char) (s : List Char) : Option (List Char) :=
  if s.getLast? = some c then some s.dropLast else none

/-- The size that a token announces. -/
def literalMarker (token : String) : Option Nat :=
  match stripPrefix "\x7b" token with
  | none => none
  | some rest =>
    match stripSuffix '\x7d' rest.toList with
    | none => none
    | some inner =>
      let digits := (stripSuffix '+' inner).getD inner
      if digits.isEmpty || !digits.all Char.isDigit then none
      else parseUnsigned u64Max (String.ofList digits)

/-- The command of the tokens of a line. A line without tokens is taken for the end. -/
def commandOf (tokens : List String) (literal : Option (List UInt8)) : Option Command :=
  match tokens with
  | [] => none
  | name :: args => some { name := toAsciiUppercase name, args, literal }

/-- What follows the line: the literal that its last token announces. -/
def readRest (io : LineIo) (tokens : List String) : Net.Outcome (Option Command) :=
  match tokens.getLast?.bind literalMarker with
  | none => (.ok (commandOf tokens none), io)
  | some size =>
    match io.readExact size maxScript with
    | (.error error, io) => (.error error, io)
    | (.ok literal, io) => (.ok (commandOf tokens.dropLast (some literal)), io)

def readCommand (io : LineIo) : Net.Outcome (Option Command) :=
  match io.readLine maxLine with
  | (.error error, io) => (.error error, io)
  | (.ok none, io) => (.ok none, io)
  | (.ok (some line), io) =>
    match tokenize (fromUtf8Lossy line) with
    | .error error => (.error error, io)
    | .ok tokens => readRest io tokens

example : tokenize "PUTSCRIPT \"a \\\"b\\\"\" \x7b5+\x7d" =
    .ok ["PUTSCRIPT", "a \"b\"", "\x7b5+\x7d"] := by decide +kernel

end MailStack.ManageSieve

/-! Streams of ManageSieve commands: how a client writes them, and when they are read back as they
were written. -/

namespace MailStack.ManageSieve

open Lib Maildir Net

def isQuotable (c : Char) : Bool := c ≠ '\x00' && c ≠ '\r' && c ≠ '\n'

structure Request where
  name : String
  args : List String
  literal : Option (List UInt8)
  letters : name.toList ≠ [] ∧ ∀ c ∈ name.toList, c.isAlpha = true
  quotable : ∀ arg ∈ args, ∀ c ∈ arg.toList, isQuotable c = true

def escaped (c : Char) : List Char := if c = '"' ∨ c = '\\' then ['\\', c] else [c]

def quote (value : String) : List Char := '"' :: (value.toList.flatMap escaped ++ ['"'])

def marker (size : Nat) : String := "\x7b" ++ toString size ++ "+\x7d"

namespace Request

variable (r : Request)

def line : String :=
  String.ofList (r.name.toList ++ (r.args.flatMap (fun arg => ' ' :: quote arg) ++
    (r.literal.elim [] fun data => ' ' :: (marker data.length).toList)))

def encode : List UInt8 :=
  bytes r.line ++ cr :: lf :: (r.literal.elim [] (· ++ [cr, lf]))

def command : Command :=
  { name := toAsciiUppercase r.name, args := r.args, literal := r.literal }

def tokens : List String :=
  r.name :: (r.args ++ (r.literal.map fun data => marker data.length).toList)

end Request

/-! ### Tokens -/

theorem quoted_escaped (value : List Char) (c : Char) (rest : List Char) :
    quoted value (escaped c ++ rest) = quoted (value ++ [c]) rest := by
  unfold escaped
  split_ifs with special
  · rcases special with rfl | rfl <;> rfl
  · rw [not_or] at special
    rw [List.singleton_append, quoted.eq_def]
    split
    · rename_i h
      cases h
    · rename_i h
      cases h
      exact absurd rfl special.1
    · rename_i h
      cases h
      exact absurd rfl special.2
    · rename_i h
      cases h
      exact absurd rfl special.2
    · rename_i h
      cases h
      rfl

theorem quoted_quote (value : List Char) (chars rest : List Char) :
    quoted value (chars.flatMap escaped ++ '"' :: rest) =
      .ok (String.ofList (value ++ chars), rest) := by
  induction chars generalizing value with
  | nil => simp [quoted]
  | cons c chars ih =>
    rw [List.flatMap_cons, List.append_assoc, quoted_escaped, ih, List.append_assoc]
    rfl

theorem nextToken_quote (value : String) (rest : List Char) :
    nextToken (' ' :: (quote value ++ rest)) = .ok (some value, rest) := by
  have skip : (' ' :: (quote value ++ rest)).dropWhile isBlank =
      '"' :: (value.toList.flatMap escaped ++ '"' :: rest) := by
    simp [quote, isBlank]
  have read := quoted_quote [] value.toList rest
  rw [List.nil_append, String.ofList_toList] at read
  simp only [nextToken, skip]
  exact Parse.map_ok.mpr ⟨value, read, rfl⟩

theorem nextToken_word {word blanks rest : List Char} (nonempty : word ≠ [])
    (visible : ∀ c ∈ word, isBlank c = false) (noQuote : '"' ∉ word)
    (blank : ∀ c ∈ blanks, isBlank c = true) (after : ∀ c ∈ rest.head?, isBlank c = true) :
    nextToken (blanks ++ (word ++ rest)) = .ok (some (String.ofList word), rest) := by
  obtain ⟨c, cs, rfl⟩ := List.exists_cons_of_ne_nil nonempty
  have skip : (blanks ++ (c :: cs ++ rest)).dropWhile isBlank = c :: (cs ++ rest) := by
    rw [List.dropWhile_append_of_pos blank, List.cons_append,
      List.dropWhile_cons_of_neg (by simp [visible c List.mem_cons_self])]
  have stop : rest.takeWhile (fun c => !isBlank c) = [] ∧
      rest.dropWhile (fun c => !isBlank c) = rest := by
    cases rest with
    | nil => exact ⟨rfl, rfl⟩
    | cons d ds => simp [after d rfl]
  have whole : ∀ x ∈ c :: cs, (!isBlank x) = true := fun x mem => by simp [visible x mem]
  have taken : (c :: (cs ++ rest)).takeWhile (fun c => !isBlank c) = c :: cs := by
    rw [← List.cons_append, List.takeWhile_append_of_pos whole, stop.1, List.append_nil]
  have left : (c :: (cs ++ rest)).dropWhile (fun c => !isBlank c) = rest := by
    rw [← List.cons_append, List.dropWhile_append_of_pos whole, stop.2]
  have noQuote' : c ≠ '"' := fun same => noQuote (same ▸ List.mem_cons_self)
  simp only [nextToken, skip]
  rw [taken, left]

theorem quoted_shrinks (value : List Char) : Parse.Shrinks (quoted value) := by
  intro input token rest read
  induction value, input using quoted.induct with
  | case1 value => cases read
  | case2 value tail =>
    cases read
    exact Nat.le_succ _
  | case3 value => cases read
  | case4 value c tail special ih =>
    rw [quoted, if_pos special] at read
    have := ih read
    simp only [List.length_cons]
    omega
  | case5 value c tail special ih =>
    rw [quoted, if_neg special] at read
    have := ih read
    simp only [List.length_cons]
    omega
  | case6 value c tail notQuote notLast notEscape ih =>
    simp only [quoted] at read
    have := ih read
    simp only [List.length_cons]
    omega

/-- Every round but the last takes a token. -/
theorem tokenStep_advances : Parse.Advances tokenStep := by
  intro tokens input tokens' rest read
  obtain ⟨token, next, eq⟩ := Parse.map_ok.mp read
  cases token with
  | none => cases eq
  | some token =>
    have shorter : (input.dropWhile isBlank).length ≤ input.length := 
      (List.dropWhile_sublist _).length_le
    unfold nextToken at next
    split at next
    · cases next
    · rename_i tail h
      obtain ⟨_, read, -⟩ := Parse.map_ok.mp next
      have := quoted_shrinks [] tail _ rest read
      rw [h, List.length_cons] at shorter
      omega
    · rename_i c tail noQuote h
      have visible : (!isBlank c) = true := by
        have first := List.head?_dropWhile_not isBlank input
        rw [h] at first
        simpa using first
      cases next
      rw [h, List.length_cons] at shorter
      have fewer := (List.dropWhile_sublist (l := tail) fun c => !isBlank c).length_le
      simp only [List.dropWhile_cons, visible, if_true]
      omega

section Loop

variable {tokens : List String} {input rest : List Char}

theorem loop_token {token : String} (next : nextToken input = .ok (some token, rest)) :
    Parse.loop tokenStep stuck tokens input =
      Parse.loop tokenStep stuck (tokens ++ [token]) rest := by
  rw [Parse.loop_eq stuck tokenStep_advances]
  show (tokenStep tokens input >>= _) = _
  have step : tokenStep tokens input = .ok (.inl (tokens ++ [token]), rest) :=
    Parse.map_ok.mpr ⟨some token, next, rfl⟩
  rw [step]
  rfl

theorem loop_end (next : nextToken input = .ok (none, rest)) :
    Parse.loop tokenStep stuck tokens input = .ok (tokens, rest) := by
  rw [Parse.loop_eq stuck tokenStep_advances]
  show (tokenStep tokens input >>= _) = _
  have step : tokenStep tokens input = .ok (.inr tokens, rest) :=
    Parse.map_ok.mpr ⟨none, next, rfl⟩
  rw [step]
  rfl

theorem loop_args (args : List String) :
    Parse.loop tokenStep stuck tokens (args.flatMap (fun arg => ' ' :: quote arg) ++ rest) =
      Parse.loop tokenStep stuck (tokens ++ args) rest := by
  induction args generalizing tokens with
  | nil => simp
  | cons arg args ih =>
    have parts : (arg :: args).flatMap (fun arg => ' ' :: quote arg) ++ rest =
        ' ' :: (quote arg ++ (args.flatMap (fun arg => ' ' :: quote arg) ++ rest)) := by simp
    rw [parts, loop_token (nextToken_quote arg _), ih, List.append_assoc]
    rfl

end Loop

theorem marker_toList (size : Nat) :
    (marker size).toList = '\x7b' :: ((toString size).toList ++ ['+', '\x7d']) := by
  simp [marker]

theorem marker_visible (size : Nat) :
    ∀ c ∈ (marker size).toList, isBlank c = false ∧ c ≠ '"' ∧ c ≠ '\n' := by
  intro c mem
  rw [marker_toList] at mem
  have digit : c.isDigit = true → isBlank c = false ∧ c ≠ '"' ∧ c ≠ '\n' := by
    intro digit
    refine ⟨?_, ?_, ?_⟩
    · rw [isBlank, Bool.or_eq_false_iff]
      refine ⟨decide_eq_false ?_, decide_eq_false ?_⟩ <;> rintro rfl <;> exact absurd digit (by decide)
    · rintro rfl
      exact absurd digit (by decide)
    · rintro rfl
      exact absurd digit (by decide)
  simp only [List.mem_cons, List.mem_append, List.not_mem_nil, or_false] at mem
  rcases mem with rfl | mem | rfl | rfl
  · decide
  · exact digit (isDigit_of_mem_toString mem)
  · decide
  · decide

theorem letter_visible {c : Char} (letter : c.isAlpha = true) :
    isBlank c = false ∧ c ≠ '"' ∧ c ≠ '\n' ∧ c ≠ '\x7b' := by
  refine ⟨?_, ?_, ?_, ?_⟩
  · rw [isBlank, Bool.or_eq_false_iff]
    refine ⟨decide_eq_false ?_, decide_eq_false ?_⟩ <;> rintro rfl <;> exact absurd letter (by decide)
  all_goals
    rintro rfl
    exact absurd letter (by decide)

theorem nextToken_marker (size : Nat) :
    nextToken (' ' :: (marker size).toList) = .ok (some (marker size), []) := by
  have word : nextToken ([' '] ++ ((marker size).toList ++ [])) =
      .ok (some (String.ofList (marker size).toList), []) :=
    nextToken_word (by simp [marker_toList]) (fun c mem => (marker_visible size c mem).1)
      (fun mem => (marker_visible size _ mem).2.1 rfl) (List.all_eq_true.mp (by decide)) (by simp)
  rwa [List.append_nil, String.ofList_toList] at word

namespace Request

variable (r : Request)

def restChars : List Char :=
  r.args.flatMap (fun arg => ' ' :: quote arg) ++
    (r.literal.elim [] fun data => ' ' :: (marker data.length).toList)

theorem line_toList : r.line.toList = r.name.toList ++ r.restChars := String.toList_ofList

theorem restChars_head : ∀ c ∈ r.restChars.head?, isBlank c = true := by
  unfold restChars
  cases r.args with
  | nil =>
    cases r.literal with
    | none => simp
    | some data => simp [isBlank]
  | cons arg args => simp [isBlank]

theorem nextToken_name : nextToken r.line.toList = .ok (some r.name, r.restChars) := by
  have word : nextToken ([] ++ (r.name.toList ++ r.restChars)) =
      .ok (some (String.ofList r.name.toList), r.restChars) :=
    nextToken_word r.letters.1 (fun c mem => (letter_visible (r.letters.2 c mem)).1)
      (fun mem => (letter_visible (r.letters.2 _ mem)).2.1 rfl) (by simp) r.restChars_head
  rwa [List.nil_append, ← line_toList, String.ofList_toList] at word

theorem tokenize_line : tokenize r.line = .ok r.tokens := by
  have announced : ∀ tokens, Parse.loop tokenStep stuck tokens
      (r.literal.elim [] fun data => ' ' :: (marker data.length).toList) =
        .ok (tokens ++ (r.literal.map fun data => marker data.length).toList, []) := by
    intro tokens
    cases r.literal with
    | none =>
      show Parse.loop tokenStep stuck tokens [] = .ok (tokens ++ [], [])
      rw [loop_end (show nextToken [] = .ok (none, []) from rfl), List.append_nil]
    | some data =>
      show Parse.loop tokenStep stuck tokens (' ' :: (marker data.length).toList) =
        .ok (tokens ++ [marker data.length], [])
      rw [loop_token (nextToken_marker _), loop_end (show nextToken [] = .ok (none, []) from rfl)]
  rw [tokenize, loop_token r.nextToken_name, restChars, loop_args, announced]
  simp [tokens, Except.map]

theorem line_noLf : '\n' ∉ r.line.toList := by
  rw [line_toList, restChars]
  simp only [List.mem_append, List.mem_flatMap, not_or, not_exists, not_and]
  refine ⟨fun mem => (letter_visible (r.letters.2 _ mem)).2.2.1 rfl, fun arg inArgs mem => ?_, ?_⟩
  · simp only [quote, List.mem_cons, List.mem_append, List.mem_flatMap, Char.reduceEq,
      List.not_mem_nil, or_false, false_or] at mem
    obtain ⟨c, inArg, mem⟩ := mem
    have same : c = '\n' := by
      unfold escaped at mem
      split_ifs at mem with special
      · simp only [List.mem_cons, Char.reduceEq, List.not_mem_nil, or_false, false_or] at mem
        exact mem.symm
      · exact (List.mem_singleton.mp mem).symm
    have := r.quotable arg inArgs c inArg
    rw [same] at this
    revert this
    decide
  · cases r.literal with
    | none => simp
    | some data =>
      intro mem
      rcases List.mem_cons.mp mem with blank | mem
      · cases blank
      · exact (marker_visible _ _ mem).2.2 rfl

theorem bytes_noLf : lf ∉ bytes r.line := by
  intro mem
  obtain ⟨c, inLine, inChar⟩ := List.mem_flatMap.mp mem
  have value := (ascii_mem_utf8EncodeChar inChar (by decide)).1
  have same : c = '\n' := Char.toNat_inj.mp value
  exact r.line_noLf (same ▸ inLine)

end Request

/-! ### What is announced -/

theorem literalMarker_marker (size : Nat) :
    literalMarker (marker size) = if size ≤ u64Max then some size else none := by
  have inner : stripPrefix "\x7b" (marker size) = some (toString size ++ "+\x7d") := by
    rw [marker, String.append_assoc]
    exact stripPrefix_append _ _
  have chars : (toString size ++ "+\x7d").toList =
      ((toString size).toList ++ ['+']) ++ ['\x7d'] := by
    simp
  have closed : stripSuffix '\x7d' (((toString size).toList ++ ['+']) ++ ['\x7d']) =
      some ((toString size).toList ++ ['+']) := by
    simp [stripSuffix]
  have plus : stripSuffix '+' ((toString size).toList ++ ['+']) = some (toString size).toList := by
    simp [stripSuffix]
  have digits : ((toString size).toList.isEmpty || !(toString size).toList.all Char.isDigit) =
      false := by
    rw [List.all_eq_true.mpr fun c mem => isDigit_of_mem_toString mem]
    simp
  simp only [literalMarker, inner, chars, closed, plus, Option.getD_some, digits, Bool.false_eq_true,
    if_false, String.ofList_toList, parseUnsigned_toString_eq]

theorem literalMarker_of_head {token : String} (other : token.toList.head? ≠ some '\x7b') :
    literalMarker token = none := by
  have none : stripPrefix "\x7b" token = none := by
    refine stripPrefix_eq_none 0 (by decide) fun same => other ?_
    rw [List.head?_eq_getElem?, ← same]
    rfl
  rw [literalMarker, none]

/-! ### One command -/

/-- The command is one that can be read: its line and its literal are not too long, and its last
argument does not look like the announcement of a literal that it does not have. -/
structure Request.Fits (r : Request) : Prop where
  line : (bytes r.line).length < maxLine
  unannounced : r.literal = none → ∀ last ∈ r.args.getLast?, literalMarker last = none
  literal : ∀ data ∈ r.literal, data.length ≤ maxScript

/-- What is left of a literal once it was read: the end of the line that it stands in. -/
def Request.leftover (r : Request) : List UInt8 := if r.literal.isSome then [cr, lf] else []

namespace Request

variable {r : Request} {io : LineIo} {rest : List UInt8} {c : Command}

theorem leftover_without (plain : r.literal = none) : r.leftover = [] := by
  simp [leftover, plain]

theorem leftover_with (carried : r.literal.isSome) : r.leftover = [cr, lf] := if_pos carried

theorem readCommand_line (short : (bytes r.line).length < maxLine)
    (eq : io.pending = r.encode ++ rest) :
    ∃ io', io'.pending = (r.literal.elim [] (· ++ [cr, lf])) ++ rest ∧
      (io.Bytewise → io'.Bytewise) ∧ readCommand io = readRest io' r.tokens := by
  have parts : io.pending =
      bytes r.line ++ cr :: lf :: ((r.literal.elim [] (· ++ [cr, lf])) ++ rest) := by
    rw [eq, encode]
    simp
  obtain ⟨io', read, left, single⟩ := LineIo.readLine_ok r.bytes_noLf short parts
  refine ⟨io', left, single, ?_⟩
  simp only [readCommand, read, fromUtf8Lossy_bytes, tokenize_line]

theorem tokens_without (plain : r.literal = none) : r.tokens = r.name :: r.args := by
  simp [tokens, plain]

variable {data : List UInt8}

theorem tokens_with (carried : r.literal = some data) :
    r.tokens = (r.name :: r.args) ++ [marker data.length] := by
  simp [tokens, carried]

theorem literalMarker_name : literalMarker r.name = none := by
  obtain ⟨c, cs, name⟩ := List.exists_cons_of_ne_nil r.letters.1
  refine literalMarker_of_head fun brace => ?_
  rw [name, List.head?_cons] at brace
  cases brace
  exact (letter_visible (r.letters.2 '\x7b' (name ▸ List.mem_cons_self))).2.2.2 rfl

theorem last_without (plain : r.literal = none) :
    r.tokens.getLast?.bind literalMarker = r.args.getLast?.bind literalMarker := by
  rw [tokens_without plain]
  cases r.args with
  | nil => exact literalMarker_name
  | cons arg args => rw [List.getLast?_cons_cons]

theorem last_with (carried : r.literal = some data) :
    r.tokens.getLast?.bind literalMarker =
      if data.length ≤ u64Max then some data.length else none := by
  rw [tokens_with carried, List.getLast?_concat, Option.bind_some, literalMarker_marker]

theorem readRest_without (plain : r.literal = none)
    (unannounced : ∀ last ∈ r.args.getLast?, literalMarker last = none) :
    readRest io r.tokens = (.ok (some r.command), io) := by
  have silent : r.tokens.getLast?.bind literalMarker = none := by
    rw [last_without plain]
    cases last : r.args.getLast? with
    | none => rfl
    | some arg => exact unannounced arg last
  simp only [readRest, silent]
  simp only [tokens_without plain, commandOf, command, plain]

theorem readRest_with (carried : r.literal = some data)
    (short : data.length ≤ maxScript) (eq : io.pending = data ++ rest) :
    ∃ io', readRest io r.tokens = (.ok (some r.command), io') ∧ io'.pending = rest ∧
      (io.Bytewise → io'.Bytewise) := by
  have announced : r.tokens.getLast?.bind literalMarker = some data.length := by
    rw [last_with carried, if_pos (short.trans (by decide))]
  have before : r.tokens.dropLast = r.name :: r.args := by
    rw [tokens_with carried, List.dropLast_concat]
  obtain ⟨io', read, left, single⟩ := LineIo.readExact_ok rfl short eq
  refine ⟨io', ?_, left, single⟩
  simp only [readRest, announced, read, before, commandOf, command, carried]

theorem Fits.readCommand (fits : r.Fits) (eq : io.pending = r.encode ++ rest) :
    ∃ io', readCommand io = (.ok (some r.command), io') ∧ io'.pending = r.leftover ++ rest ∧
      (io.Bytewise → io'.Bytewise) := by
  obtain ⟨io₁, left, single, step⟩ := readCommand_line fits.line eq
  rw [step]
  cases carried : r.literal with
  | none =>
    refine ⟨io₁, readRest_without carried (fits.unannounced carried), ?_, single⟩
    rw [left, leftover_without carried, carried]
    rfl
  | some data =>
    have parts : io₁.pending = data ++ ([cr, lf] ++ rest) := by
      rw [left, carried]
      simp
    obtain ⟨io₂, read, left', single'⟩ := readRest_with carried (fits.literal data carried) parts
    refine ⟨io₂, read, ?_, fun bytewise => single' (single bytewise)⟩
    rw [left', leftover_with (carried ▸ rfl)]

theorem readRest_announced {io io' : LineIo} {tokens : List String} {size : Nat}
    (announced : tokens.getLast?.bind literalMarker = some size)
    (h : readRest io tokens = (.ok (some c), io')) :
    c.literal.isSome ∧ size ≤ maxScript := by
  simp only [readRest, announced] at h
  split at h
  · cases h
  rename_i literal left read
  refine ⟨?_, ?_⟩
  · unfold commandOf at h
    split at h
    · cases h
    · cases h
      rfl
  · by_contra long
    rw [LineIo.readExact, if_pos (not_le.mp long)] at read
    cases read

theorem readRest_silent {io io' : LineIo} {tokens : List String}
    (silent : tokens.getLast?.bind literalMarker = none)
    (h : readRest io tokens = (.ok (some c), io')) : c.literal = none := by
  simp only [readRest, silent] at h
  unfold commandOf at h
  split at h
  · cases h
  · cases h
    rfl

theorem fits_of_readCommand {io' : LineIo} (bytewise : io.Bytewise)
    (eq : io.pending = r.encode ++ rest)
    (h : ManageSieve.readCommand io = (.ok (some r.command), io')) : r.Fits := by
  have short : (bytes r.line).length < maxLine := by
    by_contra long
    have enough : maxLine + 1 ≤ (bytes r.line ++ [cr]).length := by
      rw [List.length_append, List.length_singleton]
      omega
    have noLf : lf ∉ (bytes r.line ++ [cr]).take (maxLine + 1) := by
      intro mem
      rcases List.mem_append.mp (List.mem_of_mem_take mem) with mem | mem
      · exact r.bytes_noLf mem
      · exact absurd (List.mem_singleton.mp mem) (by decide)
    have parts : io.pending = (bytes r.line ++ [cr]).take (maxLine + 1) ++
        ((bytes r.line ++ [cr]).drop (maxLine + 1) ++
          (lf :: (r.literal.elim [] (· ++ [cr, lf])) ++ rest)) := by
      rw [← List.append_assoc, List.take_append_drop, eq, encode]
      simp
    obtain ⟨io₁, refused⟩ :=
      LineIo.readLine_tooLong bytewise noLf (List.length_take_of_le enough) parts
    simp only [ManageSieve.readCommand, refused] at h
    cases h
  obtain ⟨io₁, -, -, step⟩ := readCommand_line short eq
  rw [step] at h
  refine ⟨short, fun plain last isLast => ?_, fun data carried => ?_⟩
  · by_contra announces
    obtain ⟨size, announces⟩ := Option.ne_none_iff_exists'.mp announces
    have announced : r.tokens.getLast?.bind literalMarker = some size := by
      rw [last_without plain, Option.mem_def.mp isLast]
      exact announces
    have := (readRest_announced announced h).1
    simp [command, plain] at this
  · have announced := last_with carried
    split_ifs at announced with within
    · exact (readRest_announced announced h).2
    · have := readRest_silent announced h
      simp [command, Option.mem_def.mp carried] at this

end Request

theorem readCommand_end {io : LineIo} (eq : io.pending = []) :
    ∃ io', readCommand io = (.ok none, io') := by
  obtain ⟨io', read⟩ : ∃ io', io.readLine maxLine = (.ok none, io') := LineIo.readLine_end eq
  exact ⟨io', by simp only [readCommand, read]⟩

theorem readCommand_empty {io : LineIo} {rest : List UInt8} (eq : io.pending = cr :: lf :: rest) :
    ∃ io', readCommand io = (.ok none, io') := by
  have short : ([] : List UInt8).length < maxLine := by decide
  have parts : io.pending = [] ++ cr :: lf :: rest := eq
  obtain ⟨io', read, -, -⟩ := LineIo.readLine_ok List.not_mem_nil short parts
  have nothing : tokenize (fromUtf8Lossy []) = .ok [] := by decide
  refine ⟨io', ?_⟩
  simp only [readCommand, read, nothing, readRest, List.getLast?_nil, Option.bind_none, commandOf]

/-! ### Streams -/

/-- One call after another gives the commands and then the end. -/
def Reads : LineIo → List Command → Prop
  | io, [] => ∃ io', readCommand io = (.ok none, io')
  | io, c :: commands => ∃ io', readCommand io = (.ok (some c), io') ∧ Reads io' commands

theorem reads_of_fits {requests : List Request} {io : LineIo} (fits : ∀ r ∈ requests, r.Fits)
    (plain : ∀ r ∈ requests.dropLast, r.literal = none)
    (eq : io.pending = requests.flatMap Request.encode) :
    Reads io (requests.map Request.command) := by
  induction requests generalizing io with
  | nil => exact readCommand_end eq
  | cons r rest ih =>
    rw [List.flatMap_cons] at eq
    obtain ⟨io', read, left, -⟩ := (fits r List.mem_cons_self).readCommand eq
    refine ⟨io', read, ?_⟩
    cases rest with
    | nil =>
      rw [List.flatMap_nil, List.append_nil, Request.leftover] at left
      split_ifs at left
      · exact readCommand_empty left
      · exact readCommand_end left
    | cons next rest =>
      have first : r.literal = none := plain r (by simp)
      refine ih (fun r' mem => fits r' (List.mem_cons_of_mem _ mem)) (fun r' mem => plain r' ?_) ?_
      · rw [List.dropLast_cons_of_ne_nil (by simp)]
        exact List.mem_cons_of_mem _ mem
      · rw [left, Request.leftover_without first, List.nil_append]

theorem fits_of_reads {requests : List Request} {io : LineIo} (bytewise : io.Bytewise)
    (eq : io.pending = requests.flatMap Request.encode)
    (h : Reads io (requests.map Request.command)) :
    (∀ r ∈ requests, r.Fits) ∧ ∀ r ∈ requests.dropLast, r.literal = none := by
  induction requests generalizing io with
  | nil => simp
  | cons r rest ih =>
    rw [List.flatMap_cons] at eq
    obtain ⟨io', read, later⟩ := h
    have fits := Request.fits_of_readCommand bytewise eq read
    obtain ⟨io'', read', left, single⟩ := fits.readCommand eq
    rw [read] at read'
    cases read'
    cases rest with
    | nil => exact ⟨by simpa using fits, by simp⟩
    | cons next rest =>
      have first : r.literal = none := by
        by_contra carried
        rw [Request.leftover_with (Option.isSome_iff_ne_none.mpr carried)] at left
        obtain ⟨last, ended⟩ := readCommand_empty left
        obtain ⟨_, more, -⟩ := later
        rw [ended] at more
        cases more
      rw [Request.leftover_without first, List.nil_append] at left
      obtain ⟨all, plain⟩ := ih (single bytewise) left later
      refine ⟨fun r' mem => ?_, fun r' mem => ?_⟩
      · rcases List.mem_cons.mp mem with rfl | mem
        · exact fits
        · exact all r' mem
      · rw [List.dropLast_cons_of_ne_nil (by simp)] at mem
        rcases List.mem_cons.mp mem with rfl | mem
        · exact first
        · exact plain r' mem

/-- A stream of commands is read back as it was written, however its bytes come in, if and only if
every command fits and only the last one has a literal. -/
theorem commands_read_back_iff (requests : List Request) :
    (∀ io : LineIo, io.pending = requests.flatMap Request.encode →
      Reads io (requests.map Request.command)) ↔
      (∀ r ∈ requests, r.Fits) ∧ ∀ r ∈ requests.dropLast, r.literal = none := by
  constructor
  · intro h
    exact fits_of_reads (LineIo.bytewise_bytewise _) (LineIo.pending_bytewise _)
      (h _ (LineIo.pending_bytewise _))
  · rintro ⟨fits, plain⟩ io eq
    exact reads_of_fits fits plain eq

/-- A script and a command after it. -/
def pipelined : List Request :=
  [{ name := "putscript", args := ["a"], literal := some [107, 59],
     letters := ⟨by decide, List.all_eq_true.mp (by decide)⟩
     quotable := by simp; decide },
    { name := "noop", args := [], literal := none
      letters := ⟨by decide, List.all_eq_true.mp (by decide)⟩, quotable := by simp }]

def pipelinedIo : LineIo :=
  { buffer := []
    reads := [⟨bytes "putscript \"a\" \x7b2+\x7d\r\nk;\r\nnoop\r\n", by decide, by decide⟩] }

/-- The line end after the literal is taken for the end of the stream. -/
theorem command_after_literal_lost :
    pipelinedIo.pending = pipelined.flatMap Request.encode ∧
      (readCommand (readCommand pipelinedIo).2).1 = .ok none ∧
      ¬Reads pipelinedIo (pipelined.map Request.command) := by
  have ended : (readCommand (readCommand pipelinedIo).2).1 = .ok none := by decide +kernel
  refine ⟨by decide +kernel, ended, ?_⟩
  rintro ⟨io, first, io', second, -⟩
  rw [first] at ended
  rw [second] at ended
  cases ended

end MailStack.ManageSieve
