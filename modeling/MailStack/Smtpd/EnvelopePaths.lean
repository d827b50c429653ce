import MailStack.Lib.Utf8
import MailStack.Lmtp.Client
import MailStack.Smtpd.Command
import MailStack.Smtp.Client

/-! Envelope paths from hop to hop: whether the line that a client builds for an accepted address is
read as the same address. -/

namespace MailStack.Smtpd

open Lib

inductive Envelope
  | mail
  | rcpt
deriving DecidableEq

namespace Envelope

def verb : Envelope → String
  | mail => "MAIL"
  | rcpt => "RCPT"

def keyword : Envelope → String
  | mail => "FROM:"
  | rcpt => "TO:"

def allowNull : Envelope → Bool
  | mail => true
  | rcpt => false

def line : Envelope → String → String
  | mail, address => "MAIL FROM:<" ++ address ++ ">"
  | rcpt, address => "RCPT TO:<" ++ address ++ ">"

end Envelope

def commandPath : Except CommandError Command → Option (Envelope × String)
  | .ok (.mail sender _) => some (.mail, sender)
  | .ok (.rcpt recipient) => some (.rcpt, recipient)
  | _ => none

def acceptedPath (line : List UInt8) : Option (Envelope × String) := commandPath (parse line)

def pathText (input : String) : Option String :=
  match input.toList with
  | '<' :: rest => (splitOnceChars '>' rest).map fun parts => String.ofList parts.1
  | _ => none

/-- The path of the line as it is written, for a command with a path. -/
def linePath (line : List UInt8) : Option (Envelope × String) := do
  let text ← fromUtf8 line
  let (verb, rest) ← splitOnce ' ' text
  let envelope ← match toAsciiUppercase verb with
    | "MAIL" => some Envelope.mail
    | "RCPT" => some Envelope.rcpt
    | _ => none
  let chars := (trimStart (trimStart rest)).toList
  let path ← pathText (trimStart (String.ofList (chars.drop envelope.keyword.length)))
  return (envelope, path)

/-- What is read at the end of some further hops, each of which builds its line for the address that
the hop before has read. -/
def relayedPath : Nat → List UInt8 → Option (Envelope × String)
  | 0, line => acceptedPath line
  | hops + 1, line => do
    let (envelope, address) ← acceptedPath line
    relayedPath hops (bytes (envelope.line address))

/-- A text that begins with a source route and has something after it. -/
def HasRoute (text : String) : Prop :=
  ∃ route rest : String, text = "@" ++ route ++ ":" ++ rest ∧ ':' ∉ route.toList

/-- A path with a source route before another one. -/
def SecondRoute (path : String) : Prop :=
  ∃ route rest : String, path = "@" ++ route ++ ":" ++ rest ∧ ':' ∉ route.toList ∧ HasRoute rest

/-- What `normalise_path` goes on with: the text after the source route. -/
def stripRoute (inner : String) : String :=
  match splitOnce ':' inner with
  | some (route, address) => if route.toList.head? = some '@' then address else inner
  | none => inner

variable {inner address a : String} {allowNull : Bool}

theorem hasRoute_iff {text : String} :
    HasRoute text ↔ text.toList.head? = some '@' ∧ ':' ∈ text.toList := by
  constructor
  · rintro ⟨route, rest, rfl, _⟩
    simp
  · rintro ⟨first, mem⟩
    obtain ⟨cs, begins⟩ : ∃ cs, text.toList = '@' :: cs := by
      cases eq : text.toList with
      | nil => rw [eq] at first; cases first
      | cons c cs => rw [eq] at first; cases first; exact ⟨cs, rfl⟩
    rw [begins] at mem
    have inside : ':' ∈ cs := by
      rcases List.mem_cons.mp mem with eq | inside
      · exact absurd eq (by decide)
      · exact inside
    obtain ⟨route, rest, parts, absent⟩ := List.eq_append_cons_of_mem inside
    refine ⟨String.ofList route, String.ofList rest, ?_, by simpa using absent⟩
    rw [← String.toList_inj, begins, parts]
    simp

theorem stripRoute_route {route rest : String} (absent : ':' ∉ route.toList) :
    stripRoute ("@" ++ route ++ ":" ++ rest) = rest := by
  have parts : splitOnce ':' ("@" ++ route ++ ":" ++ rest) = some ("@" ++ route, rest) :=
    splitOnce_append (by simpa using absent) rest
  simp [stripRoute, parts]

theorem stripRoute_of_not (none : ¬ HasRoute inner) : stripRoute inner = inner := by
  unfold stripRoute
  split
  · rename_i route address parts
    obtain ⟨text, absent⟩ := splitOnce_eq_some parts
    refine if_neg fun first => none (hasRoute_iff.mpr ⟨?_, by rw [text]; simp⟩)
    rw [text, List.head?_append, first]
    rfl
  · rfl

theorem hasRoute_stripRoute_iff : HasRoute (stripRoute inner) ↔ SecondRoute inner := by
  constructor
  · intro second
    by_cases first : HasRoute inner
    · obtain ⟨route, rest, rfl, absent⟩ := first
      rw [stripRoute_route absent] at second
      exact ⟨route, rest, rfl, absent, second⟩
    · rw [stripRoute_of_not first] at second
      exact absurd second first
  · rintro ⟨route, rest, rfl, absent, second⟩
    rwa [stripRoute_route absent]

theorem stripRoute_shorter (route : HasRoute inner) :
    (stripRoute inner).toList.length < inner.toList.length := by
  obtain ⟨route, rest, rfl, absent⟩ := route
  rw [stripRoute_route absent]
  simp
  omega

/-- `a` is what is made of an address without a source route. -/
structure Addressed (address a : String) : Prop where
  nonempty : address ≠ ""
  length : (bytes address).length ≤ maxPathLen
  visible : ∀ c ∈ address.toList, isControl c = false ∧ isWhitespace c = false
  made : eqIgnoreAsciiCase address "postmaster" = true ∧ a = "postmaster" ∨
    eqIgnoreAsciiCase address "postmaster" = false ∧ ∃ mailbox domain,
      rsplitOnce '@' address = some (mailbox, domain) ∧ mailbox ≠ "" ∧ domain ≠ "" ∧
        a = mailbox ++ "@" ++ toAsciiLowercase domain

variable {s : String}

theorem isEmpty_eq_false : s.isEmpty = false ↔ s ≠ "" := by
  rw [← Bool.not_eq_true, String.isEmpty_iff]

theorem normalisePath_ok_iff (nonempty : inner ≠ "") : normalisePath inner allowNull = .ok a ↔
    (bytes inner).length ≤ maxPathLen ∧ Addressed (stripRoute inner) a := by
  unfold normalisePath
  rw [isEmpty_eq_false.mpr nonempty, if_neg Bool.false_ne_true]
  extract_lets address
  rw [← show address = stripRoute inner from rfl]
  clear_value address
  constructor
  · intro ok
    split at ok
    · cases ok
    split at ok
    · cases ok
    split at ok
    · cases ok
    rename_i short bounds visible
    simp only [Bool.or_eq_true, decide_eq_true_eq, not_or, Bool.not_eq_true, isEmpty_eq_false,
      not_lt] at bounds
    have shown : ∀ c ∈ address.toList, isControl c = false ∧ isWhitespace c = false := by
      simpa [List.any_eq_true, not_or] using visible
    refine ⟨by omega, bounds.1, bounds.2, shown, ?_⟩
    split at ok
    case isTrue postmaster =>
      cases ok
      exact Or.inl ⟨postmaster, rfl⟩
    case isFalse other =>
      refine Or.inr ⟨Bool.eq_false_iff.mpr other, ?_⟩
      split at ok
      · cases ok
      · rename_i mailbox domain parts
        split at ok
        · cases ok
        · rename_i full
          cases ok
          simp only [Bool.or_eq_true, not_or, Bool.not_eq_true, isEmpty_eq_false] at full
          exact ⟨mailbox, domain, parts, full.1, full.2, rfl⟩
  · rintro ⟨short, full, length, visible, made⟩
    have shown : (address.toList.any fun c => isControl c || isWhitespace c) = false := by
      simpa [List.any_eq_false] using visible
    rw [if_neg (by omega), if_neg (by simp [full, length]), if_neg (by simp [shown])]
    rcases made with ⟨postmaster, rfl⟩ | ⟨other, mailbox, domain, parts, box, dom, rfl⟩
    · rw [if_pos postmaster]
    · rw [if_neg (by simp [other]), parts]
      simp [box, dom]

theorem hasRoute_congr {s t : String} (same : toAsciiLowercase s = toAsciiLowercase t) :
    HasRoute s ↔ HasRoute t := by
  have lower : ∀ s : String, HasRoute (toAsciiLowercase s) ↔ HasRoute s := by
    intro s
    have sign : ∀ c : Char, c.toLower = '@' ↔ c = '@' :=
      fun c => ⟨eq_of_toLower_eq (by decide), by rintro rfl; rfl⟩
    have colon : ∀ c : Char, c.toLower = ':' ↔ c = ':' :=
      fun c => ⟨eq_of_toLower_eq (by decide), by rintro rfl; rfl⟩
    simp [hasRoute_iff, sign, colon]
  rw [← lower s, same, lower t]

theorem length_bytes_toAsciiLowercase (s : String) :
    (bytes (toAsciiLowercase s)).length = (bytes s).length := by
  simp only [toAsciiLowercase, bytes, String.toList_ofList, List.length_flatMap, List.map_map,
    Function.comp_def, length_utf8EncodeChar_toLower]

theorem length_toAsciiLowercase (s : String) :
    (toAsciiLowercase s).toList.length = s.toList.length := by
  simp

theorem forall_mem_toAsciiLowercase {p : Char → Prop} (keeps : ∀ c : Char, p c.toLower ↔ p c) :
    (∀ c ∈ (toAsciiLowercase s).toList, p c) ↔ ∀ c ∈ s.toList, p c := by
  simp [keeps]

namespace Addressed

theorem lower (h : Addressed address a) : toAsciiLowercase a = toAsciiLowercase address := by
  rcases h.made with ⟨postmaster, rfl⟩ | ⟨_, mailbox, domain, parts, _, _, rfl⟩
  · exact (beq_iff_eq.mp postmaster).symm
  · rw [← String.toList_inj]
    simp [(rsplitOnce_eq_some parts).1, Function.comp_def, toLower_toLower]

theorem postmaster : Addressed "postmaster" "postmaster" where
  nonempty := by decide
  length := by decide
  visible := by decide
  made := Or.inl ⟨by decide, rfl⟩

theorem again (h : Addressed address a) : Addressed a a := by
  have same := h.lower
  rcases h.made with ⟨_, rfl⟩ | ⟨other, mailbox, domain, parts, box, dom, made⟩
  · exact postmaster
  · refine ⟨?_, ?_, ?_, Or.inr ⟨?_, mailbox, toAsciiLowercase domain, ?_, box, ?_, ?_⟩⟩
    · rw [made]
      intro empty
      simpa using congrArg String.toList empty
    · rw [← length_bytes_toAsciiLowercase, same, length_bytes_toAsciiLowercase]
      exact h.length
    · have keeps : ∀ c : Char, (isControl c.toLower = false ∧ isWhitespace c.toLower = false) ↔
          (isControl c = false ∧ isWhitespace c = false) := by
        intro c
        rw [isControl_toLower, isWhitespace_toLower]
      rw [← forall_mem_toAsciiLowercase keeps, same, forall_mem_toAsciiLowercase keeps]
      exact h.visible
    · rw [eqIgnoreAsciiCase, same]
      exact other
    · have absent : '@' ∉ (toAsciiLowercase domain).toList := by
        intro mem
        obtain ⟨c, inside, eq⟩ := List.mem_map.mp (toList_toAsciiLowercase domain ▸ mem)
        exact (rsplitOnce_eq_some parts).2 (eq_of_toLower_eq (by decide) eq ▸ inside)
      rw [made]
      exact rsplitOnce_append mailbox absent
    · intro empty
      refine dom (String.toList_inj.mp ?_)
      simpa using congrArg String.toList empty
    · rw [made, toAsciiLowercase_toAsciiLowercase]

theorem normalisePath_iff (h : Addressed address a) :
    normalisePath a allowNull = .ok a ↔ ¬ HasRoute address := by
  have self := h.again
  rw [normalisePath_ok_iff self.nonempty, ← hasRoute_congr h.lower]
  constructor
  · rintro ⟨_, stripped⟩ route
    have shorter := stripRoute_shorter route
    rw [← length_toAsciiLowercase, ← stripped.lower, length_toAsciiLowercase] at shorter
    exact Nat.lt_irrefl _ shorter
  · intro none
    rw [stripRoute_of_not none]
    exact ⟨self.length, self⟩

end Addressed

variable {line : List UInt8} {envelope : Envelope} {path : String}

theorem parsePrefixedPath_spec {rest keyword tail : String}
    (ok : parsePrefixedPath rest keyword allowNull = .ok (a, tail)) : ∃ path,
      pathText (trimStart (String.ofList ((trimStart rest).toList.drop keyword.length))) =
          some path ∧ '>' ∉ path.toList ∧ normalisePath path allowNull = .ok a := by
  simp only [parsePrefixedPath] at ok
  split at ok
  case isFalse => cases ok
  revert ok
  generalize trimStart (String.ofList ((trimStart rest).toList.drop keyword.length)) = input
  intro ok
  unfold parsePath at ok
  split at ok
  case h_2 => cases ok
  rename_i inside begins
  have text : pathText input =
      (splitOnceChars '>' inside).map fun parts => String.ofList parts.1 := by
    simp only [pathText, begins]
  rw [text]
  cases parts : splitOnceChars '>' inside with
  | none =>
    rw [parts] at ok
    cases ok
  | some halves =>
    obtain ⟨inner, after⟩ := halves
    cases made : normalisePath (String.ofList inner) allowNull with
    | error e => simp [parts, made, Except.map] at ok
    | ok address =>
      simp only [parts, made, Except.map] at ok
      cases ok
      have absent := (splitOnceChars_eq_some parts).2
      exact ⟨String.ofList inner, by simp, by simpa using absent, made⟩

theorem commandPath_map_none {α : Type} {x : Except CommandError α} {f : α → Command}
    (other : ∀ y, commandPath (.ok (f y)) = none) : commandPath (x.map f) = none := by
  cases x with
  | error e => rfl
  | ok y => exact other y

theorem parseVerb_path {verb rest : String}
    (h : commandPath (parseVerb verb rest) = some (envelope, a)) :
    verb = envelope.verb ∧ ∃ tail,
      parsePrefixedPath rest envelope.keyword envelope.allowNull = .ok (a, tail) := by
  unfold parseVerb at h
  split at h
  -- MAIL and RCPT are the commands with a path
  case h_3 =>
    cases parsed : parsePrefixedPath rest "FROM:" true with
    | error e => simp [parsed, Except.map, commandPath] at h
    | ok found =>
      rw [parsed] at h
      cases h
      exact ⟨rfl, found.2, parsed⟩
  case h_4 =>
    cases parsed : parsePrefixedPath rest "TO:" false with
    | error e => simp [parsed, Except.map, commandPath] at h
    | ok found =>
      rw [parsed] at h
      cases h
      exact ⟨rfl, found.2, parsed⟩
  case h_12 =>
    have never : ∀ rest, commandPath (parseAuth rest) = none := by
      intro rest
      simp only [parseAuth]
      split <;> (split <;> rfl)
    rw [never] at h
    cases h
  all_goals first
    | cases h
    | rw [commandPath_map_none fun _ => rfl] at h; cases h

theorem toAsciiUppercase_verb (envelope : Envelope) :
    toAsciiUppercase envelope.verb = envelope.verb := by
  cases envelope <;> decide

theorem acceptedPath_spec (accepted : acceptedPath line = some (envelope, a)) :
    ∃ path, linePath line = some (envelope, path) ∧ '>' ∉ path.toList ∧
      normalisePath path envelope.allowNull = .ok a := by
  unfold acceptedPath parse at accepted
  split at accepted
  · cases accepted
  split at accepted
  · cases accepted
  split at accepted
  · cases accepted
  rename_i text decoded
  split at accepted
  case h_2 =>
    obtain ⟨_, tail, parsed⟩ := parseVerb_path accepted
    have refused : parsePrefixedPath "" envelope.keyword envelope.allowNull =
        .error .syntaxError := by
      cases envelope <;> decide
    rw [refused] at parsed
    cases parsed
  rename_i verb rest parts
  obtain ⟨isVerb, tail, parsed⟩ := parseVerb_path accepted
  obtain ⟨path, read, absent, made⟩ := parsePrefixedPath_spec parsed
  refine ⟨path, ?_, absent, made⟩
  cases envelope with
  | mail => simp [linePath, decoded, parts, isVerb, Envelope.verb, read]
  | rcpt => simp [linePath, decoded, parts, isVerb, Envelope.verb, read]

theorem trimStart_eq_self {c : Char} {cs : List Char} (begins : s.toList = c :: cs)
    (visible : isWhitespace c = false) : trimStart s = s := by
  rw [trimStart, begins, List.dropWhile_cons_of_neg (by simp [visible]), ← begins,
    String.ofList_toList]

def Envelope.argument (envelope : Envelope) (address : String) : String :=
  envelope.keyword ++ "<" ++ address ++ ">"

theorem Envelope.trimStart_argument (envelope : Envelope) (a : String) :
    trimStart (envelope.argument a) = envelope.argument a := by
  cases envelope with
  | mail => exact trimStart_eq_self (by simp [argument, keyword]; exact ⟨rfl, rfl⟩) (by decide)
  | rcpt => exact trimStart_eq_self (by simp [argument, keyword]; exact ⟨rfl, rfl⟩) (by decide)

theorem parsePrefixedPath_argument (absent : '>' ∉ a.toList) :
    parsePrefixedPath (envelope.argument a) envelope.keyword allowNull =
      (normalisePath a allowNull).map fun path => (path, "") := by
  have chars : (envelope.argument a).toList =
      envelope.keyword.toList ++ '<' :: (a.toList ++ ['>']) := by
    simp [Envelope.argument]
  have taken : (envelope.argument a).toList.take envelope.keyword.length =
      envelope.keyword.toList := by
    rw [chars, ← String.length_toList, List.take_left]
  have dropped : (envelope.argument a).toList.drop envelope.keyword.length =
      '<' :: (a.toList ++ ['>']) := by
    rw [chars, ← String.length_toList, List.drop_left]
  have path : trimStart (String.ofList ('<' :: (a.toList ++ ['>']))) =
      String.ofList ('<' :: (a.toList ++ ['>'])) :=
    trimStart_eq_self String.toList_ofList (by decide)
  have same : eqIgnoreAsciiCase envelope.keyword envelope.keyword = true := beq_self_eq_true _
  simp only [parsePrefixedPath, Envelope.trimStart_argument, taken, dropped, path,
    String.ofList_toList, same, if_true, parsePath, String.toList_ofList,
    splitOnceChars_append absent]

theorem line_eq (envelope : Envelope) (a : String) :
    envelope.line a = envelope.verb ++ " " ++ envelope.keyword ++ "<" ++ a ++ ">" := by
  cases envelope with
  | mail =>
    have command : "MAIL FROM:<" = "MAIL" ++ " " ++ "FROM:" ++ "<" := by decide
    exact congrArg (· ++ a ++ ">") command
  | rcpt =>
    have command : "RCPT TO:<" = "RCPT" ++ " " ++ "TO:" ++ "<" := by decide
    exact congrArg (· ++ a ++ ">") command

theorem bytes_line (envelope : Envelope) (a : String) : bytes (envelope.line a) =
    bytes (envelope.verb ++ " " ++ envelope.keyword ++ "<") ++ bytes a ++ bytes ">" := by
  rw [line_eq, bytes_append, bytes_append]

theorem any_control_bytes (visible : ∀ c ∈ a.toList, isControl c = false) :
    ((bytes a).any fun b => b < 0x20 || b == 0x7f) = false := by
  rw [List.any_eq_false]
  intro byte mem control
  obtain ⟨c, inside, part⟩ := List.mem_flatMap.mp mem
  have small : byte.toNat < 0x20 ∨ byte.toNat = 0x7f := by
    simpa [UInt8.lt_iff_toNat_lt, ← UInt8.toNat_inj] using control
  obtain ⟨code, _⟩ := ascii_mem_utf8EncodeChar part (by omega)
  have own : c.toNat = c.val.toNat := rfl
  have hidden : isControl c = true := (isControl_iff c).mpr (by omega)
  rw [visible c inside] at hidden
  cases hidden

theorem acceptedPath_line (short : (bytes a).length ≤ maxPathLen)
    (visible : ∀ c ∈ a.toList, isControl c = false) (absent : '>' ∉ a.toList) :
    acceptedPath (bytes (envelope.line a)) = some (envelope, a) ↔
      normalisePath a envelope.allowNull = .ok a := by
  have length : ¬ (bytes (envelope.line a)).length > maxCommandLine := by
    have command : (bytes (envelope.verb ++ " " ++ envelope.keyword ++ "<")).length ≤ 11 := by
      cases envelope <;> decide
    have bracket : (bytes ">").length = 1 := by decide
    simp only [bytes_line, List.length_append, maxPathLen, maxCommandLine] at short ⊢
    omega
  have shown : ((bytes (envelope.line a)).any fun b => b < 0x20 || b == 0x7f) = false := by
    have command : ((bytes (envelope.verb ++ " " ++ envelope.keyword ++ "<")).any
        fun b => b < 0x20 || b == 0x7f) = false := by
      cases envelope <;> decide
    rw [bytes_line, List.any_append, List.any_append, command, any_control_bytes visible]
    decide
  have parts : splitOnce ' ' (envelope.line a) = some (envelope.verb, envelope.argument a) := by
    have text : envelope.line a =
        envelope.verb ++ String.singleton ' ' ++ envelope.argument a := by
      simp [← String.toList_inj, line_eq, Envelope.argument]
    rw [text]
    exact splitOnce_append (by cases envelope <;> decide) _
  have parsed : acceptedPath (bytes (envelope.line a)) =
      commandPath (parseVerb envelope.verb (envelope.argument a)) := by
    rw [acceptedPath, parse, if_neg length, if_neg (by rw [shown]; decide), fromUtf8_bytes]
    simp only [parts, toAsciiUppercase_verb, Envelope.trimStart_argument]
  rw [parsed]
  constructor
  · intro read
    obtain ⟨_, tail, path⟩ := parseVerb_path read
    rw [parsePrefixedPath_argument absent] at path
    cases made : normalisePath a envelope.allowNull with
    | error e => simp [made, Except.map] at path
    | ok b =>
      simp only [made, Except.map, Except.ok.injEq, Prod.mk.injEq] at path
      rw [path.1]
  · intro made
    have path : parsePrefixedPath (envelope.argument a) envelope.keyword envelope.allowNull = _ :=
      parsePrefixedPath_argument absent
    rw [made] at path
    cases envelope with
    | mail =>
      have read : parsePrefixedPath (Envelope.mail.argument a) "FROM:" true = .ok (a, "") := path
      simp [Envelope.verb, parseVerb, read, Except.map, commandPath]
    | rcpt =>
      have read : parsePrefixedPath (Envelope.rcpt.argument a) "TO:" false = .ok (a, "") := path
      simp [Envelope.verb, parseVerb, read, Except.map, commandPath]

theorem mem_of_mem_stripRoute {c : Char} (mem : c ∈ (stripRoute inner).toList) :
    c ∈ inner.toList := by
  by_cases first : HasRoute inner
  · obtain ⟨route, rest, rfl, absent⟩ := first
    rw [stripRoute_route absent] at mem
    simp [mem]
  · rwa [stripRoute_of_not first] at mem

theorem Addressed.not_mem (h : Addressed (stripRoute path) a) {d : Char}
    (other : ¬(d.val ≥ 'a'.val ∧ d.val ≤ 'z'.val)) (same : d.toLower = d)
    (absent : d ∉ path.toList) :
    d ∉ a.toList := by
  intro mem
  have lowered : d ∈ (toAsciiLowercase a).toList :=
    toList_toAsciiLowercase a ▸ same ▸ List.mem_map_of_mem mem
  rw [h.lower, toList_toAsciiLowercase] at lowered
  obtain ⟨c, inside, eq⟩ := List.mem_map.mp lowered
  exact absent (mem_of_mem_stripRoute (eq_of_toLower_eq other eq ▸ inside))

/-- The next hop reads the address exactly where the path has no second source route. -/
theorem next_hop (accepted : acceptedPath line = some (envelope, a)) :
    (∀ c ∈ a.toList, isControl c = false) ∧
      (acceptedPath (bytes (envelope.line a)) = some (envelope, a) ↔
        ¬∃ path, linePath line = some (envelope, path) ∧ SecondRoute path) := by
  obtain ⟨path, read, absent, made⟩ := acceptedPath_spec accepted
  have second : (¬∃ path, linePath line = some (envelope, path) ∧ SecondRoute path) ↔
      ¬ SecondRoute path := by
    simp [read]
  rw [second]
  by_cases null : path = ""
  · -- the null path has no address
    subst null
    have isNull : a = "" ∧ envelope.allowNull = true := by
      rw [normalisePath, if_pos (by decide)] at made
      split at made
      · cases made
        exact ⟨rfl, ‹_›⟩
      · cases made
    obtain ⟨rfl, allowed⟩ := isNull
    refine ⟨by simp, ?_⟩
    rw [acceptedPath_line (by decide) (by simp) (by simp)]
    refine iff_of_true made ?_
    rintro ⟨route, rest, empty, _⟩
    simpa using congrArg String.toList empty
  · obtain ⟨_, addressed⟩ := (normalisePath_ok_iff null).mp made
    have self := addressed.again
    have visible : ∀ c ∈ a.toList, isControl c = false := fun c mem => (self.visible c mem).1
    refine ⟨visible, ?_⟩
    rw [acceptedPath_line self.length visible (addressed.not_mem (by decide) (by decide) absent),
      addressed.normalisePath_iff, hasRoute_stripRoute_iff]

theorem relayedPath_fixed (fixed : acceptedPath (bytes (envelope.line a)) = some (envelope, a)) :
    ∀ hops, relayedPath hops (bytes (envelope.line a)) = some (envelope, a) := by
  intro hops
  induction hops with
  | zero => exact fixed
  | succ hops ih => rw [relayedPath, fixed]; exact ih

/-- Of an accepted line the clients take the address, and every later hop reads this address from
their lines exactly where the path is not a source route before another source route. -/
theorem envelope_paths_stable (accepted : acceptedPath line = some (envelope, a)) :
    Smtp.checkedAddr a = .ok a ∧ a.toList.any Lmtp.isForbidden = false ∧
      ((∀ hops, relayedPath hops line = some (envelope, a)) ↔
        ¬∃ path, linePath line = some (envelope, path) ∧ SecondRoute path) := by
  obtain ⟨visible, next⟩ := next_hop accepted
  have clean : a.toList.any Lmtp.isForbidden = false := by
    rw [List.any_eq_false]
    intro c mem forbidden
    have control : isControl c = true := by
      simp only [Lmtp.isForbidden, Bool.or_eq_true, decide_eq_true_eq] at forbidden
      rcases forbidden with (rfl | rfl) | rfl <;> decide
    rw [visible c mem] at control
    cases control
  refine ⟨if_neg (by simpa [Lmtp.isForbidden] using clean), clean, ?_⟩
  rw [← next]
  constructor
  · intro stable
    have second := stable 1
    rw [relayedPath, accepted] at second
    exact second
  · intro fixed hops
    cases hops with
    | zero => exact accepted
    | succ hops =>
      rw [relayedPath, accepted]
      exact relayedPath_fixed fixed hops

theorem envelope_paths_stable_route :
    acceptedPath (bytes "MAIL FROM:<@a,@b:u@EXAMPLE.org> SIZE=7") = some (.mail, "u@example.org") ∧
      ((∀ hops, relayedPath hops (bytes "MAIL FROM:<@a,@b:u@EXAMPLE.org> SIZE=7") =
          some (.mail, "u@example.org")) ↔
        ¬∃ path, linePath (bytes "MAIL FROM:<@a,@b:u@EXAMPLE.org> SIZE=7") = some (.mail, path) ∧
          SecondRoute path) := by
  have accepted : acceptedPath (bytes "MAIL FROM:<@a,@b:u@EXAMPLE.org> SIZE=7") =
      some (.mail, "u@example.org") := by
    decide +kernel
  exact ⟨accepted, (envelope_paths_stable accepted).2.2⟩

/-- The second of two source routes is taken from the address at the next hop. -/
theorem second_route_lost :
    acceptedPath (bytes "RCPT TO:<@a:@b:c@d>") = some (.rcpt, "@b:c@d") ∧
      acceptedPath (bytes (Envelope.rcpt.line "@b:c@d")) = some (.rcpt, "c@d") := by
  decide +kernel

end MailStack.Smtpd
