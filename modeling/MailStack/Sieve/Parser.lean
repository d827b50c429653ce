import MailStack.Lib.Parse
import MailStack.Maildir.Folder

/-! The tokens of a Sieve script. The lexer looks at the bytes of the script one by one, but acts
only on ASCII characters, so it is modelled on the characters. -/

namespace MailStack.Sieve

open Lib Maildir

inductive Token
  | ident (name : String)
  | number (value : Nat)
  | str (value : String)
  | tag (name : String)
  | lBracket
  | rBracket
  | lParen
  | rParen
  | lBrace
  | rBrace
  | comma
  | semicolon
deriving DecidableEq

/-- What the model of a loop would say if it stopped too early. -/
def stuck : MailError := .invalid "the loop does not end"

abbrev Lex (α : Type) := Parse Char MailError α

namespace Lexer

def isIdentifier (c : Char) : Bool := c.isAlphanum || c = '_'

def identifier : Lex String := fun input =>
  if (input.takeWhile isIdentifier).isEmpty then
    .error (.invalid "expected an identifier in Sieve script")
  else .ok (String.ofList (input.takeWhile isIdentifier), input.dropWhile isIdentifier)

def number : Lex Nat := fun input =>
  match parseUnsigned u64Max (String.ofList (input.takeWhile Char.isDigit)) with
  | some value => .ok (value, input.dropWhile Char.isDigit)
  | none => .error (.invalid "invalid number in Sieve script")

/-- What follows an opening quote, with the characters before. -/
def string (out : List Char) : Lex String
  | [] => .error (.invalid "unterminated string in Sieve script")
  | '"' :: rest => .ok (String.ofList out, rest)
  | ['\\'] => .error (.invalid "unterminated escape in Sieve script")
  | '\\' :: escaped :: rest =>
    if escaped = '"' || escaped = '\\' then string (out ++ [escaped]) rest
    else .error (.invalid "invalid escape in Sieve string")
  | other :: rest => string (out ++ [other]) rest

def punctuation : Char → Option Token
  | '[' => some .lBracket
  | ']' => some .rBracket
  | '(' => some .lParen
  | ')' => some .rParen
  | '\x7b' => some .lBrace
  | '\x7d' => some .rBrace
  | ',' => some .comma
  | ';' => some .semicolon
  | _ => none

/-- The next token, or none for a blank or a comment. -/
def lexToken : Lex (Option Token)
  | [] => .ok (none, [])
  | c :: rest =>
    if c = ' ' || c = '\t' || c = '\r' || c = '\n' then .ok (none, rest)
    else if c = '#' then .ok (none, rest.dropWhile (· ≠ '\n'))
    else if c = '"' then (some <$> .str <$> string []) rest
    else
      match punctuation c with
      | some token => .ok (some token, rest)
      | none =>
        if c = ':' then (some <$> .tag <$> identifier) rest
        else if c.isDigit then (some <$> .number <$> number) (c :: rest)
        else if c.isAlpha || c = '_' then (some <$> .ident <$> identifier) (c :: rest)
        else .error (.invalid "unexpected character in Sieve script")

/-- The body of the loop: it ends with the input. -/
def lexStep (tokens : List Token) : Lex (List Token ⊕ List Token)
  | [] => .ok (.inr tokens, [])
  | c :: rest => ((fun token => .inl (tokens ++ token.toList)) <$> lexToken) (c :: rest)

def tokenize (source : String) : Except MailError (List Token) :=
  (Parse.loop lexStep stuck [] source.toList).map Prod.fst

example : tokenize "if size :over 10 \x7b keep; \x7d # all" =
    .ok [.ident "if", .ident "size", .tag "over", .number 10, .lBrace, .ident "keep", .semicolon,
      .rBrace] := by decide +kernel

end Lexer

end MailStack.Sieve

/-! The syntax of Sieve scripts and their parser. -/

namespace MailStack.Sieve

open Lib Maildir

def maxParseDepth : Nat := 128

inductive MatchType
  | is
  | contains
  | matches

inductive AddressPart
  | all
  | localPart
  | domain

inductive Test
  | true
  | false
  | not (inner : Test)
  | allOf (tests : List Test)
  | anyOf (tests : List Test)
  | exist (names : List String)
  | header (matchType : MatchType) (header key : String)
  | address (matchType : MatchType) (part : AddressPart) (header key : String)
  | size (larger : Bool) (limit : Nat)
  | body (matchType : MatchType) (text : Bool) (key : String)

inductive Command
  | require (list : List String)
  | ifElse (branches : List (Test × List Command)) (otherwise : Option (List Command))
  | keep
  | discard
  | stop
  | fileInto (folder : String) (create : Bool)
  | reject (reason : String)
  | redirect (address : String)
  | vacation (days : Nat) (subject : Option String) (body : String)

abbrev Parser (α : Type) := Parse Token MailError α

namespace Parser

def invalid {α : Type} (message : String) : Parser α := Parse.fail (.invalid message)

def expect (expected : Token) : Parser Unit := do
  match ← Parse.next with
  | some token =>
    if token = expected then pure () else invalid "unexpected token in Sieve script"
  | none => invalid "unexpected token in Sieve script"

def string : Parser String := do
  match ← Parse.next with
  | some (.str value) => pure value
  | _ => invalid "expected a string in Sieve script"

/-- The body of the loop of a list in brackets, where a comma may stand before the last bracket. -/
def stringListStep (items : List String) : Parser (List String ⊕ List String) := do
  match ← Parse.next with
  | some .rBracket => pure (.inr items)
  | some (.str item) =>
    match ← Parse.next with
    | some .comma => pure (.inl (items ++ [item]))
    | some .rBracket => pure (.inr (items ++ [item]))
    | _ => invalid "expected ',' or ']'"
  | _ => invalid "expected a string list"

def stringList : Parser (List String) := do
  match ← Parse.next with
  | some (.str value) => pure [value]
  | some .lBracket => Parse.loop stringListStep stuck []
  | _ => invalid "expected a string or string list"

def tagName : Token → Option String
  | .tag name => some (toAsciiLowercase name)
  | _ => none

/-- The body of the loop over tags. -/
def tagStep {α : Type} (tag : String → α → Parser α) (a : α) : Parser (α ⊕ α) := do
  match ← Parse.nextIf tagName with
  | some name => .inl <$> tag name a
  | none => pure (.inr a)

/-- The tags that stand here, each with its effect on the options. -/
def tags {α : Type} (tag : String → α → Parser α) (start : α) : Parser α :=
  Parse.loop (tagStep tag) stuck start

def fileIntoTag : String → Bool → Parser Bool
  | "create", _ => pure true
  | other, _ => invalid ("unsupported fileinto tag: :" ++ other)

/-- The number of days is cut to 32 bits. -/
def vacationTag : String → Nat × Option String → Parser (Nat × Option String)
  | "days", (_, subject) => do
    match ← Parse.next with
    | some (.number value) => pure (value % 2 ^ 32, subject)
    | _ => invalid "vacation :days requires a number"
  | "subject", (days, _) => do
    let subject ← string
    pure (days, some subject)
  | other, _ => invalid ("unsupported vacation tag: :" ++ other)

def matchTag : String → MatchType → Parser MatchType
  | "is", _ => pure .is
  | "contains", _ => pure .contains
  | "matches", _ => pure .matches
  | other, _ => invalid ("unsupported match tag: :" ++ other)

def addressTag : String → MatchType × AddressPart → Parser (MatchType × AddressPart)
  | "is", (_, part) => pure (.is, part)
  | "contains", (_, part) => pure (.contains, part)
  | "matches", (_, part) => pure (.matches, part)
  | "all", (kind, _) => pure (kind, .all)
  | "localpart", (kind, _) => pure (kind, .localPart)
  | "domain", (kind, _) => pure (kind, .domain)
  | other, _ => invalid ("unsupported address tag: :" ++ other)

def bodyTag : String → MatchType × Bool → Parser (MatchType × Bool)
  | "is", (_, text) => pure (.is, text)
  | "contains", (_, text) => pure (.contains, text)
  | "matches", (_, text) => pure (.matches, text)
  | "text", (kind, _) => pure (kind, true)
  | "raw", (kind, _) => pure (kind, false)
  | other, _ => invalid ("unsupported body tag: :" ++ other)

/-- The body of the loop of a list of tests. -/
def testListStep (test : Parser Test) (tests : List Test) : Parser (List Test ⊕ List Test) := do
  let one ← test
  match ← Parse.next with
  | some .comma => pure (.inl (tests ++ [one]))
  | some .rParen => pure (.inr (tests ++ [one]))
  | _ => invalid "expected ',' or ')'"

def testList (test : Parser Test) : Parser (List Test) := do
  expect .lParen
  Parse.loop (testListStep test) stuck []

def sizeTag : Parser Bool := do
  match ← Parse.next with
  | some (.tag tag) =>
    if eqIgnoreAsciiCase tag "over" then pure true
    else if eqIgnoreAsciiCase tag "under" then pure false
    else invalid "size requires :over or :under"
  | _ => invalid "size requires :over or :under"

def sizeLimit : Parser Nat := do
  match ← Parse.next with
  | some (.number value) => pure value
  | _ => invalid "size requires a number"

def testNamed (test : Parser Test) : String → Parser Test
  | "true" => pure .true
  | "false" => pure .false
  | "not" => .not <$> test
  | "allof" => .allOf <$> testList test
  | "anyof" => .anyOf <$> testList test
  | "exists" => .exist <$> stringList
  | "header" => do
    let matchType ← tags matchTag .is
    let header ← string
    let key ← string
    pure (.header matchType header key)
  | "address" => do
    let (matchType, part) ← tags addressTag (.is, .all)
    let header ← string
    let key ← string
    pure (.address matchType part header key)
  | "size" => do
    let larger ← sizeTag
    let limit ← sizeLimit
    pure (.size larger limit)
  | "body" => do
    let (matchType, text) ← tags bodyTag (.is, true)
    let key ← string
    pure (.body matchType text key)
  | other => invalid ("unsupported Sieve test: " ++ other)

/-- `test` reads what is nested in the test. -/
def testInner (test : Parser Test) : Parser Test := do
  match ← Parse.next with
  | some (.ident name) => testNamed test (toAsciiLowercase name)
  | _ => invalid "expected a Sieve test"

/-- A test where `room` more levels may be opened. -/
def testAt : (room : Nat) → Parser Test
  | 0 => invalid "Sieve script nesting is too deep"
  | room + 1 => testInner (testAt room)

inductive BranchWord
  | elsif
  | otherwise

def branchWord : Token → Option BranchWord
  | .ident word =>
    if eqIgnoreAsciiCase word "elsif" then some .elsif
    else if eqIgnoreAsciiCase word "else" then some .otherwise
    else none
  | _ => none

/-- The body of the loop over the branches of a condition. -/
def branchStep (test : Parser Test) (block : Parser (List Command))
    (branches : List (Test × List Command)) :
    Parser (List (Test × List Command) ⊕ Command) := do
  match ← Parse.nextIf branchWord with
  | some .elsif =>
    let condition ← test
    let commands ← block
    pure (.inl (branches ++ [(condition, commands)]))
  | some .otherwise =>
    let commands ← block
    pure (.inr (.ifElse branches (some commands)))
  | none => pure (.inr (.ifElse branches none))

def ended (command : Command) : Parser Command := do
  expect .semicolon
  pure command

def refuseTag : Parser Unit := do
  match ← Parse.peek with
  | some (.tag _) => invalid "redirect tags are not supported"
  | _ => pure ()

def commandNamed (test : Parser Test) (block : Parser (List Command)) : String → Parser Command
  | "require" => do
    let list ← stringList
    ended (.require list)
  | "if" => do
    let condition ← test
    let commands ← block
    Parse.loop (branchStep test block) stuck [(condition, commands)]
  | "keep" => ended .keep
  | "discard" => ended .discard
  | "stop" => ended .stop
  | "fileinto" => do
    let create ← tags fileIntoTag false
    let folder ← string
    ended (.fileInto folder create)
  | "reject" => do
    let reason ← string
    ended (.reject reason)
  | "redirect" => do
    refuseTag
    let address ← string
    ended (.redirect address)
  | "vacation" => do
    let (days, subject) ← tags vacationTag (7, none)
    let body ← string
    ended (.vacation days subject body)
  | other => invalid ("unsupported Sieve command: " ++ other)

/-- `test` and `block` read what is nested in the command. -/
def command (test : Parser Test) (block : Parser (List Command)) : Parser Command := do
  match ← Parse.next with
  | some (.ident name) => commandNamed test block (toAsciiLowercase name)
  | _ => invalid "expected a Sieve command"

/-- The body of the loop of a block. -/
def blockStep (one : Parser Command) (commands : List Command) :
    Parser (List Command ⊕ List Command)
  | [] => .error (.invalid "unterminated Sieve block")
  | .rBrace :: rest => .ok (.inr commands, rest)
  | token :: rest => ((fun c => .inl (commands ++ [c])) <$> one) (token :: rest)

def blockInner (one : Parser Command) : Parser (List Command) := do
  expect .lBrace
  Parse.loop (blockStep one) stuck []

/-- A block where `room` more levels may be opened. -/
def blockAt : (room : Nat) → Parser (List Command)
  | 0 => invalid "Sieve script nesting is too deep"
  | room + 1 => blockInner (command (testAt room) (blockAt room))

/-- A command where `room` more levels may be opened. -/
def commandAt (room : Nat) : Parser Command := command (testAt room) (blockAt room)

/-- The body of the loop over the commands of a script. -/
def scriptStep (commands : List Command) : Parser (List Command ⊕ List Command)
  | [] => .ok (.inr commands, [])
  | token :: rest =>
    ((fun c => .inl (commands ++ [c])) <$> commandAt maxParseDepth) (token :: rest)

def parse (tokens : List Token) : Except MailError (List Command) :=
  (Parse.loop scriptStep stuck [] tokens).map Prod.fst

end Parser

end MailStack.Sieve
