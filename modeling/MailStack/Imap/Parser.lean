import MailStack.Lib.Parse
import MailStack.Net.LineIo

/-! The commands of IMAP as they are read: lines of atoms, quoted strings and lists, with literals
between them. -/

namespace MailStack.Imap.Parser

open Lib Maildir Net

structure ParserLimits where
  maxLine : Nat
  maxLiteral : Nat
  maxTokens : Nat
  maxCommand : Nat

namespace ParserLimits

def default : ParserLimits where
  maxLine := 8 * 1024
  maxLiteral := 32 * 1024 * 1024
  maxTokens := 1024
  maxCommand := 64 * 1024

end ParserLimits

inductive Token
  | atom (value : String)
  | quoted (value : String)
  | literal (bytes : List UInt8)
  | list (items : List Token)

structure Command where
  tag : String
  name : String
  args : List Token
  rawArgs : Option String

inductive CommandChunk
  | text (bytes : List UInt8)
  | literal (bytes : List UInt8)

/-- The lists that are open, the innermost first, and the tokens that were counted. -/
structure Frames where
  outer : List (List Token)
  frame : List Token
  count : Nat

namespace Frames

def empty : Frames := { outer := [], frame := [], count := 0 }

def pushToken (frames : Frames) (token : Token) (maxTokens : Nat) : Except MailError Frames :=
  if frames.count + 1 > maxTokens then .error (.protocol "too many tokens in one command")
  else .ok { frames with frame := frames.frame ++ [token], count := frames.count + 1 }

def openList (frames : Frames) : Frames :=
  { frames with outer := frames.frame :: frames.outer, frame := [] }

def closeList (frames : Frames) (maxTokens : Nat) : Except MailError Frames :=
  match frames.outer with
  | [] => .error (.protocol "unexpected ')'")
  | frame :: outer => pushToken { frames with outer, frame } (.list frames.frame) maxTokens

end Frames

def isLineEnd (byte : UInt8) : Bool := byte = cr || byte = lf

/-- What follows an opening quote: whether a backslash stands before it, and the bytes so far. -/
def parseQuoted : Bool → List UInt8 → Parse UInt8 MailError String
  | _, _, [] => .error (.protocol "unterminated quoted string")
  | true, out, byte :: rest =>
    if isLineEnd byte then .error (.protocol "CR/LF inside a quoted string")
    else parseQuoted false (out ++ [byte]) rest
  | false, out, byte :: rest =>
    if byte = '\\'.toUInt8 then parseQuoted true out rest
    else if byte = '"'.toUInt8 then .ok (fromUtf8Lossy out, rest)
    else if isLineEnd byte then .error (.protocol "CR/LF inside a quoted string")
    else parseQuoted false (out ++ [byte]) rest

def isBrace (byte : UInt8) : Bool := byte = '\x7b'.toUInt8 || byte = '\x7d'.toUInt8

def isAtomByte (byte : UInt8) : Bool :=
  !(byte = ' '.toUInt8 || byte = '('.toUInt8 || byte = ')'.toUInt8 || byte = '"'.toUInt8 ||
    isBrace byte) && 0x20 ≤ byte

/-- The body of the loop on the bytes of a text: it ends with them. -/
def textStep (maxTokens : Nat) (frames : Frames) : Parse UInt8 MailError (Frames ⊕ Frames)
  | [] => .ok (.inr frames, [])
  | byte :: rest =>
    if byte = ' '.toUInt8 then .ok (.inl frames, rest)
    else if byte = '('.toUInt8 then .ok (.inl frames.openList, rest)
    else if byte = ')'.toUInt8 then
      (frames.closeList maxTokens).map fun frames => (.inl frames, rest)
    else if byte = '"'.toUInt8 then
      match parseQuoted false [] rest with
      | .error error => .error error
      | .ok (value, rest) =>
        (frames.pushToken (.quoted value) maxTokens).map fun frames => (.inl frames, rest)
    else if byte < 0x20 || byte = 0x7f then .error (.protocol "control character in command")
    else if isBrace byte then
      .error (.protocol "unexpected brace outside of a literal marker")
    else
      (frames.pushToken (.atom (fromUtf8Lossy ((byte :: rest).takeWhile isAtomByte)))
        maxTokens).map fun frames => (.inl frames, (byte :: rest).dropWhile isAtomByte)

/-- What the model of the loop would say if it stopped too early. -/
def stuck : MailError := .protocol "the loop does not end"

def tokenizeText (maxTokens : Nat) (bytes : List UInt8) (frames : Frames) :
    Except MailError Frames :=
  (Parse.loop (textStep maxTokens) stuck frames bytes).map Prod.fst

def tokenizeChunk (maxTokens : Nat) (frames : Frames) : CommandChunk → Except MailError Frames
  | .literal bytes => frames.pushToken (.literal bytes) maxTokens
  | .text bytes => tokenizeText maxTokens bytes frames

def tokenize (chunks : List CommandChunk) (maxTokens : Nat) : Except MailError (List Token) := do
  let frames ← chunks.foldlM (tokenizeChunk maxTokens) .empty
  if frames.outer = [] then pure frames.frame
  else throw (.protocol "unbalanced parentheses")

def isTagByte (byte : UInt8) : Bool :=
  0x21 ≤ byte && byte ≤ 0x7e && byte ≠ '+'.toUInt8 &&
    !(byte = '('.toUInt8 || byte = ')'.toUInt8 || byte = '\x7b'.toUInt8 || byte = '"'.toUInt8 ||
      byte = '\\'.toUInt8)

def validateTag (tag : String) : Except MailError Unit :=
  if bytes tag = [] || (bytes tag).length > 64 then .error (.protocol "tag must be 1-64 characters")
  else if (bytes tag).all isTagByte then .ok ()
  else .error (.protocol "invalid character in tag")

def finish (tokens : List Token) (rawArgs : Option String) : Except MailError (Option Command) :=
  match tokens with
  | .atom tag :: second :: args => do
    validateTag tag
    match second with
    | .atom name => pure (some { tag, name := toAsciiUppercase name, args, rawArgs })
    | _ => throw (.protocol "command name must be an atom")
  | _ :: _ :: _ => .error (.protocol "tag must be an atom")
  | _ => .error (.protocol "command is missing a tag or name")

def dropAtom (text : List Char) : List Char :=
  (text.dropWhile (· = ' ')).dropWhile (· ≠ ' ')

def rawAfterTwoAtoms (text : String) : String :=
  String.ofList ((dropAtom (dropAtom text.toList)).dropWhile (· = ' '))

def rawArgs : List CommandChunk → Option String
  | [.text bytes] => (fromUtf8 bytes).map rawAfterTwoAtoms
  | _ => none

def commandOf (chunks : List CommandChunk) (limits : ParserLimits) :
    Except MailError (Option Command) := do
  finish (← tokenize chunks limits.maxTokens) (rawArgs chunks)

def rposition (byte : UInt8) (line : List UInt8) : Option Nat :=
  (line.reverse.findIdx? (· = byte)).map fun back => line.length - 1 - back

/-- The text before a literal and what its marker says: the size, and whether the client waits. -/
def splitLiteralMarker (text : List UInt8) (maxLiteral : Nat) :
    Except MailError (List UInt8 × Option (Nat × Bool)) :=
  if text.getLast? ≠ some '\x7d'.toUInt8 then .ok (text, none)
  else
    match rposition '\x7b'.toUInt8 text with
    | none => .ok (text, none)
    | some start =>
      if start ≠ 0 ∧ text[start - 1]? ≠ some ' '.toUInt8 ∧ text[start - 1]? ≠ some '('.toUInt8 then
        .ok (text, none)
      else
        let inside := (text.drop (start + 1)).dropLast
        let sync := decide (inside.getLast? ≠ some '+'.toUInt8)
        let digits := if sync then inside else inside.dropLast
        if digits = [] || !digits.all fun byte => 48 ≤ byte && byte ≤ 57 then
          .error (.protocol "malformed literal marker")
        else
          match parseUnsigned u64Max (fromUtf8Lossy digits) with
          | none => .error (.protocol "literal size out of range")
          | some size =>
            if size > maxLiteral then
              .error (.protocol ("literal of " ++ toString size ++ " bytes exceeds limit " ++
                toString maxLiteral))
            else .ok (text.take start, some (size, sync))

/-- Something that lines and so many bytes can be read from. -/
structure ByteSource (σ : Type) where
  readLine : σ → Nat → Except MailError (Option (List UInt8)) × σ
  readExact : σ → Nat → Nat → Except MailError (List UInt8) × σ

/-- What a call comes to. `prompts` is how often the client was told to go on with a literal. -/
structure ReadResult (σ : Type) where
  prompts : Nat
  result : Except MailError (Option Command)
  source : σ

/-- The variables of the loop. There are chunks exactly if it has read a line. -/
structure Reading where
  chunks : List CommandChunk
  literalTotal : Nat
  total : Nat
  prompts : Nat

def Reading.start : Reading := { chunks := [], literalTotal := 0, total := 0, prompts := 0 }

variable {σ : Type}

/-- The loop of `read_command`, with the number of literals that there may still be. -/
def readFrom (src : ByteSource σ) (limits : ParserLimits) : Nat → Reading → σ → ReadResult σ
  | left, r, s =>
    match src.readLine s limits.maxLine with
    | (.error error, s) => ⟨r.prompts, .error error, s⟩
    | (.ok none, s) =>
      ⟨r.prompts,
        if r.chunks.isEmpty then .ok none
        else .error (.protocol "connection closed in the middle of a command"), s⟩
    | (.ok (some line), s) =>
      let total := satAdd u64Max r.total line.length
      if total > limits.maxCommand then ⟨r.prompts, .error (.protocol "command is too long"), s⟩
      else
        match splitLiteralMarker line limits.maxLiteral with
        | .error error => ⟨r.prompts, .error error, s⟩
        | .ok (content, none) => ⟨r.prompts, commandOf (r.chunks ++ [.text content]) limits, s⟩
        | .ok (content, some (size, sync)) =>
          match left with
          | 0 => ⟨r.prompts, .error (.protocol "too many literals in one command"), s⟩
          | left + 1 =>
            let literalTotal := satAdd u64Max r.literalTotal size
            if literalTotal > limits.maxLiteral then
              ⟨r.prompts,
                .error (.protocol "total literal size of a command exceeds the limit"), s⟩
            else
              let prompts := r.prompts + if sync then 1 else 0
              match src.readExact s size limits.maxLiteral with
              | (.error error, s) => ⟨prompts, .error error, s⟩
              | (.ok data, s) =>
                readFrom src limits left
                  { chunks := r.chunks ++ [.text content, .literal data], literalTotal, total,
                    prompts } s
termination_by structural left => left

def maxLiterals : Nat := 32

def readCommandFrom (src : ByteSource σ) (limits : ParserLimits) (s : σ) : ReadResult σ :=
  readFrom src limits maxLiterals .start s

def lineIo : ByteSource LineIo where
  readLine := LineIo.readLine
  readExact := LineIo.readExact

def readCommand (io : LineIo) (limits : ParserLimits) : ReadResult LineIo :=
  readCommandFrom lineIo limits io

/-- Command after command, up to the first error. -/
def readCommands (src : ByteSource σ) (limits : ParserLimits) :
    Nat → σ → List (Except MailError (Option Command))
  | 0, _ => []
  | n + 1, s =>
    let first := readCommandFrom src limits s
    first.result ::
      match first.result with
      | .error _ => []
      | .ok _ => readCommands src limits n first.source

end MailStack.Imap.Parser
