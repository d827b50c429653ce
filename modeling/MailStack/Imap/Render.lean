import MailStack.Imap.Sections
import MailStack.Mime.Dates
import MailStack.Mime.HeaderLines
import Mathlib.Data.Finset.Sort
import Mathlib.Data.Prod.Lex
import Mathlib.Data.String.Basic

/-! The answer of FETCH for one message, and how much of the message it is made of. -/

namespace MailStack.Imap

open Lib Maildir Mime

def renderPath (path : List Nat) : String := ".".intercalate (path.map toString)

def suffixPath (path : List Nat) (suffix : String) : String :=
  if path.isEmpty then suffix else renderPath path ++ "." ++ suffix

def Section.label : Section → String
  | .full => ""
  | .header => "HEADER"
  | .text => "TEXT"
  | .headerFields names not =>
    (if not then "HEADER.FIELDS.NOT" else "HEADER.FIELDS") ++ " (" ++ " ".intercalate names ++ ")"
  | .part path => renderPath path
  | .mime path => suffixPath path "MIME"
  | .headerPart path => suffixPath path "HEADER"
  | .textPart path => suffixPath path "TEXT"

/-- The place of a flag in a set, with its name. -/
def flagName : Flag → Nat ×ₗ String
  | .system .answered => toLex (0, "\\Answered")
  | .system .deleted => toLex (1, "\\Deleted")
  | .system .draft => toLex (2, "\\Draft")
  | .system .flagged => toLex (3, "\\Flagged")
  | .system .seen => toLex (4, "\\Seen")
  | .keyword keyword => toLex (5, keyword)

def formatFlags (flags : FlagSet) : String :=
  let names := ((flags.image flagName).sort (· ≤ ·)).map fun name => (ofLex name).2
  "(" ++ " ".intercalate names ++ ")"

def pushOwnedLiteral (label : String) (data : List UInt8) : List UInt8 :=
  bytes label ++ bytes (" \x7b" ++ toString data.length ++ "\x7d\r\n") ++ data

/-- The window of the data that is asked for. -/
def partialData (window : Option (Nat × Nat)) (data : List UInt8) : List UInt8 :=
  match window with
  | some (start, count) =>
    if start ≥ data.length then []
    else (data.take (min (start + count) data.length)).drop start
  | none => data

/-- The data under its label, or NIL where there is none. -/
def pushWindow (label : String) (window : Option (Nat × Nat)) (data : Option (List UInt8)) :
    List UInt8 :=
  let label := match window with
    | some (start, _) => label ++ "<" ++ toString start ++ ">"
    | none => label
  match data with
  | none => bytes label ++ bytes " NIL"
  | some data => pushOwnedLiteral label (partialData window data)

def pushBody (message : List UInt8) (spec : BodySpec) : List UInt8 :=
  pushWindow ("BODY[" ++ spec.section_.label ++ "]") spec.window
    (extractSection message spec.section_)

variable (decodeBase64 : List UInt8 → Option (List UInt8))

def decodeBinaryPart (message : List UInt8) (path : List Nat) : Option (List UInt8) :=
  (resolvePart message path).map fun part =>
    let encoding := toAsciiLowercase (trim
      (((parseHeaders part).get "content-transfer-encoding").getD ""))
    decodeTransferEncoding decodeBase64 (splitHeadersBody part).2 encoding

/-- The path of the part, none for a section that is no part. -/
def binaryPath : Section → List Nat
  | .part path => path
  | _ => []

def pushBinary (message : List UInt8) (spec : BodySpec) : List UInt8 :=
  pushWindow ("BINARY[" ++ renderPath (binaryPath spec.section_) ++ "]") spec.window
    (decodeBinaryPart decodeBase64 message (binaryPath spec.section_))

def pushBinarySize (message : List UInt8) (path : List Nat) : List UInt8 :=
  let label := "BINARY.SIZE[" ++ renderPath path ++ "]"
  match decodeBinaryPart decodeBase64 message path with
  | some data => bytes (label ++ " " ++ toString data.length)
  | none => bytes label ++ bytes " NIL"

/-- The item is made of the content. -/
def withMessage (message : Option (List UInt8)) (text : List UInt8 → List UInt8) :
    Except MailError (List UInt8) :=
  match message with
  | some message => .ok (text message)
  | none => .error (.storage "message body is unavailable")

/-- What is written for one item. -/
def renderItem (info : MessageMeta) (internalDate : Int) (message : Option (List UInt8)) :
    FetchItem → Except MailError (List UInt8)
  | .flags => .ok (bytes ("FLAGS " ++ formatFlags info.flags))
  | .internalDate => .ok (bytes ("INTERNALDATE \"" ++ formatDateTime internalDate ++ "\""))
  | .size => .ok (bytes ("RFC822.SIZE " ++ toString info.size))
  | .uid => .ok (bytes ("UID " ++ toString info.uid))
  | .modSeq => .ok (bytes ("MODSEQ (" ++ toString info.modseq ++ ")"))
  | .envelope => withMessage message fun message =>
    bytes "ENVELOPE " ++ bytes (Mime.envelope (parseHeaders message))
  | .bodyStructure => withMessage message fun message =>
    bytes "BODYSTRUCTURE " ++ bytes (Mime.bodyStructure message)
  | .body spec => withMessage message fun message => pushBody message spec
  | .rfc822 => withMessage message fun message => pushOwnedLiteral "RFC822" message
  | .rfc822Header => withMessage message fun message =>
    pushOwnedLiteral "RFC822.HEADER" (rawBlock (parseHeaders message) none)
  | .rfc822Text => withMessage message fun message =>
    pushOwnedLiteral "RFC822.TEXT" (splitHeadersBody message).2
  | .binary spec => withMessage message fun message => pushBinary decodeBase64 message spec
  | .binarySize path => withMessage message fun message => pushBinarySize decodeBase64 message path

/-- The loop over the items, with what is written and whether the message was seen. -/
def renderItems (info : MessageMeta) (internalDate : Int) (message : Option (List UInt8)) :
    List UInt8 → Bool → Bool → List FetchItem → Except MailError (List UInt8 × Bool)
  | out, _, seen, [] => .ok (out, seen)
  | out, first, seen, item :: rest =>
    match renderItem decodeBase64 info internalDate message item with
    | .error error => .error error
    | .ok text =>
      renderItems info internalDate message ((if first then out else out ++ [32]) ++ text) false
        (seen || item.marksSeen) rest

def render (items : List FetchItem) (info : MessageMeta) (internalDate : Int)
    (message : Option (List UInt8)) (uidMode : Bool) : Except MailError (List UInt8 × Bool) :=
  if uidMode && !items.contains .uid then
    renderItems decodeBase64 info internalDate message (bytes ("UID " ++ toString info.uid)) false
      false items
  else renderItems decodeBase64 info internalDate message [] true false items

/-- The item is made of more than the header. -/
def FetchItem.needsFullMessage : FetchItem → Bool
  | .flags | .internalDate | .size | .uid | .modSeq | .envelope | .rfc822Header => false
  | .body spec =>
    match spec.section_ with
    | .header | .headerFields _ _ => false
    | .mime path => !path.isEmpty
    | _ => true
  | .bodyStructure | .rfc822 | .rfc822Text | .binary _ | .binarySize _ => true

def needsFullMessage (items : List FetchItem) : Bool := items.any FetchItem.needsFullMessage

variable {decodeBase64 : List UInt8 → Option (List UInt8)} {items : List FetchItem}
  {item : FetchItem} {info : MessageMeta} {internalDate : Int} {message : List UInt8}

theorem extractSection_take {section_ : Section} (peek : Bool) (window : Option (Nat × Nat))
    (header : (FetchItem.body { section_, peek, window }).needsFullMessage = false) :
    extractSection (message.take (maxHeaderBytes + 2)) section_ =
      extractSection message section_ := by
  cases section_ with
  | header => rw [extractSection, extractSection, parseHeaders_take]
  | headerFields names not => rw [extractSection, extractSection, parseHeaders_take]
  | mime path =>
    have whole : path.isEmpty = true := by
      cases path with
      | nil => rfl
      | cons number path => cases header
    rw [extractSection, extractSection, if_pos whole, if_pos whole, parseHeaders_take]
  | full | text | part path | headerPart path | textPart path => cases header

theorem renderItem_take (header : item.needsFullMessage = false) :
    renderItem decodeBase64 info internalDate (some (message.take (maxHeaderBytes + 2))) item =
      renderItem decodeBase64 info internalDate (some message) item := by
  cases item with
  | flags | internalDate | size | uid | modSeq => rfl
  | envelope =>
    show Except.ok (_ ++ bytes (Mime.envelope (parseHeaders (message.take _)))) = _
    rw [parseHeaders_take]
    rfl
  | rfc822Header =>
    show Except.ok (pushOwnedLiteral _ (rawBlock (parseHeaders (message.take _)) none)) = _
    rw [parseHeaders_take]
    rfl
  | body spec =>
    obtain ⟨section_, peek, window⟩ := spec
    show Except.ok (pushWindow _ _ _) = Except.ok (pushWindow _ _ _)
    rw [extractSection_take peek window header]
  | bodyStructure | rfc822 | rfc822Text | binary spec | binarySize path => cases header

theorem renderItems_take (header : needsFullMessage items = false) (out : List UInt8)
    (first seen : Bool) :
    renderItems decodeBase64 info internalDate (some (message.take (maxHeaderBytes + 2))) out first
        seen items =
      renderItems decodeBase64 info internalDate (some message) out first seen items := by
  induction items generalizing out first seen with
  | nil => rfl
  | cons item rest ih =>
    rw [needsFullMessage, List.any_cons, Bool.or_eq_false_iff] at header
    rw [renderItems, renderItems, renderItem_take header.1]
    cases renderItem decodeBase64 info internalDate (some message) item with
    | error error => rfl
    | ok text => exact ih header.2 _ _ _

/-- Where no item needs the full message, the first bytes of it make the same answer. -/
theorem render_take (header : needsFullMessage items = false) (info : MessageMeta)
    (internalDate : Int) (message : List UInt8) (uidMode : Bool) :
    render decodeBase64 items info internalDate (some (message.take (maxHeaderBytes + 2))) uidMode =
      render decodeBase64 items info internalDate (some message) uidMode := by
  unfold render
  rw [renderItems_take header, renderItems_take header]

def straddling : List UInt8 :=
  bytes "A: " ++ List.replicate (maxHeaderBytes - 3) 120 ++ bytes "\r\n\r\nbody"

def headerItems : List FetchItem :=
  [.envelope, .body { section_ := .header, peek := false, window := none }]

def sevenInfo : MessageMeta :=
  { uid := 7, base := "m", size := straddling.length, modseq := 1, flags := ∅, recent := false }

theorem render_take_straddling :
    needsFullMessage headerItems = false ∧
      render (fun _ =>
        none) headerItems sevenInfo 0 (some (straddling.take (maxHeaderBytes + 2))) true =
        render (fun _ => none) headerItems sevenInfo 0 (some straddling) true := by
  have header : needsFullMessage headerItems = false := by decide
  exact ⟨header, render_take header sevenInfo 0 straddling true⟩

end MailStack.Imap
