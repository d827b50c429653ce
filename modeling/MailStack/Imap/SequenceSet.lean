import MailStack.Maildir.Store
import MailStack.Queue.Entry

/-! Sets of message numbers as IMAP commands write them, and the set that `$` stands for. -/

namespace MailStack.Imap

open Lib Maildir

/-- What `*` is parsed to. -/
def star : Nat := u32Max

structure SeqRange where
  first : Nat
  last : Nat
deriving DecidableEq

structure SequenceSet where
  ranges : List SeqRange
deriving DecidableEq

def maxRanges : Nat := 1024

def maxInput : Nat := 8192

namespace SequenceSet

def parseNumber (token : String) : Except MailError Nat :=
  let token := trim token
  if token = "*" then .ok star
  else if token.isEmpty || !token.toList.all Char.isDigit then
    .error (.invalid ("invalid sequence number: " ++ Queue.debugText token))
  else
    match parseUnsigned u32Max token with
    | none => .error (.invalid ("sequence number out of range: " ++ Queue.debugText token))
    | some 0 => .error (.invalid "sequence number 0 is invalid")
    | some value => .ok value

def parseElement (element : String) : Except MailError SeqRange :=
  match splitOnce ':' element with
  | some (left, right) =>
    match parseNumber left with
    | .error error => .error error
    | .ok a =>
      match parseNumber right with
      | .error error => .error error
      | .ok b => .ok (if a ≤ b then ⟨a, b⟩ else ⟨b, a⟩)
  | none =>
    match parseNumber element with
    | .error error => .error error
    | .ok value => .ok ⟨value, value⟩

/-- The loop over the elements, with the number of those before. -/
@[grind =] def parseElements (input : String) : Nat → List String → Except MailError (List SeqRange)
  | _, [] => .ok []
  | count, element :: rest =>
    if (trim element).isEmpty then
      .error (.invalid ("invalid sequence set: " ++ Queue.debugText input))
    else
      match parseElement (trim element) with
      | .error error => .error error
      | .ok range =>
        if count + 1 > maxRanges then .error (.invalid "sequence set has too many ranges")
        else
          match parseElements input (count + 1) rest with
          | .error error => .error error
          | .ok ranges => .ok (range :: ranges)

def parse (input : String) : Except MailError SequenceSet :=
  let trimmed := trim input
  if trimmed.isEmpty then .error (.invalid "empty sequence set")
  else if (bytes trimmed).length > maxInput then .error (.invalid "sequence set too long")
  else
    match parseElements input 0 ((trimmed.toList.splitOn ',').map String.ofList) with
    | .error error => .error error
    | .ok ranges => .ok { ranges }

/-- What a number of a set stands for when the largest is `max`. -/
def resolve (value max : Nat) : Nat := if value = star then max else value

def contains (set : SequenceSet) (value max : Nat) : Bool :=
  if max = 0 then false
  else
    set.ranges.any fun range =>
      let a := resolve range.first max
      let b := resolve range.last max
      let (low, high) := if a ≤ b then (a, b) else (b, a)
      low ≤ value && value ≤ high

/-- The runs of consecutive numbers, the first of which begins at `start` and has come to `stop`. -/
@[grind =] def runs : Nat → Nat → List Nat → List (Nat × Nat)
  | start, stop, [] => [(start, stop)]
  | start, stop, value :: rest =>
    if value = satAdd u32Max stop 1 then runs start value rest
    else (start, stop) :: runs value value rest

def renderRun (run : Nat × Nat) : String :=
  if run.1 = run.2 then toString run.1 else toString run.1 ++ ":" ++ toString run.2

def sorted (values : List Nat) : List Nat := values.dedup.mergeSort fun a b => decide (a ≤ b)

def fromValues (values : List Nat) : String :=
  match sorted values with
  | [] => ""
  | first :: rest => ",".intercalate ((runs first first rest).map renderRun)

end SequenceSet

/-- The numbers that `$` stands for. -/
def savedResultNumbers (saved : List Nat) (uidMode : Bool) (messages : List MessageMeta) :
    Except MailError (List Nat) :=
  if uidMode then
    if saved.isEmpty then .error (.protocol "'$' has no saved result")
    else .ok (SequenceSet.sorted saved)
  else
    let sequences := (messages.zipIdx 1).filterMap fun (m, number) =>
      if saved.contains m.uid then some number else none
    if sequences.isEmpty then
      .error (.protocol "the saved SEARCH result no longer refers to a message")
    else .ok (SequenceSet.sorted sequences)

end MailStack.Imap
