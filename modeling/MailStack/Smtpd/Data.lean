import MailStack.Lib.Word

/-! The reader of message data: a machine that takes one byte at a time, removes the dots that were
added for transparency, and sees the end of the data. -/

namespace MailStack.Smtpd

open Lib

inductive BareNewlinePolicy
  | reject
  | normalize
deriving DecidableEq

inductive DataEvent
  | needMore
  | complete (data : Option (List UInt8))
  | tooLarge
  | bareLineFeed
deriving DecidableEq

inductive LineState
  | inLine
  | sawCr
deriving DecidableEq

inductive Terminator
  | crLf
  | bareLineFeed
deriving DecidableEq

/-- `lineLen` tells an empty line, a line that is one dot and any other line apart, as 0, 1 and
2. -/
structure DataSink where
  maxSize : Nat
  policy : BareNewlinePolicy
  state : LineState
  line : List UInt8
  out : List UInt8
  overflowed : Bool
  lineLen : Nat
deriving DecidableEq

namespace DataSink

def cr : UInt8 := 0x0d

def lf : UInt8 := 0x0a

def dot : UInt8 := 0x2e

def new (maxSize : Nat) (policy : BareNewlinePolicy) : DataSink :=
  { maxSize, policy, state := .inLine, line := [], out := [], overflowed := false, lineLen := 0 }

def checkSize (sink : DataSink) : DataSink × DataEvent :=
  if sink.overflowed then (sink, .needMore)
  else if sink.out.length + sink.line.length > sink.maxSize then
    ({ sink with overflowed := true, out := [], line := [] }, .tooLarge)
  else (sink, .needMore)

def push (sink : DataSink) (byte : UInt8) : DataSink × DataEvent :=
  let lineLen := if sink.lineLen = 0 ∧ byte = dot then 1 else 2
  let line := if sink.overflowed then sink.line else sink.line ++ [byte]
  checkSize { sink with lineLen, line }

/-- The line without the dot that was put before it. -/
def unstuff (line : List UInt8) : List UInt8 :=
  match line with
  | byte :: rest => if byte = dot then rest else line
  | [] => []

def completeLine (sink : DataSink) (terminator : Terminator) : DataSink × DataEvent :=
  let isSingleDot := sink.lineLen = 1
  let next := { sink with line := [], lineLen := 0, state := .inLine }
  if terminator = .bareLineFeed ∧ sink.policy = .reject then (next, .bareLineFeed)
  else if isSingleDot then
    if terminator = .bareLineFeed then (next, .bareLineFeed)
    else if sink.overflowed then (next, .complete none)
    else ({ next with out := [] }, .complete (some sink.out))
  else if sink.overflowed then (next, .needMore)
  else checkSize { next with out := sink.out ++ unstuff sink.line ++ [cr, lf] }

def feedByte (sink : DataSink) (byte : UInt8) : DataSink × DataEvent :=
  match sink.state with
  | .inLine =>
    if byte = cr then ({ sink with state := .sawCr }, .needMore)
    else if byte = lf then sink.completeLine .bareLineFeed
    else sink.push byte
  | .sawCr =>
    let sink := { sink with state := .inLine }
    if byte = lf then sink.completeLine .crLf
    else if byte = cr then
      let (next, event) := sink.push cr
      ({ next with state := .sawCr }, event)
    else
      let (first, event) := sink.push cr
      let (second, event') := first.push byte
      (second, if event = .tooLarge ∨ event' = .tooLarge then .tooLarge else .needMore)

/-- Takes bytes up to the first one that gives an event. The number is how many were taken. -/
def feed : DataSink → List UInt8 → DataSink × DataEvent × Nat
  | sink, [] => (sink, .needMore, 0)
  | sink, byte :: rest =>
    match sink.feedByte byte with
    | (next, .needMore) =>
      let (last, event, taken) := feed next rest
      (last, event, taken + 1)
    | (next, event) => (next, event, 1)

end DataSink

end MailStack.Smtpd
