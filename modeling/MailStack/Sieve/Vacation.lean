import MailStack.Sieve.Eval

/-! Messages that a script sends: redirected ones and vacation replies, of which a file remembers
the last to each sender. -/

namespace MailStack.Sieve

open Lib Mime

/-- `i64::saturating_sub`. -/
def saturatingSub (a b : Int) : Int := clampI64 (a - b)

structure Submission where
  sender : String
  recipient : String
  data : List UInt8

/-- Whether a message is taken, given what was tried before. -/
abbrev Sink := List (Submission × Bool) → Submission → Bool

/-- An order in which a hash map gives its entries. -/
structure Shuffle where
  order : List (String × Int) → List (String × Int)
  perm : ∀ entries, (order entries).Perm entries

/-- What a delivery finds in the world: the decoder of base64, the clock, the order of a hash map,
and whether the lock of the vacation state can be taken and its file be written. -/
structure Host where
  decodeBase64 : List UInt8 → Option (List UInt8)
  now : Int
  nowFits : i64Min ≤ now ∧ now ≤ i64Max
  shuffle : Shuffle
  locks : Bool
  writes : Bool

/-- What was sent and whether it was taken, and the text of the vacation state if there is one. -/
structure Outbox where
  attempts : List (Submission × Bool)
  vacation : Option String

def Outbox.submit (sink : Sink) (o : Outbox) (message : Submission) : Bool × Outbox :=
  (sink o.attempts message,
    { o with attempts := o.attempts ++ [(message, sink o.attempts message)] })

abbrev Replies := List (String × Int)

def Replies.insert (replies : Replies) (sender : String) (time : Int) : Replies :=
  (sender, time) :: replies.filter fun e => e.1 ≠ sender

/-- A line that is not a sender and a time is left out. -/
def readReply (replies : Replies) (line : String) : Replies :=
  match splitOnce ' ' line with
  | none => replies
  | some (sender, timestamp) =>
    match parseI64 timestamp with
    | none => replies
    | some time => replies.insert sender time

def readVacationState : Option String → Replies
  | none => []
  | some contents => (lines contents).foldl readReply []

def secondsPerDay : Int := 86400

def rememberedDays : Int := 30

def rememberedReplies : Nat := 1000

def keptReplies (shuffle : Shuffle) (replies : Replies) (now : Int) : Replies :=
  let cutoff := saturatingSub now (rememberedDays * secondsPerDay)
  (((shuffle.order replies).filter fun e => cutoff ≤ e.2).mergeSort fun a b => b.2 ≤ a.2).take
    rememberedReplies

def writeVacationState (shuffle : Shuffle) (replies : Replies) (now : Int) : String :=
  String.join ((keptReplies shuffle replies now).map fun e => e.1 ++ " " ++ toString e.2 ++ "\n")

def isAutomated (headers : Headers) : Bool :=
  (match headers.get "auto-submitted" with
    | some value => !eqIgnoreAsciiCase (trim value) "no"
    | none => false) ||
  (headers.get "list-id").isSome ||
  match headers.get "precedence" with
  | some precedence => ["bulk", "list", "junk"].contains (toAsciiLowercase (trim precedence))
  | none => false

def sanitizeHeader (value : String) : String :=
  trim (String.ofList (value.toList.filter fun c => !isControl c))

def replySubject (original : Headers) : Option String → String
  | some subject => subject
  | none =>
    match ((original.get "subject").map trim).filter fun s => !s.isEmpty with
    | some subject => "Auto-Reply: " ++ subject
    | none => "Auto-Reply"

def replyReferences (original : Headers) : String :=
  match original.get "message-id" with
  | none => ""
  | some messageId =>
    let messageId := sanitizeHeader (trim messageId)
    if messageId.isEmpty then ""
    else "In-Reply-To: " ++ messageId ++ "\r\nReferences: " ++ messageId ++ "\r\n"

def buildVacationReply (original : Headers) (recipient sender : String) (subject : Option String)
    (body : String) : String :=
  "From: " ++ sanitizeHeader recipient ++ "\r\n" ++
  "To: " ++ sanitizeHeader sender ++ "\r\n" ++
  "Subject: " ++ sanitizeHeader (replySubject original subject) ++ "\r\n" ++
  "Auto-Submitted: auto-replied\r\n" ++
  "MIME-Version: 1.0\r\n" ++
  "Content-Type: text/plain; charset=utf-8\r\n" ++
  "Content-Transfer-Encoding: 8bit\r\n" ++
  replyReferences original ++
  "\r\n" ++ body ++ "\r\n"

structure Envelope where
  sender : String
  recipient : String

/-- A reply to the sender was sent less than `days` ago. -/
def repliedWithin (replies : Replies) (key : String) (now : Int) (days : Nat) : Bool :=
  match replies.lookup key with
  | some last => saturatingSub now last < (max days 1 : Nat) * secondsPerDay
  | none => false

def submitVacation (host : Host) (sink : Sink) (message : List UInt8) (envelope : Envelope)
    (days : Nat) (subject : Option String) (body : String) (o : Outbox) : Outbox :=
  if envelope.sender.isEmpty || eqIgnoreAsciiCase envelope.sender envelope.recipient then o
  else if isAutomated (parseHeaders message) then o
  else if !host.locks then o
  else
    let key := toAsciiLowercase envelope.sender
    let replies := readVacationState o.vacation
    if repliedWithin replies key host.now days then o
    else
      let reply := buildVacationReply (parseHeaders message) envelope.recipient envelope.sender
        subject body
      let (taken, o) := o.submit sink
        { sender := "", recipient := envelope.sender, data := bytes reply }
      if taken && host.writes then
        { o with
          vacation := some (writeVacationState host.shuffle (replies.insert key host.now) host.now) }
      else o

/-- What the loop over the actions sends for one of them. -/
def sendAction (host : Host) (sink : Sink) (message : List UInt8) (envelope : Envelope)
    (o : Outbox) :
    Action → Outbox
  | .redirect address =>
    (o.submit sink { sender := envelope.sender, recipient := address, data := message }).2
  | .vacation days subject body => submitVacation host sink message envelope days subject body o
  | _ => o

/-- Without a sink nothing is sent. -/
def sendActions (host : Host) (sink : Option Sink) (message : List UInt8) (envelope : Envelope)
    (actions : List Action) (o : Outbox) : Outbox :=
  match sink with
  | none => o
  | some sink => actions.foldl (sendAction host sink message envelope) o

end MailStack.Sieve
