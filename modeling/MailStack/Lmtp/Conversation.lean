import MailStack.Lmtp.Replies

/-! The conversation of the LMTP client with the LMTP server: what the client reports for each
recipient, and what became of the recipient's own delivery. -/

namespace MailStack.Lmtp

open Lib Maildir Sieve Smtp Duplex

variable {σ : Type} {message : String} {r : Recipient σ} {line : String} {full : Bool}

def senderPath (job : Delivering) : String := "FROM:<" ++ job.mailFrom ++ ">"

def recipientPath (recipient : String) : String := "TO:<" ++ recipient ++ ">"

/-- The sender that the server takes, or the line with which it refuses it. -/
def sentFrom (config : LmtpConfig) (job : Delivering) : Except String String :=
  match parsePath (senderPath job) "FROM" with
  | .error message => .error ("501 5.5.4 " ++ message)
  | .ok (sender, size) =>
    if size.any fun n => n > config.maxMessageSize then .error oversizedLine else .ok sender

/-- The recipient that the server takes, or the line with which it refuses it. -/
def verdict (ctx : LmtpContext σ) (full : Bool) (recipient : String) :
    Except String (Recipient σ) :=
  match parsePath (recipientPath recipient) "TO" with
  | .error message => .error ("501 5.5.4 " ++ message)
  | .ok (address, _) =>
    if address.isEmpty then .error "501 5.1.3 Bad recipient address syntax"
    else if full then .error "452 4.5.3 Too many recipients"
    else
      match ctx.route address with
      | some store => .ok { address, store }
      | none => .error "550 5.1.1 No such user"

def routed (ctx : LmtpContext σ) (recipient : String) : Option (Recipient σ) :=
  (verdict ctx false recipient).toOption

/-- The recipients that the server has a mailbox for, up to its limit. -/
def taken (ctx : LmtpContext σ) (recipients : List String) : List (Recipient σ) :=
  (recipients.filterMap (routed ctx)).take ctx.config.maxRecipients

/-- The answer for one of the recipients to a message that is delivered to it. -/
def deliveredLine (ctx : LmtpContext σ) (job : Delivering) (recipient : Recipient σ) : String :=
  answerLine ctx ((sentFrom ctx.config job).toOption.getD "") (received ctx.config job.data) recipient

/-- The line that says what became of the recipient at the place `index`: it was refused, or the
message was delivered to it with this outcome. -/
def ownLine (ctx : LmtpContext σ) (job : Delivering) (index : Nat) : String :=
  let before := (job.recipients.take index).filterMap (routed ctx)
  match verdict ctx (before.length ≥ ctx.config.maxRecipients) (job.recipients[index]?.getD "") with
  | .error line => line
  | .ok recipient => deliveredLine ctx job recipient

def ownResult (ctx : LmtpContext σ) (job : Delivering) (index : Nat) : RecipientResult :=
  .ofLine (job.recipients[index]?.getD "") (ownLine ctx job index)

def ownResults (ctx : LmtpContext σ) (job : Delivering) : List RecipientResult :=
  (List.range job.recipients.length).map (ownResult ctx job)

def buildServer (route : String → Option σ)
    (deliver : σ → String → String → String → Except MailError Delivery) : LmtpContext σ :=
  { config := .default, route, deliver }

abbrev Conversation (σ : Type) := Duplex LmtpClient (LmtpSession σ) String String

def connected (ctx : LmtpContext σ) (c : LmtpClient) : Conversation σ :=
  ⟨c, .start, [LmtpSession.greeting ctx.config], []⟩

abbrev Talk (ctx : LmtpContext σ) (job : Delivering) : Conversation σ → Conversation σ → Prop :=
  Steps (LmtpClient.receive job) (LmtpSession.receive ctx)

/-- What the call of the client returns when no message is on its way any more. The answer to QUIT
is not waited for in vain. -/
def outcome (n : Conversation σ) : Except StoreError (List RecipientResult) :=
  match n.left.stage with
  | .quit result | .finished result => result
  | _ =>
    .error (.lmtp (if n.right.reading = .closed then "connection closed by LMTP server"
      else "timed out waiting for LMTP response"))

/-- Client and server have the same picture: if the message was sent, the server has answered it as
often as the client waits for an answer, and the client has a result; and a result tells for each
recipient what became of its own delivery. -/
structure Agreed (ctx : LmtpContext σ) (job : Delivering) (n : Conversation σ) : Prop where
  counts : ∀ awaited, n.left.awaited = some awaited →
    n.right.answered = awaited ∧ ∃ results, outcome n = .ok results
  own : ∀ results, outcome n = .ok results → results = ownResults ctx job

/-- Every order of turns brings client and server to the same end, where they agree. -/
def Agree (ctx : LmtpContext σ) (job : Delivering) : Prop :=
  ∀ c, LmtpClient.start job = .ok c → ∃ last, AtRest last ∧ Agreed ctx job last ∧
    ∀ n, Talk ctx job (connected ctx c) n → Talk ctx job n last

variable {job : Delivering}

theorem agree_iff {ctx : LmtpContext σ} {c : LmtpClient} {last : Conversation σ}
    (begun : LmtpClient.start job = .ok c) (talk : Talk ctx job (connected ctx c) last)
    (rest : AtRest last) : Agree ctx job ↔ Agreed ctx job last := by
  constructor
  · intro agree
    obtain ⟨other, otherRest, agreed, all⟩ := agree c begun
    rw [← rest.eq_of_steps (all last talk)]
    exact agreed
  · intro agreed other otherBegun
    cases begun.symm.trans otherBegun
    exact ⟨last, rest, agreed, fun n steps => steps_to_rest talk rest steps⟩

namespace LmtpSession

variable {ctx : LmtpContext σ} {s : LmtpSession σ}

theorem splitOnce_command {command word : String} (noBlank : ' ' ∉ word.toList)
    (blank : word ++ String.singleton ' ' = command) (argument : String) :
    splitOnce ' ' (command ++ argument) = some (word, argument) := by
  rw [← blank]
  exact splitOnce_append noBlank argument

theorem trim_path {head address : String} {c : Char} (first : head.toList.head? = some c)
    (visible : isWhitespace c = false) :
      trim (head ++ address ++ ">") = head ++ address ++ ">" := by
  obtain ⟨rest, shape⟩ := List.head?_eq_some_iff.mp first
  apply trim_eq_self
  · simp [shape, visible]
  · simp
    decide

variable {recipient : String}

section

variable (reading : s.reading = .command)

include reading

theorem receive_rcpt
    (fits : (bytes ("RCPT " ++ recipientPath recipient)).length ≤ ctx.config.maxLine) :
    s.receive ctx ("RCPT " ++ recipientPath recipient) =
      s.handleRcpt ctx (some (recipientPath recipient)) := by
  have split : splitOnce ' ' ("RCPT " ++ recipientPath recipient) =
      some ("RCPT", recipientPath recipient) :=
    splitOnce_command (by decide) (by decide) _
  have trimmed : trim (recipientPath recipient) = recipientPath recipient := trim_path rfl rfl
  have upper : toAsciiUppercase "RCPT" = "RCPT" := by decide
  rw [receive, reading]
  simp only [if_neg (Nat.not_lt.mpr fits), dispatch, split, trimmed, upper]

theorem receive_mail
    (fits : (bytes ("MAIL " ++ senderPath job)).length ≤ ctx.config.maxLine) :
    s.receive ctx ("MAIL " ++ senderPath job) =
      s.handleMail ctx.config (some (senderPath job)) := by
  have split : splitOnce ' ' ("MAIL " ++ senderPath job) = some ("MAIL", senderPath job) :=
    splitOnce_command (by decide) (by decide) _
  have trimmed : trim (senderPath job) = senderPath job := trim_path rfl rfl
  have upper : toAsciiUppercase "MAIL" = "MAIL" := by decide
  rw [receive, reading]
  simp only [if_neg (Nat.not_lt.mpr fits), dispatch, split, trimmed, upper]

theorem receive_lhlo {name : String}
    (fits : (bytes ("LHLO " ++ name)).length ≤ ctx.config.maxLine) (trimmed : trim name = name) :
    s.receive ctx ("LHLO " ++ name) = s.handleLhlo ctx.config (some name) := by
  have split : splitOnce ' ' ("LHLO " ++ name) = some ("LHLO", name) :=
    splitOnce_command (by decide) (by decide) _
  have upper : toAsciiUppercase "LHLO" = "LHLO" := by decide
  rw [receive, reading]
  simp only [if_neg (Nat.not_lt.mpr fits), dispatch, split, trimmed, upper]

theorem receive_data (wide : 4 ≤ ctx.config.maxLine) :
    s.receive ctx "DATA" = s.handleData none := by
  have split : splitOnce ' ' "DATA" = none := by decide
  have upper : toAsciiUppercase (trim "DATA") = "DATA" := by decide
  have fits : ¬(bytes "DATA").length > ctx.config.maxLine := Nat.not_lt.mpr wide
  rw [receive, reading]
  simp only [if_neg fits, dispatch, split, upper]

theorem receive_quit (wide : 4 ≤ ctx.config.maxLine) :
    s.receive ctx "QUIT" = ({ s with reading := .closed }, ["221 2.0.0 Bye"]) := by
  have split : splitOnce ' ' "QUIT" = none := by decide
  have upper : toAsciiUppercase (trim "QUIT") = "QUIT" := by decide
  have fits : ¬(bytes "QUIT").length > ctx.config.maxLine := Nat.not_lt.mpr wide
  rw [receive, reading]
  simp only [if_neg fits, dispatch, split, upper]

theorem receive_tooLong
    (long : ¬(bytes line).length ≤ ctx.config.maxLine) :
    s.receive ctx line = ({ s with reading := .closed }, []) := by
  rw [receive, reading]
  simp only [if_pos (Nat.lt_of_not_le long)]

end

theorem handleMail_sentFrom (helo : s.helo = true) :
    s.handleMail ctx.config (some (senderPath job)) =
      match sentFrom ctx.config job with
      | .error line => (s.resetTransaction, [line])
      | .ok sender =>
        ({ s.resetTransaction with mailFrom := some sender, recipients := [] },
          ["250 2.1.0 Ok"]) := by
  simp only [handleMail, helo, sentFrom]
  cases parsePath (senderPath job) "FROM" with
  | error message => rfl
  | ok path =>
    obtain ⟨sender, size⟩ := path
    simp only [Bool.not_true, Bool.false_eq_true, if_false]
    split <;> rfl

theorem handleRcpt_verdict {recipient sender : String} (mailFrom : s.mailFrom = some sender) :
    s.handleRcpt ctx (some (recipientPath recipient)) =
      match verdict ctx (s.recipients.length ≥ ctx.config.maxRecipients) recipient with
      | .error line => (s, [line])
      | .ok r =>
        if s.seen.contains (seenKey r.address) then (s, ["250 2.1.5 Ok"])
        else
          ({ s with seen := seenKey r.address :: s.seen, recipients := s.recipients ++ [r] },
            ["250 2.1.5 Ok"]) := by
  simp only [handleRcpt, mailFrom, verdict]
  cases parsePath (recipientPath recipient) "TO" with
  | error message => rfl
  | ok path =>
    obtain ⟨address, size⟩ := path
    simp only [Option.isNone_some, Bool.false_eq_true, if_false, decide_eq_true_eq]
    split
    · rfl
    · split
      · rfl
      · cases ctx.route address <;> rfl

end LmtpSession

/-- A line that refuses what was asked for. -/
structure Refusal (line : String) : Prop where
  reply : IsReply line
  fits : Fits line
  negative : isPositive (statusCode line) = false

instance (line : String) : Decidable (Refusal line) :=
  decidable_of_iff (IsReply line ∧ Fits line ∧ isPositive (statusCode line) = false)
    ⟨fun h => ⟨h.1, h.2.1, h.2.2⟩, fun h => ⟨h.reply, h.fits, h.negative⟩⟩

def pathErrors : List String :=
  ["missing ':' in path", "unexpected path keyword", "unterminated path", "invalid SIZE parameter"]

theorem findSize_error {size : Option Nat} {tokens : List String}
    (failed : findSize size tokens = .error message) : message = "invalid SIZE parameter" := by
  induction tokens generalizing size with
  | nil => cases failed
  | cons token rest ih =>
    simp only [findSize] at failed
    split at failed
    · exact ih failed
    · split at failed
      · split at failed
        · exact ih failed
        · cases failed
          rfl
      · exact ih failed

theorem splitPath_error {rest message : String} (failed : splitPath rest = .error message) :
    message = "unterminated path" := by
  simp only [splitPath] at failed
  split at failed
  · split at failed <;> cases failed
    rfl
  · cases failed

theorem parsePath_error {argument keyword message : String}
    (failed : parsePath argument keyword = .error message) : message ∈ pathErrors := by
  simp only [parsePath] at failed
  split at failed
  · cases failed
    decide
  · next tag rest _ =>
    split at failed
    · cases failed
      decide
    · cases path : splitPath (trim rest) with
      | error text =>
        rw [path] at failed
        cases failed
        rw [splitPath_error path]
        decide
      | ok parts =>
        rw [path] at failed
        cases size : findSize none (splitWhitespace parts.2) with
        | error text =>
          simp only [bind, Except.bind, size] at failed
          cases failed
          rw [findSize_error size]
          decide
        | ok n =>
          simp only [bind, Except.bind, size] at failed
          cases failed

theorem pathError_refusal (mem : message ∈ pathErrors) :
    Refusal ("501 5.5.4 " ++ message) := by
  revert message
  decide

theorem sentFrom_refusal {config : LmtpConfig}
    (refused : sentFrom config job = .error line) : Refusal line := by
  simp only [sentFrom] at refused
  split at refused
  · next failed =>
    cases refused
    exact pathError_refusal (parsePath_error failed)
  · split at refused
    · cases refused
      decide
    · cases refused

theorem verdict_refusal {ctx : LmtpContext σ} {recipient line : String}
    (refused : verdict ctx full recipient = .error line) : Refusal line := by
  have empty : Refusal "501 5.1.3 Bad recipient address syntax" := by decide
  have many : Refusal "452 4.5.3 Too many recipients" := by decide
  have unknown : Refusal "550 5.1.1 No such user" := by decide
  simp only [verdict] at refused
  split at refused
  · next failed =>
    cases refused
    exact pathError_refusal (parsePath_error failed)
  · split at refused
    · cases refused
      exact empty
    · split at refused
      · cases refused
        exact many
      · split at refused
        · cases refused
        · cases refused
          exact unknown

theorem verdict_ok_iff {ctx : LmtpContext σ} :
    verdict ctx full recipient = .ok r ↔ full = false ∧ routed ctx recipient = some r := by
  cases full with
  | false =>
    rw [routed]
    cases verdict ctx false recipient <;> simp [Except.toOption]
  | true =>
    have refused : verdict ctx true recipient ≠ .ok r := by
      simp only [verdict]
      cases parsePath (recipientPath recipient) "TO" with
      | error message => nofun
      | ok path => by_cases empty : path.1.isEmpty <;> simp [empty]
    simp [refused]

variable {recipients : List String}

theorem taken_concat_none {ctx : LmtpContext σ} (passed : routed ctx recipient = none ∨
      ctx.config.maxRecipients ≤ (recipients.filterMap (routed ctx)).length) :
    taken ctx (recipients ++ [recipient]) = taken ctx recipients := by
  rw [taken, List.filterMap_append]
  obtain none_there | full := passed
  · simp [taken, none_there]
  · rw [List.take_append_of_le_length full, taken]

theorem taken_concat_some {ctx : LmtpContext σ}
    (found : routed ctx recipient = some r)
    (space : (recipients.filterMap (routed ctx)).length < ctx.config.maxRecipients) :
    taken ctx (recipients ++ [recipient]) = taken ctx recipients ++ [r] := by
  have shape : (recipients ++ [recipient]).filterMap (routed ctx) =
      recipients.filterMap (routed ctx) ++ [r] := by
    simp [List.filterMap_append, found]
  rw [taken, taken, shape, List.take_of_length_le (by rw [List.length_append]; exact space),
    List.take_of_length_le space.le]

theorem taken_prefix (ctx : LmtpContext σ) (recipients : List String) (recipient : String) :
    taken ctx recipients <+: taken ctx (recipients ++ [recipient]) := by
  rw [taken, taken, List.filterMap_append]
  exact (List.prefix_append _ _).take _

/-- No two of the recipients that are taken are one and the same for the server. -/
def Apart (ctx : LmtpContext σ) (recipients : List String) : Prop :=
  ((taken ctx recipients).map fun r => LmtpSession.seenKey r.address).Nodup

theorem Apart.of_concat {ctx : LmtpContext σ}
    (apart : Apart ctx (recipients ++ [recipient])) : Apart ctx recipients :=
  List.Nodup.sublist (( taken_prefix ctx recipients recipient).map _).sublist apart

end MailStack.Lmtp
