import MailStack.Queue.Entry

/-! Delivery status notifications: to whom a bounce goes and its text. The time, the boundary and
the id of the notification are given from outside. -/

namespace MailStack.Queue

open Lib

def sanitizeHeader (value : String) : String :=
  trim (String.ofList (value.toList.map fun c => if isControl c then ' ' else c))

/-- The address a bounce of `original` is sent to, if a bounce can be sent at all. -/
def dsnRecipient (original : QueueEntry) : Option String :=
  if original.isNullSender then none
  else
    let recipient := trim original.mailFrom
    if recipient.isEmpty ||
        recipient.toList.any fun c => c = '\r' || c = '\n' || c = '\x00' || c = ' ' then none
    else some recipient

def dsnEnvelopeFrom : String := ""

structure DsnRequest where
  reportingMta : String
  original : QueueEntry
  failedRecipients : List String
  diagnostic : String
  statusCode : Option Nat

def extendedStatus : Option Nat → String
  | some 550 => "5.1.1"
  | some 551 => "5.1.6"
  | some 552 => "5.2.2"
  | some 553 => "5.1.3"
  | some 554 => "5.0.0"
  | _ => "5.0.0"

def cteFor (text : String) : String :=
  if (bytes text).all (· < 0x80) then "7bit" else "8bit"

/-- `\r\n` read as one line end. -/
def joinCrlf : List Char → List Char
  | [] => []
  | ['\r'] => ['\r']
  | '\r' :: '\n' :: rest => '\n' :: joinCrlf rest
  | c :: rest => c :: joinCrlf rest

def normalizeCrlf (text : String) : String :=
  let joined := joinCrlf text.toList
  let lf := joined.map fun c => if c = '\r' then '\n' else c
  String.ofList (lf.flatMap fun c => if c = '\n' then ['\r', '\n'] else [c])

def line (text : String) : String := text ++ "\r\n"

/-- The lines that report on one recipient in the text part. -/
def humanLine (req : DsnRequest) (recipient : String) : String :=
  line ("    " ++ sanitizeHeader recipient ++ ": " ++ sanitizeHeader req.diagnostic)

/-- The group of fields that reports on one recipient in the status part. -/
def statusGroup (req : DsnRequest) (recipient : String) : String :=
  line ("Final-Recipient: rfc822; " ++ sanitizeHeader recipient) ++
    line "Action: failed" ++
    line ("Status: " ++ extendedStatus req.statusCode) ++
    line ("Diagnostic-Code: smtp; " ++ sanitizeHeader req.diagnostic) ++
    line ""

def dsnHeader (req : DsnRequest) (date boundary : String) : String :=
  let mta := sanitizeHeader req.reportingMta
  let recipient := sanitizeHeader ((dsnRecipient req.original).getD "")
  line ("From: Mail Delivery System <MAILER-DAEMON@" ++ mta ++ ">") ++
    line ("To: <" ++ recipient ++ ">") ++
    line "Subject: Undelivered Mail Returned to Sender" ++
    line ("Date: " ++ date) ++
    line ("Message-ID: <dsn-" ++ req.original.id ++ "@" ++ mta ++ ">") ++
    line "Auto-Submitted: auto-replied" ++
    line "MIME-Version: 1.0" ++
    line ("Content-Type: multipart/report; report-type=delivery-status; boundary=\"" ++ boundary ++
      "\"") ++
    line ""

def dsnTextPart (req : DsnRequest) (boundary : String) : String :=
  line ("--" ++ boundary) ++
    line "Content-Type: text/plain; charset=utf-8" ++
    line "Content-Transfer-Encoding: 7bit" ++
    line "" ++
    line ("This is the mail system at host " ++ sanitizeHeader req.reportingMta ++ ".") ++
    line "" ++
    line "I'm sorry to have to inform you that your message could not be delivered to one" ++
    line "or more recipients. The original message is attached below." ++
    line "" ++
    String.join (req.failedRecipients.map (humanLine req)) ++
    line ""

def dsnStatusPart (req : DsnRequest) (boundary : String) : String :=
  line ("--" ++ boundary) ++
    line "Content-Type: message/delivery-status" ++
    line "" ++
    line ("Reporting-MTA: dns; " ++ sanitizeHeader req.reportingMta) ++
    line "" ++
    String.join (req.failedRecipients.map (statusGroup req))

/-- The returned message, ended by a line end. -/
def dsnOriginalPart (req : DsnRequest) (boundary : String) : String :=
  let body := normalizeCrlf req.original.data
  line ("--" ++ boundary) ++
    line "Content-Type: message/rfc822" ++
    line ("Content-Transfer-Encoding: " ++ cteFor req.original.data) ++
    line "" ++ body ++
    if body.isEmpty || ['\r', '\n'] <:+ body.toList then "" else "\r\n"

def buildDsn (req : DsnRequest) (date boundary : String) : String :=
  dsnHeader req date boundary ++ dsnTextPart req boundary ++ dsnStatusPart req boundary ++
    dsnOriginalPart req boundary ++ line ("--" ++ boundary ++ "--")

/-- `text` reports `recipient` as failed: it has the field that names the recipient. -/
def NamesFailed (text recipient : String) : Prop :=
  (line ("Final-Recipient: rfc822; " ++ sanitizeHeader recipient)).toList <:+: text.toList

theorem infix_append_left {α : Type*} {a b : List α} (h : a <:+: b) (c : List α) :
    a <:+: b ++ c := h.trans (List.prefix_append b c).isInfix

theorem infix_append_right {α : Type*} {a b : List α} (h : a <:+: b) (c : List α) :
    a <:+: c ++ b := h.trans (List.suffix_append c b).isInfix

/-- Every recipient of the request is named in the text of the notification. -/
theorem buildDsn_names (req : DsnRequest) (date boundary recipient : String)
    (h : recipient ∈ req.failedRecipients) :
    NamesFailed (buildDsn req date boundary) recipient := by
  have group : (line ("Final-Recipient: rfc822; " ++ sanitizeHeader recipient)).toList <:+:
      (statusGroup req recipient).toList := by
    simp only [statusGroup, String.toList_append, List.append_assoc]
    exact (List.prefix_append _ _).isInfix
  have groups : (statusGroup req recipient).toList <:+:
      (String.join (req.failedRecipients.map (statusGroup req))).toList := by
    rw [String.toList_join, List.flatMap_map]
    obtain ⟨before, after, split⟩ := List.append_of_mem h
    rw [split]
    simp only [List.flatMap_append, List.flatMap_cons]
    exact ⟨_, _, List.append_assoc _ _ _⟩
  have status : (statusGroup req recipient).toList <:+: (dsnStatusPart req boundary).toList := by
    unfold dsnStatusPart
    rw [String.toList_append]
    exact infix_append_right groups _
  unfold NamesFailed buildDsn
  rw [String.toList_append, String.toList_append, String.toList_append]
  exact group.trans (infix_append_left (infix_append_left (infix_append_right status _) _) _)

end MailStack.Queue
