import MailStack.Queue.Backoff
import MailStack.Smtp.Policy

/-! What a transport returns for the recipients it was handed, and what that does to the entry: who
stays for a retry and who is given up and bounced. -/

namespace MailStack.Queue

open Lib Smtp

inductive FailureClass
  | transient
  | permanent
deriving DecidableEq

structure DeliveryFailure where
  failureClass : FailureClass
  kind : String
  message : String
  code : Option Nat
  accepted : List String
  localFault : Bool
deriving DecidableEq

structure DeliveryReceipt where
  accepted : Nat
deriving DecidableEq

inductive DeliveryTarget
  | localDelivery
  | remote (route : OutboundRoute)
deriving DecidableEq

abbrev DeliveryResult := Except DeliveryFailure DeliveryReceipt

structure EntryOutcome where
  delivered : Nat := 0
  bounced : Nat := 0
  discarded : Nat := 0
  deferred : Nat := 0
  fastFailed : Bool := false

structure PendingBounce where
  failed : List String
  diagnostic : String
  code : Option Nat

/-- The variables of a delivery round that the transports' results change. -/
structure Round where
  entry : QueueEntry
  outcome : EntryOutcome
  mutated : Bool
  pending : List PendingBounce

def Round.start (entry : QueueEntry) : Round :=
  { entry, outcome := {}, mutated := false, pending := [] }

def removeRecipients (entry : QueueEntry) (done : List String) : QueueEntry :=
  { entry with recipients := entry.recipients.filter fun r => !done.contains r }

def partition (entry : QueueEntry) (policy : RelayPolicy) : List String × List String :=
  let managed (recipient : String) : Bool :=
    policy.isManaged (((rsplitOnce '@' recipient).map Prod.snd).getD "")
  (entry.recipients.filter managed, entry.recipients.filter fun r => !managed r)

def failedOf (attempted : List String) (failure : DeliveryFailure) : List String :=
  attempted.filter fun r => !failure.accepted.contains r

def applyFailure (backoff : BackoffPolicy) (round : Round) (attempted : List String)
    (failure : DeliveryFailure) (now : Int) : Round :=
  let accepted := failure.accepted
  let round := if accepted.isEmpty then round else
    { round with
      outcome.delivered := round.outcome.delivered + accepted.length
      entry := removeRecipients round.entry accepted }
  let failed := failedOf attempted failure
  if failed.isEmpty then round else
  match failure.failureClass with
  | .permanent =>
    { round with
      entry := removeRecipients round.entry failed
      pending := round.pending ++ [⟨failed, failure.message, failure.code⟩] }
  | .transient =>
    let (entry, exhausted) := backoff.onFailure round.entry now (some failure.message) failure.code
    if exhausted then
      { round with
        entry := removeRecipients entry failed
        pending := round.pending ++ [⟨failed, failure.message, failure.code⟩] }
    else
      { round with entry, outcome.deferred := round.outcome.deferred + 1 }

/-- The recipients that every one of a full batch was accepted for leave the entry. -/
def applyReceipt (round : Round) (attempted : List String) (receipt : DeliveryReceipt) : Round :=
  { round with
    outcome.delivered := round.outcome.delivered + receipt.accepted
    entry := { removeRecipients round.entry attempted with lastError := none, lastCode := none }
    mutated := true }

/-- What the result of a call makes of the round, or `none` when the transport's count does not
match the number of recipients it was handed. -/
def applyResult (backoff : BackoffPolicy) (round : Round) (attempted : List String)
    (result : DeliveryResult) (now : Int) : Option Round :=
  match result with
  | .ok receipt =>
    if receipt.accepted ≠ attempted.length then none
    else some (applyReceipt round attempted receipt)
  | .error failure =>
    some (applyFailure backoff { round with mutated := true } attempted failure now)

end MailStack.Queue
