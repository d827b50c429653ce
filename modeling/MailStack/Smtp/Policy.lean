import MailStack.Lib.Text
import Mathlib.Data.List.Sort

/-! The relay policy of the SMTP crate: which domains are delivered to locally, what is decided for
a recipient's domain, and the route that outbound mail takes. -/

namespace MailStack.Smtp

open Lib

inductive RelayDecision
  | deliverLocal
  | relayAuthenticated
  | reject (code : Nat) (message : String)

structure RelayPolicy where
  managedDomains : List String

def rejectUnauthDestination : String :=
  "Relaying denied: not an authenticated sender and destination is not a local domain"

def rejectNoManagedDomains : String :=
  "Relaying denied: no managed domains are configured (failing closed)"

/-- `Vec::dedup`: drops an element equal to the one before it. -/
def dedupAdjacent : List String → List String
  | [] => []
  | [x] => [x]
  | x :: y :: rest =>
    if x = y then dedupAdjacent (y :: rest) else x :: dedupAdjacent (y :: rest)

def RelayPolicy.new (domains : List String) : RelayPolicy :=
  let cleaned := (domains.map fun d => toAsciiLowercase (trim d)).filter fun d => !d.isEmpty
  { managedDomains := dedupAdjacent (cleaned.insertionSort (· ≤ ·)) }

def RelayPolicy.isManaged (policy : RelayPolicy) (domain : String) : Bool :=
  let domain := toAsciiLowercase (trim domain)
  if domain.isEmpty then false else policy.managedDomains.contains domain

def RelayPolicy.evaluate (policy : RelayPolicy) (recipientDomain : String)
    (authenticated : Bool) : RelayDecision :=
  if policy.isManaged recipientDomain then .deliverLocal
  else if authenticated then .relayAuthenticated
  else if policy.managedDomains.isEmpty then .reject 554 rejectNoManagedDomains
  else .reject 554 rejectUnauthDestination

theorem RelayPolicy.evaluate_deliverLocal {policy : RelayPolicy} {domain : String}
    {authenticated : Bool} (h : policy.evaluate domain authenticated = .deliverLocal) :
    policy.isManaged domain = true := by
  by_contra unmanaged
  cases authenticated <;> by_cases none : policy.managedDomains.isEmpty = true <;>
    simp [RelayPolicy.evaluate, unmanaged, none] at h

theorem RelayPolicy.evaluate_relay {policy : RelayPolicy} {domain : String}
    {authenticated : Bool} (h : policy.evaluate domain authenticated = .relayAuthenticated) :
    authenticated = true := by
  by_contra anonymous
  by_cases managed : policy.isManaged domain = true <;>
    by_cases none : policy.managedDomains.isEmpty = true <;>
    simp [RelayPolicy.evaluate, anonymous, managed, none] at h

inductive TlsMode
  | startTls
  | implicit
deriving DecidableEq

/-- The fields of a relay endpoint that the route depends on. -/
structure RelayEndpoint where
  host : String
  port : Nat
  tlsMode : TlsMode
deriving DecidableEq

def RelayEndpoint.requiresWrappermode (endpoint : RelayEndpoint) : Bool :=
  endpoint.tlsMode == .implicit || endpoint.port == 465

inductive OutboundRoute
  | direct
  | viaRelay (host : String) (port : Nat) (wrappermode : Bool)
deriving DecidableEq

def selectOutboundRoute : Option RelayEndpoint → OutboundRoute
  | some endpoint => .viaRelay endpoint.host endpoint.port endpoint.requiresWrappermode
  | none => .direct

end MailStack.Smtp
