import MailStack.Lib.Table
import MailStack.Lib.Text
import Mathlib.Data.List.MinMax

/-! The cache of TXT records: the parsed records with their expiry, the raw texts of the DMARC
records that were added by hand, and how room is made when the cache is full. -/

namespace MailStack.Auth

open Lib

/-- What the cache uses of `mail-auth`: its records, how they are parsed, and the names that it
looks them up under. -/
structure MailAuth where
  DomainKey : Type
  Spf : Type
  Dmarc : Type
  Error : Type
  Other : Type
  parseDomainKey : List UInt8 → Except Error DomainKey
  parseSpf : List UInt8 → Except Error Spf
  parseDmarc : List UInt8 → Except Error Dmarc
  errorText : Error → String
  invalidRecordType : Error
  toFqdn : String → String

inductive Txt (M : MailAuth)
  | domainKey (key : M.DomainKey)
  | spf (spf : M.Spf)
  | dmarc (dmarc : M.Dmarc)
  | error (error : M.Error)
  | other (record : M.Other)

inductive AuthError
  | dns (text : String)

def maxTtl : Int := 3600 * 10 ^ 9

def maxEntries : Nat := 4096

variable {M : MailAuth}

abbrev CacheEntry (M : MailAuth) := Txt M × Option Int

@[ext] structure Inner (M : MailAuth) where
  entries : Table String (CacheEntry M)
  dmarcRaw : Table String String

def Inner.new : Inner M := { entries := ∅, dmarcRaw := ∅ }

/-- A reading of the clock, and the order in which the entries are gone through then. -/
structure Moment (M : MailAuth) where
  now : Int
  iter : Table String (CacheEntry M) → List (Sigma fun _ : String => CacheEntry M)
  perm : ∀ t, (iter t).Perm t.entries

/-- A victim of `enforce_capacity`, and the cache from which it is taken. -/
structure Eviction (M : MailAuth) where
  victim : String
  cache : Inner M

/-- The first half of `enforce_capacity`: expired entries go, and raw texts without an entry. -/
def Inner.sweep (now : Int) (keep : Option String) (s : Inner M) : Inner M :=
  let entries := s.entries.retain fun key e =>
    some key == keep ||
      match e.2 with
      | none => true
      | some expiry => now < expiry
  { entries, dmarcRaw := s.dmarcRaw.retain fun key _ => key ∈ entries }

def Inner.drop (s : Inner M) (key : String) : Inner M :=
  { entries := s.entries.remove key, dmarcRaw := s.dmarcRaw.remove key }

def Moment.expiring (m : Moment M) (keep : Option String) (s : Inner M) : List (String × Int) :=
  (m.iter s.entries).filterMap fun e =>
    if some e.1 = keep then none else e.2.2.map fun expiry => (e.1, expiry)

/-- The entry that expires first, or else any. -/
def Moment.victim (m : Moment M) (keep : Option String) (s : Inner M) : Option String :=
  match @List.argmin _ Int Int.instLinearOrder.toPreorder _ (fun e => e.2) (m.expiring keep s) with
  | some (key, _) => some key
  | none => ((m.iter s.entries).find? fun e => some e.1 ≠ keep).map (·.1)

/-- The second half: victims are taken while there is no room for one more entry. -/
def Moment.evict (m : Moment M) (keep : Option String) : Nat → Inner M → List (Eviction M) × Inner M
  | 0, s => ([], s)
  | fuel + 1, s =>
    if maxEntries - 1 < s.entries.size then
      match m.victim keep s with
      | some victim =>
        let (evicted, rest) := m.evict keep fuel (s.drop victim)
        (⟨victim, s⟩ :: evicted, rest)
      | none => ([], s)
    else ([], s)

/-- What is evicted, and the cache after it. Each victim is an entry less, so that the entries are
enough fuel. -/
def Moment.enforceCapacity (m : Moment M) (keep : Option String) (s : Inner M) :
    List (Eviction M) × Inner M :=
  let s := s.sweep m.now keep
  m.evict keep s.entries.size s

def Moment.store (m : Moment M) (name : String) (value : Txt M) (raw : Option String)
    (s : Inner M) :
    List (Eviction M) × Inner M :=
  let key := M.toFqdn name
  let (evicted, s) := m.enforceCapacity (some key) s
  (evicted,
    { entries := s.entries.put key (value, none)
      dmarcRaw :=
        match raw with
        | some raw => s.dmarcRaw.put key raw
        | none => s.dmarcRaw.remove key })

def Moment.storeIfAbsent (m : Moment M) (name : String) (value : Txt M) (s : Inner M) :
    List (Eviction M) × Inner M :=
  let key := M.toFqdn name
  if key ∈ s.entries then ([], s)
  else
    let (evicted, s) := m.enforceCapacity (some key) s
    (evicted, { s with entries := s.entries.put key (value, none) })

def dnsError {α : Type} : Except M.Error α → Except AuthError α :=
  Except.mapError fun error => .dns (M.errorText error)

def Moment.addDomainKey (m : Moment M) (name : String) (record : List UInt8) (s : Inner M) :
    Except AuthError (List (Eviction M) × Inner M) := do
  let parsed ← dnsError (M.parseDomainKey record)
  pure (m.store name (.domainKey parsed) none s)

def Moment.addSpf (m : Moment M) (name : String) (record : List UInt8) (s : Inner M) :
    Except AuthError (List (Eviction M) × Inner M) := do
  let parsed ← dnsError (M.parseSpf record)
  pure (m.store name (.spf parsed) none s)

def Moment.addDmarc (m : Moment M) (name : String) (record : List UInt8) (s : Inner M) :
    Except AuthError (List (Eviction M) × Inner M) := do
  let parsed ← dnsError (M.parseDmarc record)
  let raw := fromUtf8Lossy record
  pure (m.store name (.dmarc parsed) (some raw) s)

def Moment.pinAbsent (m : Moment M) (name : String) (s : Inner M) : List (Eviction M) × Inner M :=
  m.storeIfAbsent name (.error M.invalidRecordType) s

def labels (domain : String) : List String :=
  (((trimMatches '.' domain).toList.splitOn '.').filter (· ≠ [])).map String.ofList

def dmarcName (labels : List String) (start : Nat) : String :=
  "_dmarc." ++ ".".intercalate (labels.drop start)

/-- The names are pinned one after the other, each at a moment of its own. -/
def pinNames : List (Moment M × String) → Inner M → List (Eviction M) × Inner M
  | [], s => ([], s)
  | (m, name) :: rest, s =>
    let (evicted, s) := m.pinAbsent name s
    let (more, s) := pinNames rest s
    (evicted ++ more, s)

def Inner.pinDmarcWalk (s : Inner M) (moments : Nat → Moment M) (fromDomain : String) :
    List (Eviction M) × Inner M :=
  let labels := labels fromDomain
  pinNames ((List.range' 1 (labels.length - 1)).map fun start =>
    (moments start, dmarcName labels start)) s

/-- The names that `raw_dmarc_record` looks under, the nearest first. -/
def labelWalk (M : MailAuth) (domain : String) : List String :=
  let labels := labels domain
  (List.range (labels.length - 1)).map fun start => M.toFqdn (dmarcName labels start)

def Inner.rawDmarcRecord (s : Inner M) (domain : String) : Option String :=
  if (labels domain).length < 2 then none
  else (labelWalk M domain).findSome? fun key =>
    match s.dmarcRaw.get key with
    | some raw => if key ∈ s.entries then some raw else none
    | none => none

def Inner.get (s : Inner M) (now : Int) (key : String) : Option (Txt M) × Inner M :=
  match s.entries.get key with
  | none => (none, s)
  | some (value, expiry) =>
    let expired :=
      match expiry with
      | some expiry => decide (expiry ≤ now)
      | none => false
    if expired then (none, s.drop key) else (some value, s)

def Inner.remove (s : Inner M) (key : String) : Option (Txt M) × Inner M :=
  match s.entries.get key with
  | none => (none, { s with entries := s.entries.remove key })
  | some (value, _) => (some value, s.drop key)

/-- `stamp` is the second reading of the clock. -/
def Moment.insert (m : Moment M) (stamp : Int) (key : String) (value : Txt M) (validUntil : Int)
    (s : Inner M) : List (Eviction M) × Inner M :=
  let (evicted, s) := m.enforceCapacity (some key) s
  let expiry := some (min validUntil (stamp + maxTtl))
  (evicted, { entries := s.entries.put key (value, expiry), dmarcRaw := s.dmarcRaw.remove key })

inductive Call (M : MailAuth)
  | addDomainKey (name : String) (record : List UInt8)
  | addSpf (name : String) (record : List UInt8)
  | addDmarc (name : String) (record : List UInt8)
  | pinAbsent (name : String)
  | pinDmarcWalk (fromDomain : String)
  | get (key : String)
  | remove (key : String)
  | insert (key : String) (value : Txt M) (validUntil : Int)

/-- A rejected record changes nothing. -/
def unlessRejected (s : Inner M) :
    Except AuthError (List (Eviction M) × Inner M) → List (Eviction M) × Inner M
  | .ok result => result
  | .error _ => ([], s)

/-- The moments are those of the call, one after the other. -/
def Call.run (moments : Nat → Moment M) (s : Inner M) : Call M → List (Eviction M) × Inner M
  | .addDomainKey name record => unlessRejected s ((moments 0).addDomainKey name record s)
  | .addSpf name record => unlessRejected s ((moments 0).addSpf name record s)
  | .addDmarc name record => unlessRejected s ((moments 0).addDmarc name record s)
  | .pinAbsent name => (moments 0).pinAbsent name s
  | .pinDmarcWalk fromDomain => s.pinDmarcWalk moments fromDomain
  | .get key => ([], (s.get (moments 0).now key).2)
  | .remove key => ([], (s.remove key).2)
  | .insert key value validUntil => (moments 0).insert (moments 1).now key value validUntil s

end MailStack.Auth
