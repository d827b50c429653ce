import MailStack.Lib.Table
import MailStack.Lib.Word

/-! The list of the peers that the server bans: those that fail too often, for a time or for ever,
and those that a file lists. -/

namespace MailStack.Smtpd

open Lib

inductive IpAddr
  | v4 (bits : BitVec 32)
  | v6 (bits : BitVec 128)

namespace IpAddr

def unspecified : IpAddr := .v4 0

def toIpv4Mapped (bits : BitVec 128) : Option (BitVec 32) :=
  if bits >>> 32 = 0xffff then some (bits.truncate 32) else none

/-- An IPv4 address comes before an IPv6 address. -/
def le : IpAddr → IpAddr → Bool
  | .v4 a, .v4 b => a ≤ b
  | .v4 _, .v6 _ => true
  | .v6 _, .v4 _ => false
  | .v6 a, .v6 b => a ≤ b

end IpAddr

inductive PeerKey
  | v4 (bits : BitVec 32)
  | v6 (bits : BitVec 128)
deriving DecidableEq

/-- Of an IPv6 address that is no IPv4 address only the first half counts. -/
def PeerKey.fromIp : IpAddr → PeerKey
  | .v4 bits => .v4 bits
  | .v6 bits =>
    match IpAddr.toIpv4Mapped bits with
    | some mapped => .v4 mapped
    | none => .v6 (bits >>> 64 <<< 64)

structure BanConfig where
  maxFailures : Nat
  windowSecs : Int
  tempBanSecs : Int
  permanentAfter : Nat
  maxEntries : Nat
  windowSecs_le : windowSecs ≤ i64Max

def BanConfig.clamp (config : BanConfig) : BanConfig where
  maxFailures := max config.maxFailures 1
  windowSecs := max config.windowSecs 1
  tempBanSecs := max config.tempBanSecs 1
  permanentAfter := config.permanentAfter
  maxEntries := max config.maxEntries 1
  windowSecs_le := max_le config.windowSecs_le (by decide)

structure Ban where
  ip : IpAddr
  untilUnix : Option Int
  permanent : Bool
  strikes : Nat
  failures : Nat
  manual : Bool

namespace Ban

structure Entry where
  failures : List Int
  strikes : Nat
  bannedUntil : Option Int
  permanent : Bool
  manual : Bool
  lastSeen : Int
  lastIp : Option IpAddr

namespace Entry

def fresh : Entry :=
  { failures := [], strikes := 0, bannedUntil := none, permanent := false, manual := false
    lastSeen := 0, lastIp := none }

variable (entry : Entry)

def toBan (ip : IpAddr) : Ban :=
  { ip := entry.lastIp.getD ip
    untilUnix := entry.bannedUntil
    permanent := entry.permanent
    strikes := entry.strikes
    failures := entry.failures.length
    manual := entry.manual }

def running (now : Int) : Bool := entry.bannedUntil.any fun limit => limit > now

def expired (now : Int) : Bool := entry.bannedUntil.any fun limit => limit ≤ now

/-- A ban that is over is forgotten, with the failures before it. -/
def endBan (now : Int) : Entry :=
  if !entry.permanent && entry.expired now then { entry with bannedUntil := none, failures := [] }
  else entry

/-- `active_ban`, after which the entry is `endBan`. -/
def activeBan (ip : IpAddr) (now : Int) : Option Ban :=
  if entry.permanent || entry.running now then some (entry.toBan ip) else none

/-- The part of `record_failure` where the peer is not banned. -/
def countFailure (config : BanConfig) (now : Int) : Entry :=
  let kept := entry.failures.filter fun time => clampI64 (now - time) < config.windowSecs
  let failures := kept ++ [now]
  if failures.length < config.maxFailures then { entry with failures }
  else
    let strikes := satAdd u32Max entry.strikes 1
    let permanent := decide (config.permanentAfter > 0 ∧ strikes ≥ config.permanentAfter)
    { entry with
      failures := []
      strikes
      permanent
      bannedUntil := if permanent then none else some (clampI64 (now + config.tempBanSecs)) }

/-- Whether `countFailure` bans. -/
def reaches (config : BanConfig) (now : Int) : Bool :=
  config.maxFailures ≤
    (entry.failures.filter fun time => clampI64 (now - time) < config.windowSecs).length + 1

def touch (ip : IpAddr) (now : Int) : Entry := { entry with lastSeen := now, lastIp := some ip }

/-- A failure of the peer, with the ban that is reported. -/
def record (config : BanConfig) (ip : IpAddr) (now : Int) : Option Ban × Entry :=
  let entry := entry.touch ip now
  if entry.permanent || entry.running now then (some (entry.toBan ip), entry)
  else
    let counted := (entry.endBan now).countFailure config now
    (if (entry.endBan now).reaches config now then some (counted.toBan ip) else none, counted)

def markManual (ip : IpAddr) : Entry :=
  { entry with
    lastIp := some ip, manual := true, permanent := true, bannedUntil := none, failures := [] }

end Entry

abbrev Entries := Table PeerKey Entry

/-- An order in which the entries are gone through. -/
structure Iteration where
  entries : Entries → List (Sigma fun _ : PeerKey => Entry)
  perm : ∀ entries' : Entries, (entries entries').Perm entries'.entries

/-- The peers that `evict` removes first are those without failures that count, then those that were
seen longest ago. -/
def candidates (iteration : Iteration) (now : Int) (entries : Entries) :
    List (PeerKey × Int × Nat) :=
  ((iteration.entries entries).filter fun e =>
    !e.2.permanent && !e.2.manual && (e.2.bannedUntil.all fun limit => limit ≤ now)).map fun e =>
      (e.1, e.2.lastSeen, if !e.2.expired now && !e.2.failures.isEmpty then 1 else 0)

/-- The entries that are left, and whether there is room for one more. -/
def evict (iteration : Iteration) (maxEntries : Nat) (now : Int) (entries : Entries) :
    Entries × Bool :=
  let kept := entries.retain fun _ entry =>
    entry.permanent || entry.manual || entry.running now || !entry.failures.isEmpty
  if kept.size < maxEntries then (kept, true)
  else
    let sorted := (candidates iteration now kept).mergeSort fun a b =>
      a.2.2 < b.2.2 || a.2.2 = b.2.2 && a.2.1 ≤ b.2.1
    let victims := sorted.take (kept.size - (maxEntries - 1))
    let left := (victims.map (·.1)).foldl (fun t key => t.remove key) kept
    (left, left.size < maxEntries)

end Ban

structure ManualBanDiff where
  added : List IpAddr
  removed : List IpAddr

structure BanList where
  config : BanConfig
  entries : Ban.Entries

namespace BanList

open Ban

def new (config : BanConfig) : BanList := { config := config.clamp, entries := ∅ }

variable (list : BanList)

def check (ip : IpAddr) (now : Int) : Option Ban × BanList :=
  match list.entries.get (.fromIp ip) with
  | none => (none, list)
  | some entry =>
    (entry.activeBan ip now,
      { list with entries := list.entries.put (.fromIp ip) (entry.endBan now) })

def banned (now : Int) : List Ban × BanList :=
  (list.entries.entries.filterMap fun e =>
      e.2.activeBan (e.2.lastIp.getD .unspecified) now,
    { list with entries := list.entries.mapValues fun entry => entry.endBan now })

/-- `record_failure` once there is room for the peer. -/
def recordIn (ip : IpAddr) (now : Int) : Option Ban × BanList :=
  let recorded := ((list.entries.get (.fromIp ip)).getD .fresh).record list.config ip now
  (recorded.1, { list with entries := list.entries.put (.fromIp ip) recorded.2 })

def recordFailure (iteration : Iteration) (ip : IpAddr) (now : Int) : Option Ban × BanList :=
  if list.entries.size ≥ list.config.maxEntries ∧ (list.entries.get (.fromIp ip)).isNone then
    let (entries, freed) := evict iteration list.config.maxEntries now list.entries
    if !freed then (none, { list with entries })
    else ({ list with entries } : BanList).recordIn ip now
  else list.recordIn ip now

/-- The addresses by their peers; of two of one peer the later one. -/
def wanted (ips : List IpAddr) : Table PeerKey IpAddr :=
  ips.foldl (fun t ip => t.put (.fromIp ip) ip) ∅

def applyManual (ips : List IpAddr) : ManualBanDiff × BanList :=
  let wanted := wanted ips
  let stale (key : PeerKey) (entry : Entry) : Bool := entry.manual && (wanted.get key).isNone
  let removed := (list.entries.entries.filter fun e => stale e.1 e.2).map fun e =>
    e.2.lastIp.getD .unspecified
  let kept := list.entries.retain fun key entry => !stale key entry
  let added := (wanted.entries.filter fun e => !((kept.get e.1).getD .fresh).manual).map (·.2)
  ({ added := added.mergeSort IpAddr.le, removed := removed.mergeSort IpAddr.le },
    { list with
      entries := wanted.entries.foldl
        (fun t e => t.update e.1 .fresh fun entry => entry.markManual e.2) kept })

end BanList

end MailStack.Smtpd
