import MailStack.Auth.TxtCache

/-! What the cache of TXT records keeps over its calls: its bound, which raw text belongs to which
DMARC record, what is evicted for a new record, and from that when `raw_dmarc_record` gives the text
of the nearest record. -/

namespace MailStack.Auth

open Lib

variable {M : MailAuth} {raw : Table String String} {victim : String}

/-! ### What evictions take -/

def Inner.Expiring (s : Inner M) (key : String) : Prop :=
  ∃ value expiry, s.entries.get key = some (value, some expiry)

def Inner.Added (s : Inner M) (key : String) : Prop :=
  ∃ value, s.entries.get key = some (value, none)

variable {m : Moment M} {keep : Option String} {s t : Inner M} {key : String}

theorem Inner.Added.not_expiring (added : s.Added key) : ¬s.Expiring key := by
  rintro ⟨value, expiry, expiring⟩
  obtain ⟨other, found⟩ := added
  rw [found] at expiring
  cases expiring

theorem Moment.mem_expiring {expiry : Int} :
    (key, expiry) ∈ m.expiring keep s ↔
      some key ≠ keep ∧ ∃ value, s.entries.get key = some (value, some expiry) := by
  rw [expiring, List.mem_filterMap]
  constructor
  · rintro ⟨⟨k, value, e⟩, inside, eq⟩
    split at eq
    · cases eq
    · obtain ⟨expiry', some_, pair⟩ := Option.map_eq_some_iff.mp eq
      cases pair
      subst some_
      exact ⟨‹_›, value, Table.get_eq_some_iff.mpr ((m.perm _).mem_iff.mp inside)⟩
  · rintro ⟨other, value, found⟩
    refine ⟨⟨key, value, some expiry⟩, (m.perm _).mem_iff.mpr (Table.get_eq_some_iff.mp found), ?_⟩
    rw [if_neg other]
    rfl

theorem Moment.victim_eq_some (chosen : m.victim keep s = some victim) :
    some victim ≠ keep ∧ victim ∈ s.entries ∧
      (s.Added victim → ∀ k, s.Expiring k → some k = keep) := by
  rw [Moment.victim] at chosen
  split at chosen
  case h_1 k expiry least =>
    cases chosen
    obtain ⟨other, value, found⟩ := mem_expiring.mp (List.argmin_mem least)
    exact ⟨other, Table.mem_of_get found,
      fun added => absurd ⟨value, expiry, found⟩ added.not_expiring⟩
  case h_2 none =>
    obtain ⟨⟨k, e⟩, found, rfl⟩ := Option.map_eq_some_iff.mp chosen
    have other : some k ≠ keep := by simpa using List.find?_some found
    have inside := (m.perm _).mem_iff.mp (List.mem_of_find?_eq_some found)
    refine ⟨other, Table.mem_of_get (Table.get_eq_some_iff.mpr inside), fun _ k' => ?_⟩
    rintro ⟨value, expiry, expiring⟩
    by_contra free
    have mem : (k', expiry) ∈ m.expiring keep s := mem_expiring.mpr ⟨free, value, expiring⟩
    rw [List.argmin_eq_none.mp none] at mem
    cases mem

theorem Moment.victim_eq_none (alone : m.victim keep s = none) (present : key ∈ s.entries) :
    some key = keep := by
  rw [Moment.victim] at alone
  split at alone
  case h_1 => cases alone
  case h_2 =>
    obtain ⟨e, found⟩ := Option.isSome_iff_exists.mp (AList.lookup_isSome.mpr present)
    have inside := (m.perm _).mem_iff.mpr (Table.get_eq_some_iff.mp found)
    by_contra other
    have := List.find?_eq_none.mp (Option.map_eq_none_iff.mp alone) _ inside
    simp [other] at this

variable {fuel : Nat}

theorem Moment.evict_induction {P : Inner M → Prop} (start : P s)
    (step : ∀ s victim, P s → m.victim keep s = some victim → P (s.drop victim)) :
    P (m.evict keep fuel s).2 ∧
      ∀ e ∈ (m.evict keep fuel s).1, P e.cache ∧ m.victim keep e.cache = some e.victim ∧
        maxEntries - 1 < e.cache.entries.size := by
  induction fuel generalizing s with
  | zero => exact ⟨start, fun e mem => nomatch mem⟩
  | succ fuel ih =>
    rw [evict]
    split
    case isFalse => exact ⟨start, fun e mem => nomatch mem⟩
    case isTrue full =>
      split
      case h_2 => exact ⟨start, fun e mem => nomatch mem⟩
      case h_1 victim chosen =>
        obtain ⟨last, all⟩ := ih (step s victim start chosen)
        refine ⟨last, fun e mem => ?_⟩
        rcases List.mem_cons.mp mem with rfl | later
        · exact ⟨start, chosen, full⟩
        · exact all e later

theorem Moment.size_evict (enough : s.entries.size ≤ fuel) :
    (m.evict keep fuel s).2.entries.size ≤ maxEntries - 1 := by
  induction fuel generalizing s with
  | zero =>
    show s.entries.size ≤ _
    omega
  | succ fuel ih =>
    rw [evict]
    split
    case isFalse room => exact Nat.not_lt.mp room
    case isTrue =>
      split
      case h_1 victim chosen =>
        apply ih
        have less := Table.size_remove_of_mem (victim_eq_some chosen).2.1
        show (s.entries.remove victim).size ≤ fuel
        omega
      case h_2 alone =>
        -- at most the entry to keep is left
        have le : s.entries.size ≤ keep.toList.length :=
          Table.size_le_length fun k present => by simp [victim_eq_none alone present]
        have short : keep.toList.length ≤ 1 := by cases keep <;> simp
        show s.entries.size ≤ 4096 - 1
        omega

/-! ### What is left of the cache -/

/-- Under each name the cache has what it had, or neither an entry nor a raw text. -/
def Inner.Reduced (s t : Inner M) : Prop :=
  ∀ key, (t.entries.get key = s.entries.get key ∧ t.dmarcRaw.get key = s.dmarcRaw.get key) ∨
    (t.entries.get key = none ∧ t.dmarcRaw.get key = none)

theorem Inner.Reduced.refl (s : Inner M) : s.Reduced s := fun _ => .inl ⟨rfl, rfl⟩

theorem Inner.Reduced.drop (reduced : s.Reduced t) (name : String) : s.Reduced (t.drop name) := by
  intro key
  by_cases here : key = name
  · subst here
    exact .inr ⟨Table.get_remove, Table.get_remove⟩
  · show ((t.entries.remove name).get key = _ ∧ (t.dmarcRaw.remove name).get key = _) ∨
      ((t.entries.remove name).get key = _ ∧ (t.dmarcRaw.remove name).get key = _)
    rw [Table.get_remove_ne here, Table.get_remove_ne here]
    exact reduced key

variable {now : Int}

theorem Inner.get_sweep : (s.sweep now keep).entries.get key = s.entries.get key ∨
    (s.sweep now keep).entries.get key = none ∧ some key ≠ keep ∧ ¬s.Added key := by
  show (Table.retain _ s.entries).get key = _ ∨ (Table.retain _ s.entries).get key = _ ∧ _
  rw [Table.get_retain]
  cases found : s.entries.get key with
  | none => exact .inl rfl
  | some e =>
    obtain ⟨value, expiry⟩ := e
    by_cases spared : some key = keep ∨ expiry = none
    · left
      rcases spared with rfl | rfl <;> simp [Option.filter]
    · obtain ⟨other, some_⟩ := not_or.mp spared
      obtain ⟨expiry, rfl⟩ := Option.ne_none_iff_exists'.mp some_
      by_cases live : now < expiry
      · exact .inl (by simp [Option.filter, live])
      · refine .inr ⟨by simp [Option.filter, live, other], other, ?_⟩
        intro added
        exact added.not_expiring ⟨value, expiry, found⟩

theorem Inner.reduced_sweep (now : Int) : s.Reduced (s.sweep now keep) := by
  intro key
  have raw : (s.sweep now keep).dmarcRaw.get key =
      (s.dmarcRaw.get key).filter fun _ => key ∈ (s.sweep now keep).entries := Table.get_retain
  rw [raw]
  cases left : (s.sweep now keep).entries.get key with
  | none =>
    have absent : key ∉ (s.sweep now keep).entries := Table.get_eq_none_iff.mp left
    exact .inr ⟨rfl, by cases s.dmarcRaw.get key <;> simp [Option.filter, absent]⟩
  | some e =>
    have present : key ∈ (s.sweep now keep).entries := Table.mem_of_get left
    refine .inl ⟨?_, by cases s.dmarcRaw.get key <;> simp [Option.filter, present]⟩
    have entry : (s.sweep now keep).entries.get key = s.entries.get key ∨ _ := get_sweep
    rcases entry with same | ⟨gone, -⟩
    · rw [← left, same]
    · rw [left] at gone
      cases gone

theorem Moment.reduced_enforceCapacity : s.Reduced (m.enforceCapacity keep s).2 := by
  show s.Reduced (m.evict keep _ (s.sweep m.now keep)).2
  exact (evict_induction (Inner.reduced_sweep m.now) fun _ victim reduced _ => reduced.drop victim).1

theorem Moment.size_enforceCapacity :
    (m.enforceCapacity keep s).2.entries.size ≤ maxEntries - 1 :=
  size_evict le_rfl

/-! ### The raw texts -/

abbrev Records := String → Option (List UInt8)

variable {last later : Records}

/-- A raw text is that of the record which was last added under its name and is in the cache, and no
DMARC record that was added is without one. -/
structure Inner.Twin (last : Records) (s : Inner M) (key : String) : Prop where
  record : ∀ text, s.dmarcRaw.get key = some text → ∃ record parsed, last key = some record ∧
    fromUtf8Lossy record = text ∧ M.parseDmarc record = .ok parsed ∧
      s.entries.get key = some (.dmarc parsed, none)
  raw : ∀ parsed, s.entries.get key = some (.dmarc parsed, none) → (s.dmarcRaw.get key).isSome

theorem Inner.Twin.congr (twin : s.Twin last key) (entry : t.entries.get key = s.entries.get key)
    (raw : t.dmarcRaw.get key = s.dmarcRaw.get key) (same : later key = last key) :
    t.Twin later key :=
  ⟨by rw [raw, entry, same]; exact twin.record, by rw [raw, entry]; exact twin.raw⟩

theorem Inner.Twin.of_raw_none (raw : t.dmarcRaw.get key = none)
    (entry : ∀ parsed, t.entries.get key ≠ some (.dmarc parsed, none)) : t.Twin last key :=
  ⟨fun text found => absurd (raw.symm.trans found) (by simp),
    fun parsed found => absurd found (entry parsed)⟩

theorem Inner.Twin.reduce (twin : s.Twin last key) (reduced : s.Reduced t) : t.Twin last key := by
  rcases reduced key with ⟨entry, raw⟩ | ⟨entry, raw⟩
  · exact twin.congr entry raw rfl
  · exact .of_raw_none raw fun parsed found => by rw [entry] at found; cases found

variable {entry : CacheEntry M}

theorem Inner.Twin.put
    (twin : ∀ k, s.Twin last k) (reduced : s.Reduced t)
    (others : ∀ k, k ≠ key → raw.get k = t.dmarcRaw.get k ∧ later k = last k)
    (here : ({ entries := t.entries.put key entry, dmarcRaw := raw } : Inner M).Twin later key)
    (k : String) :
    ({ entries := t.entries.put key entry, dmarcRaw := raw } : Inner M).Twin later k := by
  by_cases same : k = key
  · rw [same]
    exact here
  · obtain ⟨raws, records⟩ := others k same
    exact ((twin k).reduce reduced).congr (Table.get_put_ne same) raws records

theorem Inner.Twin.put_plain
    (twin : ∀ k, s.Twin last k) (reduced : s.Reduced t)
    (others : ∀ k, k ≠ key → raw.get k = t.dmarcRaw.get k) (here : raw.get key = none)
    (plain : ∀ parsed, entry ≠ (.dmarc parsed, none)) (k : String) :
    ({ entries := t.entries.put key entry, dmarcRaw := raw } : Inner M).Twin last k := by
  apply Inner.Twin.put twin reduced fun k ne => ⟨others k ne, rfl⟩
  apply Inner.Twin.of_raw_none here
  intro parsed found
  have entry_eq : some entry = some (.dmarc parsed, none) := Table.get_put.symm.trans found
  exact plain parsed (Option.some.inj entry_eq)

theorem Inner.Twin.mem_entries (twin : s.Twin last key) {text : String}
    (raw : s.dmarcRaw.get key = some text) : key ∈ s.entries := by
  obtain ⟨record, parsed, -, -, -, found⟩ := twin.record text raw
  exact Table.mem_of_get found

theorem Inner.Reduced.raw_eq_none (reduced : s.Reduced t) (raw : s.dmarcRaw.get key = none) :
    t.dmarcRaw.get key = none := by
  rcases reduced key with ⟨-, same⟩ | ⟨-, gone⟩
  · rw [same, raw]
  · exact gone

variable {name : String} {value : Txt M}

theorem Moment.twin_store (twin : ∀ k, s.Twin last k)
    (other : ∀ parsed, value ≠ .dmarc parsed)
    (k : String) : (m.store name value none s).2.Twin last k :=
  Inner.Twin.put_plain twin reduced_enforceCapacity (fun _ ne => Table.get_remove_ne ne)
    Table.get_remove
    (fun parsed eq => other parsed (Prod.mk.inj eq).1) k

theorem Moment.twin_store_dmarc {record : List UInt8} {parsed : M.Dmarc}
    (twin : ∀ k, s.Twin last k) (accepted : M.parseDmarc record = .ok parsed) (k : String) :
    (m.store name (.dmarc parsed) (some (fromUtf8Lossy record)) s).2.Twin
      (Function.update last (M.toFqdn name) (some record)) k := by
  apply Inner.Twin.put twin reduced_enforceCapacity
  · exact fun k ne => ⟨Table.get_put_ne ne, Function.update_of_ne ne _ _⟩
  · refine ⟨fun text found => ⟨record, parsed, Function.update_self _ _ _, ?_, accepted, Table.get_put⟩,
      fun _ _ => Option.isSome_of_eq_some Table.get_put⟩
    exact Option.some.inj (Table.get_put.symm.trans found)

theorem Moment.twin_pinAbsent (twin : ∀ k, s.Twin last k) (k : String) :
    (m.pinAbsent name s).2.Twin last k := by
  rw [pinAbsent, storeIfAbsent]
  split
  case isTrue => exact twin k
  case isFalse absent =>
    have none : s.dmarcRaw.get (M.toFqdn name) = none := by
      by_contra some_
      obtain ⟨text, raw⟩ := Option.ne_none_iff_exists'.mp some_
      exact absent ((twin _).mem_entries raw)
    apply Inner.Twin.put_plain twin reduced_enforceCapacity (fun _ _ => rfl)
    · exact reduced_enforceCapacity.raw_eq_none none
    · intro parsed eq
      cases (Prod.mk.inj eq).1

variable {names : List (Moment M × String)}

theorem twin_pinNames (twin : ∀ k, s.Twin last k) (k : String) :
    (pinNames names s).2.Twin last k := by
  induction names generalizing s with
  | nil => exact twin k
  | cons name rest ih => exact ih fun k => name.1.twin_pinAbsent twin k

theorem Inner.twin_get (twin : ∀ k, s.Twin last k) (k : String) :
    (s.get now key).2.Twin last k := by
  rw [get]
  split
  case h_1 => exact twin k
  case h_2 expiry found =>
    rw [apply_ite Prod.snd]
    split_ifs
    · exact (twin k).reduce ((Reduced.refl s).drop key)
    · exact twin k

theorem Inner.twin_remove (twin : ∀ k, s.Twin last k)
    (k : String) : (s.remove key).2.Twin last k := by
  rw [remove]
  split
  case h_1 absent =>
    -- there is nothing to remove
    refine (twin k).congr ?_ rfl rfl
    by_cases here : k = key
    · rw [here, absent]
      exact Table.get_remove
    · exact Table.get_remove_ne here
  case h_2 => exact (twin k).reduce ((Reduced.refl s).drop key)

theorem Moment.twin_insert {stamp validUntil : Int} (twin : ∀ k, s.Twin last k)
    (k : String) : (m.insert stamp key value validUntil s).2.Twin last k := by
  rw [insert]
  apply Inner.Twin.put_plain twin reduced_enforceCapacity fun _ ne => Table.get_remove_ne ne
  · exact Table.get_remove
  · intro parsed eq
    cases (Prod.mk.inj eq).2

/-! ### Runs of calls -/

/-- What `add_dmarc` accepts is the last record under its name. -/
def Call.note (last : Records) : Call M → Records
  | .addDmarc name record =>
    match M.parseDmarc record with
    | .ok _ => Function.update last (M.toFqdn name) (some record)
    | .error _ => last
  | _ => last

variable {call : Call M} {moments : Nat → Moment M}

theorem unlessRejected_bind {α : Type} {parsed : Except M.Error α}
    {f : α → List (Eviction M) × Inner M} :
    unlessRejected s (do
      let parsed ← dnsError parsed
      pure (f parsed)) =
      match parsed with
      | .ok parsed => f parsed
      | .error _ => ([], s) := by
  cases parsed <;> rfl

theorem Call.twin_run (twin : ∀ k, s.Twin last k) (k : String) :
    (call.run moments s).2.Twin (call.note last) k := by
  cases call with
  | addDomainKey name record =>
    rw [run, Moment.addDomainKey, unlessRejected_bind]
    cases M.parseDomainKey record with
    | ok parsed => exact Moment.twin_store twin (fun _ eq => by cases eq) k
    | error => exact twin k
  | addSpf name record =>
    rw [run, Moment.addSpf, unlessRejected_bind]
    cases M.parseSpf record with
    | ok parsed => exact Moment.twin_store twin (fun _ eq => by cases eq) k
    | error => exact twin k
  | addDmarc name record =>
    rw [run, Moment.addDmarc, unlessRejected_bind, note]
    cases accepted : M.parseDmarc record with
    | ok parsed => exact Moment.twin_store_dmarc twin accepted k
    | error => exact twin k
  | pinAbsent name => exact Moment.twin_pinAbsent twin k
  | pinDmarcWalk fromDomain =>
    rw [run, Inner.pinDmarcWalk]
    exact twin_pinNames twin k
  | get key =>
    show (s.get _ key).2.Twin last k
    exact Inner.twin_get twin k
  | remove key =>
    show (s.remove key).2.Twin last k
    exact Inner.twin_remove twin k
  | insert key value validUntil =>
    show ((moments 0).insert _ key value validUntil s).2.Twin last k
    exact Moment.twin_insert twin k

/-! ### The bound -/

theorem Moment.size_put_enforceCapacity :
    ((m.enforceCapacity keep s).2.entries.put key entry).size ≤ maxEntries :=
  Table.size_put_le.trans (Nat.succ_le_succ size_enforceCapacity)

theorem Moment.size_pinAbsent_le (le : s.entries.size ≤ maxEntries) :
    (m.pinAbsent name s).2.entries.size ≤ maxEntries := by
  rw [pinAbsent, storeIfAbsent]
  split
  case isTrue => exact le
  case isFalse => exact size_put_enforceCapacity

theorem size_pinNames_le (le : s.entries.size ≤ maxEntries) :
    (pinNames names s).2.entries.size ≤ maxEntries := by
  induction names generalizing s with
  | nil => exact le
  | cons name rest ih => exact ih (name.1.size_pinAbsent_le le)

theorem Call.size_run_le (le : s.entries.size ≤ maxEntries) :
    (call.run moments s).2.entries.size ≤ maxEntries := by
  cases call with
  | addDomainKey name record =>
    rw [run, Moment.addDomainKey, unlessRejected_bind]
    cases M.parseDomainKey record with
    | ok parsed => exact Moment.size_put_enforceCapacity
    | error => exact le
  | addSpf name record =>
    rw [run, Moment.addSpf, unlessRejected_bind]
    cases M.parseSpf record with
    | ok parsed => exact Moment.size_put_enforceCapacity
    | error => exact le
  | addDmarc name record =>
    rw [run, Moment.addDmarc, unlessRejected_bind]
    cases M.parseDmarc record with
    | ok parsed => exact Moment.size_put_enforceCapacity
    | error => exact le
  | pinAbsent name => exact Moment.size_pinAbsent_le le
  | pinDmarcWalk fromDomain =>
    rw [run, Inner.pinDmarcWalk]
    exact size_pinNames_le le
  | get key =>
    rw [run, Inner.get]
    split
    case h_1 => exact le
    case h_2 =>
      rw [apply_ite Prod.snd]
      split_ifs
      · exact Table.size_remove_le.trans le
      · exact le
  | remove key =>
    rw [run, Inner.remove]
    split <;> exact Table.size_remove_le.trans le
  | insert => exact Moment.size_put_enforceCapacity

def afterCalls : List (Call M × (Nat → Moment M)) → Inner M :=
  List.foldl (fun s call => (call.1.run call.2 s).2) Inner.new

def lastRecords : List (Call M × (Nat → Moment M)) → Records :=
  List.foldl (fun last call => call.1.note last) fun _ => none

variable {calls : List (Call M × (Nat → Moment M))}

theorem twin_afterCalls (k : String) : (afterCalls calls).Twin (lastRecords calls) k := by
  induction calls using List.reverseRecOn generalizing k with
  | nil => exact .of_raw_none rfl fun _ => nofun
  | append_singleton calls call ih =>
    rw [afterCalls, lastRecords, List.foldl_append, List.foldl_append]
    exact Call.twin_run ih k

theorem size_afterCalls_le : (afterCalls calls).entries.size ≤ maxEntries := by
  induction calls using List.reverseRecOn with
  | nil => exact Nat.zero_le _
  | append_singleton calls call ih =>
    rw [afterCalls, List.foldl_append]
    exact Call.size_run_le ih

/-! ### Which raw text is given -/

def Inner.holdsLive (s : Inner M) (now : Int) (key : String) : Bool :=
  match s.entries.get key with
  | some (.dmarc _, none) => true
  | some (.dmarc _, some expiry) => now < expiry
  | _ => false

def Inner.holdsAdded (s : Inner M) (key : String) : Bool :=
  match s.entries.get key with
  | some (.dmarc _, none) => true
  | _ => false

/-- The nearest name of the walk that holds a live DMARC record. -/
def Inner.nearestLive (s : Inner M) (now : Int) (domain : String) : Option String :=
  (labelWalk M domain).find? (s.holdsLive now)

/-- What `raw_dmarc_record` gives is the text of the last record that was added under the nearest
name with a live record, and this record is the one that the name holds. -/
def Inner.GivesNearest (s : Inner M) (last : Records) (now : Int) (domain : String) : Prop :=
  ∀ text, s.rawDmarcRecord domain = some text → ∃ key record parsed,
    s.nearestLive now domain = some key ∧ last key = some record ∧ fromUtf8Lossy record = text ∧
      M.parseDmarc record = .ok parsed ∧ s.entries.get key = some (.dmarc parsed, none)

/-- The nearest live DMARC record of the walk was added, or none of its records was. -/
def Inner.AddedFirst (s : Inner M) (now : Int) (domain : String) : Prop :=
  ∀ key, s.nearestLive now domain = some key →
    s.holdsAdded key ∨ ∀ other ∈ labelWalk M domain, ¬s.holdsAdded other

theorem Inner.holdsAdded_iff :
    s.holdsAdded key ↔ ∃ parsed, s.entries.get key = some (.dmarc parsed, none) := by
  rw [holdsAdded]
  split <;> simp_all

theorem Inner.holdsLive_of_holdsAdded (added : s.holdsAdded key) : s.holdsLive now key := by
  obtain ⟨parsed, found⟩ := holdsAdded_iff.mp added
  simp [holdsLive, found]

theorem Inner.Twin.isSome_raw_iff (twin : s.Twin last key) :
    (s.dmarcRaw.get key).isSome ↔ s.holdsAdded key := by
  rw [holdsAdded_iff]
  constructor
  · intro some_
    obtain ⟨text, raw⟩ := Option.isSome_iff_exists.mp some_
    obtain ⟨record, parsed, -, -, -, found⟩ := twin.record text raw
    exact ⟨parsed, found⟩
  · rintro ⟨parsed, found⟩
    exact twin.raw parsed found

theorem Inner.rawDmarcRecord_eq_findSome? (twin : ∀ k, s.Twin last k) (domain : String) :
    s.rawDmarcRecord domain = (labelWalk M domain).findSome? s.dmarcRaw.get := by
  rw [rawDmarcRecord]
  split
  case isTrue short =>
    have none : (labels domain).length - 1 = 0 := by omega
    simp [labelWalk, none]
  case isFalse =>
    congr 1
    funext key
    cases raw : s.dmarcRaw.get key with
    | none => rfl
    | some text => exact if_pos ((twin key).mem_entries raw)

theorem Inner.rawDmarcRecord_eq_some (twin : ∀ k, s.Twin last k) {domain text : String} :
    s.rawDmarcRecord domain = some text ↔
      ∃ key, (labelWalk M domain).find? s.holdsAdded = some key ∧
        s.dmarcRaw.get key = some text := by
  have absent : ∀ k, s.dmarcRaw.get k = none ↔ s.holdsAdded k = false := by
    intro k
    rw [← Option.not_isSome_iff_eq_none, (twin k).isSome_raw_iff, Bool.not_eq_true]
  rw [rawDmarcRecord_eq_findSome? twin, List.findSome?_eq_some_iff]
  simp only [List.find?_eq_some_iff_append, Bool.not_eq_true', absent]
  constructor
  · rintro ⟨nearer, key, farther, walk, raw, none⟩
    exact ⟨key, ⟨(twin key).isSome_raw_iff.mp (Option.isSome_of_eq_some raw), nearer, farther, walk, none⟩,
      raw⟩
  · rintro ⟨key, ⟨-, nearer, farther, walk, none⟩, raw⟩
    exact ⟨nearer, key, farther, walk, raw, none⟩

/-- The text of the nearest live record is given exactly where no record from a lookup is nearer
than the records that were added. -/
theorem Inner.givesNearest_iff (twin : ∀ k, s.Twin last k) {domain : String} :
    s.GivesNearest last now domain ↔ s.AddedFirst now domain := by
  constructor
  · intro gives key nearest
    by_cases some_ : ∃ other ∈ labelWalk M domain, s.holdsAdded other
    · left
      -- so a text is given, which is that of an added record
      obtain ⟨first, found⟩ := Option.isSome_iff_exists.mp (List.find?_isSome.mpr some_)
      have isSome := (twin first).isSome_raw_iff.mpr (List.find?_some found)
      obtain ⟨text, raw⟩ := Option.isSome_iff_exists.mp isSome
      obtain ⟨key', record, parsed, nearest', -, -, -, entry⟩ :=
        gives text ((rawDmarcRecord_eq_some twin).mpr ⟨first, found, raw⟩)
      rw [nearest] at nearest'
      cases nearest'
      exact holdsAdded_iff.mpr ⟨parsed, entry⟩
    · right
      intro other among added
      exact some_ ⟨other, among, added⟩
  · intro first text given
    obtain ⟨key, found, raw⟩ := (rawDmarcRecord_eq_some twin).mp given
    have added : s.holdsAdded key := List.find?_some found
    have among := List.mem_of_find?_eq_some found
    have live : ((labelWalk M domain).find? (s.holdsLive now)).isSome :=
      List.find?_isSome.mpr ⟨key, among, holdsLive_of_holdsAdded added⟩
    obtain ⟨nearest, nearestLive⟩ := Option.isSome_iff_exists.mp live
    -- the nearest live record was added, and it is the first one that was
    have same : key = nearest := by
      rcases first nearest nearestLive with here | none
      · obtain ⟨-, nearer, farther, walk, none⟩ := List.find?_eq_some_iff_append.mp nearestLive
        have firstAdded : (labelWalk M domain).find? s.holdsAdded = some nearest := by
          refine List.find?_eq_some_iff_append.mpr ⟨here, nearer, farther, walk, fun k mem => ?_⟩
          have dead := none k mem
          rw [Bool.not_eq_true'] at dead ⊢
          apply Bool.eq_false_of_not_eq_true
          intro added
          rw [holdsLive_of_holdsAdded added] at dead
          cases dead
        exact Option.some.inj (found.symm.trans firstAdded)
      · exact absurd added (none key among)
    obtain ⟨record, parsed, last, lossy, parses, entry⟩ := (twin key).record text raw
    exact ⟨key, record, parsed, same ▸ nearestLive, last, lossy, parses, entry⟩

/-! ### What is evicted -/

/-- No entry that was added is evicted while one that expires remains. -/
def Eviction.Fair (e : Eviction M) : Prop :=
  e.cache.Added e.victim → ∀ key, ¬e.cache.Expiring key

def Inner.addedEntries (s : Inner M) : Table String (CacheEntry M) :=
  s.entries.retain fun _ e => e.2.isNone

/-- The name holds an entry that expires, and all other places are taken by entries that were
added. -/
def Inner.Crowded (s : Inner M) (key : String) : Prop :=
  s.Expiring key ∧ maxEntries - 1 ≤ s.addedEntries.size

theorem Inner.get_addedEntries {e : CacheEntry M} :
    s.addedEntries.get key = some e ↔ s.entries.get key = some e ∧ e.2 = none := by
  rw [addedEntries, Table.get_retain, Option.filter_eq_some_iff, Option.isNone_iff_eq_none]

theorem Inner.Reduced.size_addedEntries_le (reduced : s.Reduced t) :
    t.addedEntries.size ≤ s.addedEntries.size := by
  apply Table.size_le_of_get
  intro k e found
  obtain ⟨inside, none⟩ := get_addedEntries.mp found
  rcases reduced k with ⟨same, -⟩ | ⟨gone, -⟩
  · exact get_addedEntries.mpr ⟨same ▸ inside, none⟩
  · rw [gone] at inside
    cases inside

theorem Inner.Reduced.expiring (reduced : s.Reduced t)
    (expiring : t.Expiring key) : s.Expiring key := by
  obtain ⟨value, expiry, found⟩ := expiring
  rcases reduced key with ⟨same, -⟩ | ⟨gone, -⟩
  · exact ⟨value, expiry, same ▸ found⟩
  · rw [gone] at found
    cases found

theorem Inner.not_added_of_expiring {e : CacheEntry M} (expiring : s.Expiring key) :
    s.addedEntries.get key ≠ some e := by
  intro found
  obtain ⟨inside, none⟩ := get_addedEntries.mp found
  obtain ⟨value, expiry⟩ := e
  cases none
  exact (show s.Added key from ⟨value, inside⟩).not_expiring expiring

theorem Inner.size_addedEntries_lt (expiring : s.Expiring key) :
    s.addedEntries.size < s.entries.size := by
  have within : s.addedEntries.size ≤ (s.entries.remove key).size := by
    apply Table.size_le_of_get
    intro k e found
    have other : k ≠ key := by
      rintro rfl
      exact not_added_of_expiring expiring found
    rw [Table.get_remove_ne other]
    exact (get_addedEntries.mp found).1
  obtain ⟨value, expiry, found⟩ := expiring
  have less := Table.size_remove_of_mem (Table.mem_of_get found)
  omega

/-- Where all names but one hold added entries. -/
theorem Inner.size_le_size_addedEntries (only : ∀ k, s.Expiring k → k = key) :
    s.entries.size ≤ s.addedEntries.size + 1 := by
  have within : (s.entries.remove key).size ≤ s.addedEntries.size := by
    apply Table.size_le_of_get
    intro k e found
    have other : k ≠ key := by
      rintro rfl
      rw [Table.get_remove] at found
      cases found
    rw [Table.get_remove_ne other] at found
    obtain ⟨value, expiry⟩ := e
    cases expiry with
    | none => exact get_addedEntries.mpr ⟨found, rfl⟩
    | some expiry => exact absurd (only k ⟨value, expiry, found⟩) other
  by_cases present : key ∈ s.entries
  · have less := Table.size_remove_of_mem present
    omega
  · have same : ∀ k, (s.entries.remove key).get k = s.entries.get k := by
      intro k
      by_cases here : k = key
      · rw [here, Table.get_remove, Table.get_eq_none_iff.mpr present]
      · exact Table.get_remove_ne here
    rw [Table.size_congr same] at within
    omega

variable {e : Eviction M}

theorem Moment.crowded_of_unfair (taken : e ∈ (m.enforceCapacity (some key) s).1)
    (unfair : ¬e.Fair) : s.Crowded key := by
  have start : s.Reduced (s.sweep m.now (some key)) := Inner.reduced_sweep m.now
  obtain ⟨reduced, chosen, full⟩ :=
    (evict_induction start fun _ victim reduced _ => reduced.drop victim).2 e taken
  obtain ⟨added, k, expiring⟩ : e.cache.Added e.victim ∧ ∃ k, e.cache.Expiring k := by
    simpa [Eviction.Fair] using unfair
  have only : ∀ k, e.cache.Expiring k → k = key := fun k expiring =>
    Option.some.inj ((victim_eq_some chosen).2.2 added k expiring)
  have here := only k expiring
  subst here
  have size := Inner.size_le_size_addedEntries only
  have fewer := reduced.size_addedEntries_le
  exact ⟨reduced.expiring expiring, by omega⟩

theorem Inner.Crowded.sweep (crowded : s.Crowded key) :
    (s.sweep now (some key)).Crowded key := by
  obtain ⟨⟨value, expiry, found⟩, full⟩ := crowded
  have swept : ∀ k, (s.sweep now (some key)).entries.get k = s.entries.get k ∨ _ :=
    fun k => get_sweep
  constructor
  · refine ⟨value, expiry, ?_⟩
    rcases swept key with same | ⟨-, other, -⟩
    · rw [same, found]
    · exact absurd rfl other
  · have within : s.addedEntries.size ≤ (s.sweep now (some key)).addedEntries.size := by
      apply Table.size_le_of_get
      intro k e inside
      obtain ⟨entry, none⟩ := get_addedEntries.mp inside
      apply get_addedEntries.mpr
      rcases swept k with same | ⟨-, -, notAdded⟩
      · exact ⟨same ▸ entry, none⟩
      · obtain ⟨value, expiry⟩ := e
        cases none
        exact absurd ⟨value, entry⟩ notAdded
    exact full.trans within

theorem Inner.Crowded.drop (crowded : s.Crowded key) (other : victim ≠ key)
    (notAdded : ¬s.Added victim) : (s.drop victim).Crowded key := by
  obtain ⟨⟨value, expiry, found⟩, full⟩ := crowded
  constructor
  · exact ⟨value, expiry, (Table.get_remove_ne other.symm).trans found⟩
  · have within : s.addedEntries.size ≤ (s.drop victim).addedEntries.size := by
      apply Table.size_le_of_get
      intro k e inside
      obtain ⟨entry, none⟩ := get_addedEntries.mp inside
      apply get_addedEntries.mpr
      have ne : k ≠ victim := by
        rintro rfl
        obtain ⟨value, expiry⟩ := e
        cases none
        exact notAdded ⟨value, entry⟩
      exact ⟨(Table.get_remove_ne ne).trans entry, none⟩
    exact full.trans within

theorem Moment.unfair_of_crowded (crowded : s.Crowded key) (enough : s.entries.size ≤ fuel) :
    ∃ e ∈ (m.evict (some key) fuel s).1, ¬e.Fair := by
  have full : 4096 - 1 ≤ s.addedEntries.size := crowded.2
  have more := Inner.size_addedEntries_lt crowded.1
  induction fuel generalizing s with
  | zero => omega
  | succ fuel ih =>
    have enters : maxEntries - 1 < s.entries.size := by
      show 4096 - 1 < _
      omega
    rw [evict, if_pos enters]
    split
    case h_1 victim chosen =>
      obtain ⟨other, present, -⟩ := victim_eq_some chosen
      by_cases added : s.Added victim
      · -- the name to keep is spared, so that an added entry goes
        exact ⟨⟨victim, s⟩, List.mem_cons_self, fun fair => fair added key crowded.1⟩
      · have still := crowded.drop (fun eq => other (congrArg some eq)) added
        have less := Table.size_remove_of_mem present
        have enough : (s.drop victim).entries.size ≤ fuel := by
          show (s.entries.remove victim).size ≤ fuel
          omega
        obtain ⟨e, mem, unfair⟩ := ih still enough still.2 (Inner.size_addedEntries_lt still.1)
        exact ⟨e, List.mem_cons_of_mem _ mem, unfair⟩
    case h_2 alone =>
      have le : s.entries.size ≤ [key].length := Table.size_le_length fun k present =>
        List.mem_singleton.mpr (Option.some.inj (victim_eq_none alone present))
      rw [List.length_singleton] at le
      omega

/-- An added entry is evicted in spite of one that expires exactly where the latter is the one to be
replaced. -/
theorem Moment.fair_enforceCapacity_iff :
    (∀ e ∈ (m.enforceCapacity (some key) s).1, e.Fair) ↔ ¬s.Crowded key := by
  constructor
  · intro fair crowded
    obtain ⟨e, mem, unfair⟩ := unfair_of_crowded (m := m) crowded.sweep le_rfl
    exact unfair (fair e mem)
  · intro free e mem
    by_contra unfair
    exact free (crowded_of_unfair mem unfair)

theorem Moment.fair_store_iff {raw : Option String} :
    (∀ e ∈ (m.store name value raw s).1, e.Fair) ↔ ¬s.Crowded (M.toFqdn name) :=
  fair_enforceCapacity_iff

/-- The name whose entry the call replaces, whatever it has. -/
def Call.replaces : Call M → Option String
  | .addDomainKey name record => (M.parseDomainKey record).toOption.map fun _ => M.toFqdn name
  | .addSpf name record => (M.parseSpf record).toOption.map fun _ => M.toFqdn name
  | .addDmarc name record => (M.parseDmarc record).toOption.map fun _ => M.toFqdn name
  | .insert key _ _ => some key
  | _ => none

theorem Moment.fair_pinAbsent (taken : e ∈ (m.pinAbsent name s).1) :
    e.Fair := by
  rw [pinAbsent, storeIfAbsent] at taken
  split at taken
  case isTrue => cases taken
  case isFalse absent =>
    refine fair_enforceCapacity_iff.mpr ?_ e taken
    rintro ⟨⟨value, expiry, found⟩, -⟩
    exact absent (Table.mem_of_get found)

theorem fair_pinNames (taken : e ∈ (pinNames names s).1) : e.Fair := by
  induction names generalizing s with
  | nil => cases taken
  | cons name rest ih =>
    rcases List.mem_append.mp taken with now | later
    · exact name.1.fair_pinAbsent now
    · exact ih later

theorem Call.fair_run_iff : (∀ e ∈ (call.run moments s).1, e.Fair) ↔
    ∀ key, call.replaces = some key → ¬s.Crowded key := by
  cases call with
  | addDomainKey name record =>
    rw [run, Moment.addDomainKey, unlessRejected_bind, replaces]
    cases M.parseDomainKey record with
    | ok parsed => simpa [Except.toOption] using Moment.fair_store_iff
    | error => simp [Except.toOption]
  | addSpf name record =>
    rw [run, Moment.addSpf, unlessRejected_bind, replaces]
    cases M.parseSpf record with
    | ok parsed => simpa [Except.toOption] using Moment.fair_store_iff
    | error => simp [Except.toOption]
  | addDmarc name record =>
    rw [run, Moment.addDmarc, unlessRejected_bind, replaces]
    cases M.parseDmarc record with
    | ok parsed => simpa [Except.toOption] using Moment.fair_store_iff
    | error => simp [Except.toOption]
  | pinAbsent name =>
    exact iff_of_true (fun e taken => Moment.fair_pinAbsent taken) nofun
  | pinDmarcWalk fromDomain =>
    rw [run, Inner.pinDmarcWalk]
    exact iff_of_true (fun e taken => fair_pinNames taken) nofun
  | get key => simp [run, replaces]
  | remove key => simp [run, replaces]
  | insert key value validUntil =>
    simp only [replaces, Option.some.injEq, forall_eq']
    exact Moment.fair_enforceCapacity_iff

/-- The cache after any calls, whatever the clock reads: it is bounded, and has raw texts only of
its entries; the text that it gives is that of the nearest live record exactly if that record was
added or none of the walk was; and a call evicts an added entry in spite of one that expires exactly
if the latter is the one that it replaces, in a cache that is otherwise full of added entries. -/
theorem dmarc_cache (calls : List (Call M × (Nat → Moment M))) :
    (afterCalls calls).entries.size ≤ maxEntries ∧
    (∀ name ∈ (afterCalls calls).dmarcRaw, name ∈ (afterCalls calls).entries) ∧
    (∀ now domain, (afterCalls calls).GivesNearest (lastRecords calls) now domain ↔
      (afterCalls calls).AddedFirst now domain) ∧
    ∀ (call : Call M) (moments : Nat → Moment M),
      (∀ e ∈ (call.run moments (afterCalls calls)).1, e.Fair) ↔
        ∀ key, call.replaces = some key → ¬(afterCalls calls).Crowded key := by
  refine ⟨size_afterCalls_le, ?_, fun now domain => Inner.givesNearest_iff twin_afterCalls,
    fun call moments => Call.fair_run_iff⟩
  intro name present
  obtain ⟨text, raw⟩ := Option.isSome_iff_exists.mp (AList.lookup_isSome.mpr present)
  exact (twin_afterCalls name).mem_entries raw

/-! ### A record from a lookup below one that was added -/

/-- Records are their texts, and have to begin with their version. -/
def textRecord (version : String) (record : List UInt8) : Except String String :=
  if version.toList.isPrefixOf (fromUtf8Lossy record).toList then .ok (fromUtf8Lossy record)
  else .error "invalid record"

def textMailAuth : MailAuth where
  DomainKey := String
  Spf := String
  Dmarc := String
  Error := String
  Other := String
  parseDomainKey := textRecord "v=DKIM1"
  parseSpf := textRecord "v=spf1"
  parseDmarc := textRecord "v=DMARC1"
  errorText := id
  invalidRecordType := "invalid record type"
  toFqdn name :=
    if name.toList.getLast? = some '.' then toAsciiLowercase name else toAsciiLowercase name ++ "."

def momentAt (now : Int) : Moment M where
  now := now
  iter t := t.entries
  perm _ := .refl _

/-- A record is added for the domain, and a lookup then finds one for its subdomain. -/
def lookupBelow : List (Call textMailAuth × (Nat → Moment textMailAuth)) :=
  [(.addDmarc "_dmarc.example.com" (bytes "v=DMARC1; p=reject; pct=10"), fun _ => momentAt 0),
    (.insert "_dmarc.sub.example.com." (.dmarc "v=DMARC1; p=quarantine") (60 * 10 ^ 9),
      fun _ => momentAt 0)]

/-- The subdomain is given the text of the domain. -/
theorem farther_text_given :
    (afterCalls lookupBelow).rawDmarcRecord "sub.example.com" = some "v=DMARC1; p=reject; pct=10" ∧
    (afterCalls lookupBelow).nearestLive 0 "sub.example.com" = some "_dmarc.sub.example.com." ∧
    ¬(afterCalls lookupBelow).GivesNearest (lastRecords lookupBelow) 0 "sub.example.com" := by
  have given : (afterCalls lookupBelow).rawDmarcRecord "sub.example.com" =
      some "v=DMARC1; p=reject; pct=10" := by decide +kernel
  have nearest : (afterCalls lookupBelow).nearestLive 0 "sub.example.com" =
      some "_dmarc.sub.example.com." := by decide +kernel
  refine ⟨given, nearest, fun gives => ?_⟩
  obtain ⟨key, record, parsed, here, -, -, -, entry⟩ := gives _ given
  cases nearest.symm.trans here
  have added := Inner.holdsAdded_iff.mpr ⟨parsed, entry⟩
  have notAdded : (afterCalls lookupBelow).holdsAdded "_dmarc.sub.example.com." =
      false := by decide +kernel
  rw [notAdded] at added
  cases added

end MailStack.Auth
