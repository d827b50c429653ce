import MailStack.Lib.Machine
import MailStack.Smtpd.Ban

/-! An automatic ban is kept until it is over, unless a file lists the peer meanwhile and then no
longer does. A peer that no file lists is banned only after as many failures as the configuration
says. -/

namespace MailStack.Smtpd

open Lib Ban

/-! ### One entry -/

/-- As many failures as lead to a ban, all within one window. -/
def ManyFailures (config : BanConfig) (times : List Int) : Prop :=
  ∃ chosen : List Int, ∃ last, chosen.Sublist times ∧ config.maxFailures ≤ chosen.length ∧
    ∀ time ∈ chosen, time ≤ last ∧ last - time < config.windowSecs

theorem ManyFailures.mono {config : BanConfig} {times times' : List Int}
    (h : ManyFailures config times) (sub : times.Sublist times') : ManyFailures config times' := by
  obtain ⟨chosen, last, inside, enough, close⟩ := h
  exact ⟨chosen, last, inside.trans sub, enough, close⟩

/-- A ban until `limit`, or for ever, is not over. -/
def Lasts (limit : Option Int) (now : Int) : Prop := ∀ time ∈ limit, now < time

namespace Ban.Entry

variable {config : BanConfig} {entry : Entry} {ip : IpAddr} {now : Int} {limit : Option Int}

def active (entry : Entry) (now : Int) : Bool := entry.permanent || entry.running now

theorem activeBan_isSome : (entry.activeBan ip now).isSome = entry.active now := by
  unfold activeBan active
  split <;> simp_all

theorem endBan_of_active (banned : entry.active now = true) : entry.endBan now = entry := by
  unfold endBan
  refine if_neg fun ends => ?_
  obtain ⟨temporary, ended⟩ := Bool.and_eq_true_iff.mp ends
  cases here : entry.bannedUntil with
  | none =>
    rw [expired, here] at ended
    cases ended
  | some time =>
    simp only [active, running, expired, here, Option.any_some, Bool.or_eq_true,
      decide_eq_true_eq] at banned ended
    rcases banned with permanent | later
    · rw [permanent] at temporary
      cases temporary
    · omega

/-- The entry keeps a ban until `limit`, or for ever. -/
def Guards (limit : Option Int) (entry : Entry) : Prop :=
  entry.permanent = true ∨ ∃ time until_, limit = some time ∧ entry.bannedUntil = some until_ ∧
    time ≤ until_

theorem Guards.active (h : entry.Guards limit) (lasts : Lasts limit now) :
    entry.active now = true := by
  rcases h with permanent | ⟨time, until_, rfl, banned, le⟩
  · simp [Entry.active, permanent]
  · have later := lasts time rfl
    have running : entry.running now = true := by
      simp only [running, banned, Option.any_some, decide_eq_true_eq]
      omega
    simp [Entry.active, running]

theorem Guards.endBan (h : entry.Guards limit) (lasts : Lasts limit now) :
    (entry.endBan now).Guards limit := by
  rwa [endBan_of_active (h.active lasts)]

theorem record_of_active (banned : entry.active now = true) :
    entry.record config ip now = (some ((entry.touch ip now).toBan ip), entry.touch ip now) :=
  if_pos banned

theorem record_of_idle (idle : ¬entry.active now = true) :
    entry.record config ip now =
      (if ((entry.touch ip now).endBan now).reaches config now then
          some ((((entry.touch ip now).endBan now).countFailure config now).toBan ip) else none,
        ((entry.touch ip now).endBan now).countFailure config now) :=
  if_neg idle

theorem Guards.record (h : entry.Guards limit) (lasts : Lasts limit now) :
    (entry.record config ip now).2.Guards limit := by
  rw [record_of_active (h.active lasts)]
  exact h

theorem countFailure_of_reaches (reached : entry.reaches config now = true) :
    ((entry.countFailure config now).permanent = true ∨
      (entry.countFailure config now).bannedUntil.isSome = true) ∧
        (entry.countFailure config now).failures = [] := by
  have enough : ¬(entry.failures.filter (fun time => clampI64 (now - time) < config.windowSecs) ++
      [now]).length < config.maxFailures := by
    simpa [reaches] using reached
  unfold countFailure
  simp only [if_neg enough, and_true]
  by_cases permanent : decide (config.permanentAfter > 0 ∧
      satAdd u32Max entry.strikes 1 ≥ config.permanentAfter) = true
  · exact .inl permanent
  · rw [if_neg permanent]
    exact .inr rfl

theorem countFailure_of_not_reaches (early : ¬entry.reaches config now = true) :
    entry.countFailure config now = { entry with
      failures := entry.failures.filter (fun time => clampI64 (now - time) < config.windowSecs) ++
        [now] } := by
  have few : (entry.failures.filter (fun time => clampI64 (now - time) < config.windowSecs) ++
      [now]).length < config.maxFailures := by
    simpa [reaches] using early
  unfold countFailure
  simp only [if_pos few]

theorem countFailure_manual : (entry.countFailure config now).manual = entry.manual := by
  by_cases reached : entry.reaches config now = true
  · unfold countFailure
    dsimp only
    split
    · rfl
    · rfl
  · rw [countFailure_of_not_reaches reached]

theorem guards_of_reported {ban : Ban} (reported : (entry.record config ip now).1 = some ban) :
    (entry.record config ip now).2.Guards (if ban.permanent then none else ban.untilUnix) ∧
      (ban.manual = (entry.record config ip now).2.manual) := by
  have guards : ∀ e : Entry, (e.permanent = true ∨ e.bannedUntil.isSome = true) →
      e.Guards (if (e.toBan ip).permanent then none else (e.toBan ip).untilUnix) := by
    intro e banned
    by_cases permanent : e.permanent = true
    · exact .inl permanent
    · obtain ⟨time, eq⟩ := Option.isSome_iff_exists.mp (banned.resolve_left permanent)
      exact .inr ⟨time, time, by simp [toBan, permanent, eq], eq, le_refl _⟩
  by_cases banned : entry.active now = true
  · rw [record_of_active banned] at reported ⊢
    obtain rfl := Option.some.inj reported
    refine ⟨guards (entry.touch ip now) ?_, rfl⟩
    rcases Bool.or_eq_true_iff.mp banned with permanent | runs
    · exact .inl permanent
    · refine .inr ?_
      cases here : entry.bannedUntil with
      | none =>
        rw [running, here] at runs
        cases runs
      | some time => exact congrArg Option.isSome here
  · rw [record_of_idle banned] at reported ⊢
    dsimp only at reported ⊢
    split at reported
    · rename_i reached
      obtain rfl := Option.some.inj reported
      exact ⟨guards _ (countFailure_of_reaches reached).1, rfl⟩
    · cases reported

/-- What an entry says about its peer: whether the file lists it, which failures count, and why it
is banned. -/
structure Sound (config : BanConfig) (listed : Prop) (times : List Int) (entry : Entry) : Prop where
  manual : entry.manual = true ↔ listed
  manualPermanent : entry.manual = true → entry.permanent = true
  failures : entry.failures.Sublist times
  permanent : entry.permanent = true → entry.manual = true ∨ ManyFailures config times
  banned : entry.bannedUntil.isSome = true → ManyFailures config times

namespace Sound

variable {listed : Prop} {times times' : List Int}

theorem fresh (unlisted : ¬listed) : Sound config listed times .fresh :=
  ⟨⟨(fun h => by cases h), fun h => absurd h unlisted⟩, (fun h => by cases h), List.nil_sublist _,
    (fun h => by cases h), (fun h => by cases h)⟩

theorem mono (h : Sound config listed times entry) (sub : times.Sublist times') :
    Sound config listed times' entry :=
  ⟨h.manual, h.manualPermanent, h.failures.trans sub, fun permanent =>
    (h.permanent permanent).imp_right fun many => many.mono sub,
      fun banned => (h.banned banned).mono sub⟩

theorem endBan (h : Sound config listed times entry) :
    Sound config listed times (entry.endBan now) := by
  unfold Entry.endBan
  split
  · exact ⟨h.manual, h.manualPermanent, List.nil_sublist _, h.permanent,
      (fun banned => by cases banned)⟩
  · exact h

theorem markManual (marked : listed) : Sound config listed times (entry.markManual ip) :=
  ⟨⟨fun _ => marked, fun _ => rfl⟩, fun _ => rfl, List.nil_sublist _, fun _ => .inl rfl,
    (fun banned => by cases banned)⟩

theorem countFailure (h : Sound config listed times entry) (positive : 0 < config.windowSecs)
    (past : ∀ time ∈ times, time ≤ now) (temporary : entry.permanent = false)
    (ended : entry.bannedUntil = none) :
    Sound config listed (times ++ [now]) (entry.countFailure config now) := by
  have unlisted : entry.manual = false := by
    cases manual : entry.manual with
    | false => rfl
    | true =>
      rw [h.manualPermanent manual] at temporary
      cases temporary
  have kept : (entry.failures.filter (fun time => clampI64 (now - time) < config.windowSecs) ++
      [now]).Sublist (times ++ [now]) :=
    (List.filter_sublist.trans h.failures).append (List.Sublist.refl _)
  by_cases reached : entry.reaches config now = true
  · have many : ManyFailures config (times ++ [now]) := by
      refine ⟨_, now, kept, by simpa [reaches] using reached, fun time mem => ?_⟩
      have window := config.windowSecs_le
      rcases List.mem_append.mp mem with mem | mem
      · obtain ⟨counted, close⟩ := List.mem_filter.mp mem
        have close := of_decide_eq_true close
        unfold clampI64 at close
        exact ⟨past time (h.failures.subset counted), by omega⟩
      · rw [List.mem_singleton.mp mem]
        exact ⟨le_refl _, by omega⟩
    obtain ⟨banned, none⟩ := countFailure_of_reaches reached
    refine ⟨by rw [countFailure_manual]; exact h.manual, fun manual => ?_, none ▸ List.nil_sublist _,
      fun _ => .inr many, fun _ => many⟩
    rw [countFailure_manual, unlisted] at manual
    cases manual
  · rw [countFailure_of_not_reaches reached]
    refine ⟨h.manual, h.manualPermanent, kept, fun permanent => ?_, fun banned => ?_⟩
    · rw [temporary] at permanent
      cases permanent
    · rw [ended] at banned
      cases banned

theorem record (h : Sound config listed times entry) (positive : 0 < config.windowSecs)
    (past : ∀ time ∈ times, time ≤ now) :
    Sound config listed (times ++ [now]) (entry.record config ip now).2 := by
  have touched : Sound config listed times (entry.touch ip now) :=
    ⟨h.manual, h.manualPermanent, h.failures, h.permanent, h.banned⟩
  by_cases banned : entry.active now = true
  · rw [record_of_active banned]
    exact touched.mono (List.sublist_append_left _ _)
  · rw [record_of_idle banned]
    have temporary : (entry.touch ip now).permanent = false := by
      cases permanent : entry.permanent with
      | false => exact permanent
      | true => simp [active, permanent] at banned
    have ended : ((entry.touch ip now).endBan now).bannedUntil = none := by
      have idle : ¬entry.running now = true := fun runs => banned (by simp [active, runs])
      cases here : entry.bannedUntil with
      | none => simp [Entry.endBan, expired, touch, here]
      | some time =>
        have le : time ≤ now := by
          rw [running, here] at idle
          simpa using idle
        simp [Entry.endBan, expired, touch, here, le, show entry.permanent = false from temporary]
    have still : ((entry.touch ip now).endBan now).permanent = false := by
      unfold Entry.endBan
      split
      · exact temporary
      · exact temporary
    exact touched.endBan.countFailure positive past still ended

end Sound

end Ban.Entry

/-! ### The calls -/

namespace BanList

variable {list : BanList} {ip : IpAddr} {now : Int} {iteration : Iteration} {key : PeerKey}

theorem check_isSome : (list.check ip now).1.isSome = true ↔
    ∃ entry, list.entries.get (.fromIp ip) = some entry ∧ entry.active now = true := by
  unfold check
  cases found : list.entries.get (.fromIp ip) with
  | none => simp
  | some entry =>
    simp only [Entry.activeBan_isSome]
    exact ⟨fun banned => ⟨entry, rfl, banned⟩, by rintro ⟨_, same, banned⟩; cases same; exact banned⟩

theorem check_config : (list.check ip now).2.config = list.config := by
  unfold check
  split
  · rfl
  · rfl

theorem check_entries : (list.check ip now).2.entries.get key = list.entries.get key ∨
    (list.check ip now).2.entries.get key = (list.entries.get key).map (·.endBan now) := by
  unfold check
  cases found : list.entries.get (.fromIp ip) with
  | none => exact .inl rfl
  | some entry =>
    by_cases here : key = .fromIp ip
    · subst here
      exact .inr (by rw [found]; exact Table.get_put)
    · exact .inl (Table.get_put_ne here)

theorem banned_entries :
    (list.banned now).2.entries.get key = (list.entries.get key).map (·.endBan now) :=
  Table.get_mapValues

def Idle (now : Int) (entry : Entry) : Prop := entry.active now = false ∧ entry.manual = false

variable {entries : Entries}

theorem idle_of_candidate {candidate : PeerKey × Int × Nat}
    (mem : candidate ∈ candidates iteration now entries) :
    ∃ entry, entries.get candidate.1 = some entry ∧ Idle now entry := by
  obtain ⟨e, inside, rfl⟩ := List.mem_map.mp mem
  obtain ⟨mem, idle⟩ := List.mem_filter.mp inside
  refine ⟨e.2, Table.get_eq_some_iff.mpr ((iteration.perm entries).mem_iff.mp mem), ?_⟩
  simp only [Bool.and_eq_true, Bool.not_eq_true'] at idle
  obtain ⟨⟨temporary, unlisted⟩, ended⟩ := idle
  refine ⟨?_, unlisted⟩
  cases here : e.2.bannedUntil with
  | none => simp [Entry.active, Entry.running, temporary, here]
  | some time =>
    rw [here] at ended
    simpa [Entry.active, Entry.running, temporary, here] using ended

theorem evict_entries (entries : Entries) (maxEntries : Nat) (key : PeerKey) :
    (evict iteration maxEntries now entries).1.get key = entries.get key ∨
      (evict iteration maxEntries now entries).1.get key = none ∧
        ∀ entry, entries.get key = some entry → Idle now entry := by
  obtain ⟨keeps, eq⟩ : ∃ keeps : PeerKey → Entry → Bool, keeps = fun _ entry =>
    entry.permanent || entry.manual || entry.running now || !entry.failures.isEmpty := ⟨_, rfl⟩
  have kept : (entries.retain keeps).get key = entries.get key ∨
      (entries.retain keeps).get key = none ∧
        ∀ entry, entries.get key = some entry → Idle now entry := by
    rw [Table.get_retain]
    cases found : entries.get key with
    | none => exact .inl rfl
    | some entry =>
      rw [Option.filter_some]
      split
      · exact .inl rfl
      · rename_i dropped
        refine .inr ⟨rfl, fun other same => ?_⟩
        obtain rfl := Option.some.inj same
        rw [eq] at dropped
        simp only [Bool.not_eq_true, Bool.or_eq_false_iff] at dropped
        exact ⟨by simp [Entry.active, dropped.1.1.1, dropped.1.2], dropped.1.1.2⟩
  unfold evict
  rw [← eq]
  dsimp only
  split
  · exact kept
  · dsimp only
    rw [Table.get_foldl_remove]
    split
    · rename_i victim
      refine .inr ⟨rfl, fun entry found => ?_⟩
      obtain ⟨candidate, inside, rfl⟩ := List.mem_map.mp victim
      obtain ⟨entry', here, idle⟩ :=
        idle_of_candidate (List.mem_mergeSort.mp (List.mem_of_mem_take inside))
      rw [Table.get_retain, found, Option.filter_eq_some_iff] at here
      rwa [Option.some.inj here.1]
    · exact kept

/-- A failure is recorded unless there is no room for the peer. -/
theorem recordFailure_entries : ∃ entries : Entries,
    (∀ key, entries.get key = list.entries.get key ∨ entries.get key = none ∧
      ∀ entry, list.entries.get key = some entry → Idle now entry) ∧
    (list.recordFailure iteration ip now = (none, { list with entries }) ∧
        list.entries.get (.fromIp ip) = none ∨
      list.recordFailure iteration ip now = ({ list with entries } : BanList).recordIn ip now) := by
  unfold recordFailure
  split
  · rename_i full
    have left := fun key =>
      @evict_entries now iteration list.entries list.config.maxEntries key
    generalize evict iteration list.config.maxEntries now list.entries = evicted at left ⊢
    obtain ⟨entries, freed⟩ := evicted
    refine ⟨entries, left, ?_⟩
    dsimp only
    split
    · exact .inl ⟨rfl, by simpa using full.2⟩
    · exact .inr rfl
  · exact ⟨list.entries, fun key => .inl rfl, .inr rfl⟩

variable {ips : List IpAddr}

theorem wanted_isSome :
    ((wanted ips).get key).isSome = true ↔ key ∈ ips.map .fromIp := by
  have grown : ∀ t : Table PeerKey IpAddr,
      ((ips.foldl (fun t ip => t.put (.fromIp ip) ip) t).get key).isSome = true ↔
        (t.get key).isSome = true ∨ key ∈ ips.map .fromIp := by
    induction ips with
    | nil => simp
    | cons ip ips ih =>
      intro t
      rw [List.foldl_cons, ih, List.map_cons, List.mem_cons]
      by_cases here : key = .fromIp ip
      · subst here
        simp
      · rw [Table.get_put_ne here]
        simp [here]
  simpa [wanted] using grown ∅

theorem applyManual_entries : (list.applyManual ips).2.entries.get key =
    match (wanted ips).get key with
    | some ip => some (((list.entries.get key).getD .fresh).markManual ip)
    | none => (list.entries.get key).filter fun entry => !entry.manual := by
  have marked := @Table.get_foldl_update _ _ key Entry.fresh
    (list.entries.retain fun key entry => !(entry.manual && ((wanted ips).get key).isNone)) _ _
    (fun ip entry => entry.markManual ip) (wanted ips)
  rw [Table.get_retain] at marked
  refine Eq.trans marked ?_
  cases found : (wanted ips).get key with
  | none => simp
  | some ip =>
    cases list.entries.get key with
    | none => rfl
    | some entry => simp [Option.filter_some]

end BanList

/-! ### The list over time -/

inductive BanCall
  | check (ip : IpAddr)
  | banned
  | recordFailure (ip : IpAddr) (iteration : Iteration)
  | applyManual (ips : List IpAddr)

structure BanTurn where
  now : Int
  call : BanCall

/-- A list of bans with what has happened to it: the automatic bans that failures have reported,
with their ends, the peers of the current file, and the failures with their times. -/
structure Watch where
  list : BanList
  clock : Int
  promised : List (PeerKey × Option Int)
  listed : List PeerKey
  failed : List (PeerKey × Int)

namespace Watch

def start (config : BanConfig) (clock : Int) : Watch :=
  { list := .new config, clock, promised := [], listed := [], failed := [] }

/-- What a failure promises: a ban that is not that of a file is kept until its end. -/
def promise (key : PeerKey) (ban : Ban) : Option (PeerKey × Option Int) :=
  if ban.manual then none else some (key, if ban.permanent then none else ban.untilUnix)

def step (w : Watch) (turn : BanTurn) : Option Watch :=
  some <| match turn.call with
  | .check ip => { w with clock := turn.now, list := (w.list.check ip turn.now).2 }
  | .banned => { w with clock := turn.now, list := (w.list.banned turn.now).2 }
  | .recordFailure ip iteration =>
    let (ban, list) := w.list.recordFailure iteration ip turn.now
    { w with
      clock := turn.now
      list
      promised := w.promised ++ (ban.bind (promise (.fromIp ip))).toList
      failed := w.failed ++ [(.fromIp ip, turn.now)] }
  | .applyManual ips =>
    { w with
      clock := turn.now
      list := (w.list.applyManual ips).2
      listed := ips.map .fromIp }

/-- The clock does not go back. -/
def InTime (w : Watch) (turn : BanTurn) : Prop := w.clock ≤ turn.now

instance {w : Watch} {turn : BanTurn} : Decidable (w.InTime turn) :=
  inferInstanceAs (Decidable (w.clock ≤ turn.now))

/-- No peer is taken off the file whose automatic ban is not over. -/
def Spares (w : Watch) (turn : BanTurn) : Prop :=
  ∀ ips, turn.call = .applyManual ips →
    ∀ p ∈ w.promised, Lasts p.2 turn.now → p.1 ∈ w.listed → p.1 ∈ ips.map .fromIp

/-- Each automatic ban is reported for every address of its peer until it is over. -/
def Kept (w : Watch) : Prop :=
  ∀ p ∈ w.promised, ∀ ip now, .fromIp ip = p.1 → w.clock ≤ now → Lasts p.2 now →
    (w.list.check ip now).1.isSome = true

def failureTimes (w : Watch) (key : PeerKey) : List Int :=
  (w.failed.filter fun e => e.1 = key).map (·.2)

/-- A ban is reported only for a peer of the file or one with many failures. -/
def Justified (w : Watch) : Prop :=
  ∀ ip now, w.clock ≤ now → (w.list.check ip now).1.isSome = true →
    .fromIp ip ∈ w.listed ∨ ManyFailures w.list.config (w.failureTimes (.fromIp ip))

/-! ### What every call keeps -/

/-- Every entry is sound, and the peers of the file have one. -/
structure Inv (w : Watch) : Prop where
  positive : 0 < w.list.config.windowSecs
  sound : ∀ key entry, w.list.entries.get key = some entry →
    entry.Sound w.list.config (key ∈ w.listed) (w.failureTimes key)
  there : ∀ key ∈ w.listed, (w.list.entries.get key).isSome = true
  past : ∀ e ∈ w.failed, e.2 ≤ w.clock
  peers : ∀ key ∈ w.listed, ∃ ip, .fromIp ip = key

/-- Each promise that is not over has an entry that guards it. -/
def Guarded (w : Watch) : Prop :=
  ∀ p ∈ w.promised, Lasts p.2 w.clock → ∃ entry, w.list.entries.get p.1 = some entry ∧
    entry.Guards p.2

variable {w w' : Watch} {turn : BanTurn} {config : BanConfig} {clock : Int}
  {failed : List (PeerKey × Int)}

theorem inv_start : Inv (start config clock) where
  positive := lt_of_lt_of_le (by decide) (le_max_right _ _)
  sound key entry found := by cases found
  there key mem := absurd mem List.not_mem_nil
  past e mem := absurd mem List.not_mem_nil
  peers key mem := absurd mem List.not_mem_nil

theorem guarded_start : Guarded (start config clock) := List.forall_mem_nil _

theorem Lasts.earlier {limit : Option Int} {now now' : Int} (h : Lasts limit now')
    (le : now ≤ now') :
    Lasts limit now := fun time mem => lt_of_le_of_lt le (h time mem)

theorem Inv.justified (h : Inv w) : w.Justified := by
  intro ip now _ reported
  obtain ⟨entry, found, banned⟩ := BanList.check_isSome.mp reported
  have sound := h.sound _ entry found
  rcases Bool.or_eq_true_iff.mp banned with permanent | running
  · rcases sound.permanent permanent with manual | many
    · exact .inl (sound.manual.mp manual)
    · exact .inr many
  · refine .inr (sound.banned ?_)
    cases here : entry.bannedUntil with
    | none =>
      rw [Entry.running, here] at running
      cases running
    | some time => rfl

theorem Guarded.kept (h : Guarded w) : w.Kept := by
  intro p mem ip now same later lasts
  obtain ⟨entry, found, guards⟩ := h p mem (Lasts.earlier lasts later)
  exact BanList.check_isSome.mpr ⟨entry, same ▸ found, guards.active lasts⟩

theorem failureTimes_past (h : Inv w) : ∀ key, ∀ time ∈ w.failureTimes key, time ≤ w.clock := by
  intro key time mem
  obtain ⟨e, inside, rfl⟩ := List.mem_map.mp mem
  exact h.past e (List.mem_of_mem_filter inside)

theorem Inv.getD (h : Inv w) (key : PeerKey) : ((w.list.entries.get key).getD .fresh).Sound
    w.list.config (key ∈ w.listed) (w.failureTimes key) := by
  cases found : w.list.entries.get key with
  | some entry => exact h.sound key entry found
  | none =>
    refine .fresh fun listed => ?_
    have there := h.there key listed
    rw [found] at there
    cases there

theorem Inv.ended (h : Inv w) {now : Int} {list : BanList} (later : w.clock ≤ now)
    (same : list.config = w.list.config)
    (ended : ∀ key, list.entries.get key = w.list.entries.get key ∨
      list.entries.get key = (w.list.entries.get key).map (·.endBan now)) :
    Inv { w with clock := now, list } where
  positive := by rw [same]; exact h.positive
  sound key entry found := by
    dsimp only at found ⊢
    rw [same]
    rcases ended key with eq | eq
    · exact h.sound key entry (eq ▸ found)
    · rw [eq, Option.map_eq_some_iff] at found
      obtain ⟨old, found, rfl⟩ := found
      exact (h.sound key old found).endBan
  there key mem := by
    have there := h.there key mem
    rcases ended key with eq | eq
    · rwa [← eq] at there
    · simpa [eq] using there
  past e mem := le_trans (h.past e mem) later
  peers := h.peers

theorem Inv.evicted (h : Inv w) {now : Int}
    (left : ∀ key, entries.get key = w.list.entries.get key ∨ entries.get key = none ∧
      ∀ entry, w.list.entries.get key = some entry → BanList.Idle now entry) :
    Inv { w with list := { w.list with entries } } where
  positive := h.positive
  sound key entry found := by
    rcases left key with eq | ⟨none, -⟩
    · exact h.sound key entry (eq ▸ found)
    · rw [show entries.get key = some entry from found] at none
      cases none
  there key mem := by
    have there := h.there key mem
    rcases left key with eq | ⟨-, idle⟩
    · rwa [← eq] at there
    · obtain ⟨entry, found⟩ := Option.isSome_iff_exists.mp there
      have manual := (h.sound key entry found).manual.mpr mem
      rw [(idle entry found).2] at manual
      cases manual
  past := h.past
  peers := h.peers

variable {promised : List (PeerKey × Option Int)}

theorem failureTimes_append {key : PeerKey} {ip : IpAddr}
    {now : Int} {list : BanList} {clock : Int} {listed : List PeerKey} :
    failureTimes ⟨list, clock, promised, listed, failed ++ [(.fromIp ip, now)]⟩ key =
      failureTimes ⟨list, clock, promised, listed, failed⟩ key ++
        if key = .fromIp ip then [now] else [] := by
  unfold failureTimes
  rw [List.filter_append, List.map_append]
  by_cases here : key = .fromIp ip
  · simp [here]
  · simp [here, Ne.symm here]

theorem Inv.unrecorded (h : Inv w) {now : Int} {ip : IpAddr} (later : w.clock ≤ now) :
    Inv { w with clock := now, promised, failed := w.failed ++ [(.fromIp ip, now)] } where
  positive := h.positive
  sound key entry found := by
    rw [failureTimes_append]
    exact (h.sound key entry found).mono (List.sublist_append_left _ _)
  there := h.there
  past e mem := by
    rcases List.mem_append.mp mem with mem | mem
    · exact le_trans (h.past e mem) later
    · rw [List.mem_singleton.mp mem]
  peers := h.peers

theorem Inv.recordIn (h : Inv w) {now : Int} {ip : IpAddr} (later : w.clock ≤ now) :
    Inv { w with
      clock := now, promised, list := (w.list.recordIn ip now).2
      failed := w.failed ++ [(.fromIp ip, now)] } where
  positive := h.positive
  sound key entry found := by
    rw [failureTimes_append]
    by_cases here : key = .fromIp ip
    · subst here
      obtain rfl := Option.some.inj (Table.get_put.symm.trans found)
      rw [if_pos rfl]
      exact (h.getD _).record h.positive fun time mem =>
        le_trans (failureTimes_past h _ time mem) later
    · rw [if_neg here, List.append_nil]
      exact h.sound key entry ((Table.get_put_ne here).symm.trans found)
  there key mem := by
    by_cases here : key = .fromIp ip
    · subst here
      exact congrArg Option.isSome Table.get_put
    · exact (congrArg Option.isSome (Table.get_put_ne here)).trans (h.there key mem)
  past e mem := by
    rcases List.mem_append.mp mem with mem | mem
    · exact le_trans (h.past e mem) later
    · rw [List.mem_singleton.mp mem]
  peers := h.peers

theorem Inv.applyManual (h : Inv w) {now : Int} (later : w.clock ≤ now) :
    Inv { w with clock := now, list := (w.list.applyManual ips).2, listed := ips.map .fromIp } where
  positive := h.positive
  sound key entry found := by
    dsimp only at found ⊢
    rw [BanList.applyManual_entries] at found
    cases here : (BanList.wanted ips).get key with
    | some ip =>
      rw [here] at found
      obtain rfl := Option.some.inj found
      have mem := BanList.wanted_isSome.mp (Option.isSome_of_eq_some here)
      exact .markManual mem
    | none =>
      rw [here] at found
      obtain ⟨found, unmarked⟩ := Option.filter_eq_some_iff.mp found
      have sound := h.sound key entry found
      refine ⟨⟨fun manual => ?_, fun listed => ?_⟩, sound.manualPermanent, sound.failures,
        sound.permanent, sound.banned⟩
      · rw [manual] at unmarked
        cases unmarked
      · rw [← BanList.wanted_isSome, here] at listed
        cases listed
  there key mem := by
    obtain ⟨ip, here⟩ := Option.isSome_iff_exists.mp (BanList.wanted_isSome.mpr mem)
    dsimp only
    rw [BanList.applyManual_entries, here]
    rfl
  past e mem := le_trans (h.past e mem) later
  peers key mem := by
    obtain ⟨ip, -, eq⟩ := List.mem_map.mp mem
    exact ⟨ip, eq⟩

theorem inv_step (h : Inv w) (inTime : w.InTime turn)
    (stepped : w.step turn = some w') : Inv w' := by
  obtain ⟨now, call⟩ := turn
  obtain rfl := Option.some.inj stepped
  cases call with
  | check ip =>
    exact h.ended inTime BanList.check_config fun _ => BanList.check_entries
  | banned => exact h.ended inTime rfl fun _ => .inr BanList.banned_entries
  | recordFailure ip iteration =>
    obtain ⟨entries, left, ⟨eq, -⟩ | eq⟩ :=
      @BanList.recordFailure_entries w.list ip now iteration
    · dsimp only
      rw [eq]
      exact (h.evicted left).unrecorded inTime
    · dsimp only
      rw [eq]
      exact (h.evicted left).recordIn inTime
  | applyManual ips => exact h.applyManual inTime

theorem Guarded.ended (h : Guarded w) {now : Int} {list : BanList} (later : w.clock ≤ now)
    (ended : ∀ key, list.entries.get key = w.list.entries.get key ∨
      list.entries.get key = (w.list.entries.get key).map (·.endBan now)) :
    Guarded { w with clock := now, list } := by
  intro p mem lasts
  obtain ⟨entry, found, guards⟩ := h p mem (Lasts.earlier lasts later)
  rcases ended p.1 with eq | eq
  · exact ⟨entry, eq.trans found, guards⟩
  · exact ⟨entry.endBan now, by rw [eq, found]; rfl, guards.endBan lasts⟩

theorem Guarded.evicted (h : Guarded w) {now : Int} (later : w.clock ≤ now)
    (left : ∀ key, entries.get key = w.list.entries.get key ∨ entries.get key = none ∧
      ∀ entry, w.list.entries.get key = some entry → BanList.Idle now entry) :
    Guarded { w with clock := now, list := { w.list with entries } } := by
  intro p mem lasts
  obtain ⟨entry, found, guards⟩ := h p mem (Lasts.earlier lasts later)
  rcases left p.1 with eq | ⟨-, idle⟩
  · exact ⟨entry, eq.trans found, guards⟩
  · have active := guards.active lasts
    rw [(idle entry found).1] at active
    cases active

/-- A failure promises what its entry guards from now on. -/
theorem Guarded.recordIn (h : Guarded w) {ip : IpAddr} :
    Guarded { w with
      list := (w.list.recordIn ip w.clock).2
      promised := w.promised ++ ((w.list.recordIn ip w.clock).1.bind (promise (.fromIp ip))).toList
      failed } := by
  have recorded : (w.list.recordIn ip w.clock).2.entries.get (.fromIp ip) = some
      (((w.list.entries.get (.fromIp ip)).getD .fresh).record w.list.config ip w.clock).2 :=
    Table.get_put
  intro p mem lasts
  rcases List.mem_append.mp mem with mem | mem
  · obtain ⟨entry, found, guards⟩ := h p mem lasts
    by_cases here : p.1 = .fromIp ip
    · rw [here] at found
      rw [found] at recorded
      exact ⟨_, here ▸ recorded, guards.record lasts⟩
    · exact ⟨entry, (Table.get_put_ne here).trans found, guards⟩
  · obtain ⟨ban, reported, promised⟩ := Option.bind_eq_some_iff.mp (Option.mem_toList.mp mem)
    unfold promise at promised
    split at promised
    · cases promised
    · obtain rfl := Option.some.inj promised
      exact ⟨_, recorded, (Entry.guards_of_reported reported).1⟩

/-- Marking the peers of a file keeps the promises to them, and those to all that the file before it
did not list. -/
theorem Guarded.applyManual (inv : Inv w) (h : Guarded w) {now : Int}
    (later : w.clock ≤ now) (spares : w.Spares ⟨now, .applyManual ips⟩) :
    Guarded { w with
      clock := now, list := (w.list.applyManual ips).2, listed := ips.map .fromIp } := by
  intro p mem lasts
  obtain ⟨entry, found, guards⟩ := h p mem (Lasts.earlier lasts later)
  dsimp only
  rw [BanList.applyManual_entries]
  cases wanted : (BanList.wanted ips).get p.1 with
  | some ip => exact ⟨_, rfl, .inl rfl⟩
  | none =>
    refine ⟨entry, ?_, guards⟩
    have unmarked : entry.manual = false := by
      cases manual : entry.manual with
      | false => rfl
      | true =>
        have listed := (inv.sound p.1 entry found).manual.mp manual
        have kept := spares ips rfl p mem lasts listed
        rw [← BanList.wanted_isSome, wanted] at kept
        cases kept
    simp [found, Option.filter_some, unmarked]

theorem guarded_step (inv : Inv w) (h : Guarded w) (inTime : w.InTime turn)
    (spares : w.Spares turn) (stepped : w.step turn = some w') : Guarded w' := by
  obtain ⟨now, call⟩ := turn
  obtain rfl := Option.some.inj stepped
  cases call with
  | check ip => exact h.ended inTime fun _ => BanList.check_entries
  | banned => exact h.ended inTime fun _ => .inr BanList.banned_entries
  | recordFailure ip iteration =>
    obtain ⟨entries, left, ⟨eq, -⟩ | eq⟩ :=
      @BanList.recordFailure_entries w.list ip now iteration
    · intro p mem
      dsimp only at mem ⊢
      rw [eq] at mem ⊢
      have same := List.append_nil w.promised ▸ mem
      exact h.evicted inTime left p same
    · dsimp only
      rw [eq]
      exact (h.evicted inTime left).recordIn
  | applyManual ips => exact h.applyManual inv inTime spares

theorem spares_of_kept (h : Inv w) (stepped : w.step turn = some w') (kept : w'.Kept) :
    w.Spares turn := by
  intro ips applied p mem lasts listed
  obtain ⟨now, call⟩ := turn
  subst applied
  obtain rfl := Option.some.inj stepped
  by_contra left
  obtain ⟨ip, same⟩ := h.peers p.1 listed
  have banned := kept p mem ip now same (le_refl _) lasts
  obtain ⟨entry, found, -⟩ := BanList.check_isSome.mp banned
  dsimp only at found
  have unwanted : (BanList.wanted ips).get p.1 = none := by
    rw [← Option.not_isSome_iff_eq_none, BanList.wanted_isSome]
    exact left
  rw [same, BanList.applyManual_entries, unwanted] at found
  obtain ⟨found, unmarked⟩ := Option.filter_eq_some_iff.mp found
  rw [(h.sound p.1 entry found).manual.mpr listed] at unmarked
  cases unmarked

/-- The step leads to a state in which every automatic ban is kept. -/
def Keeps (w : Watch) (turn : BanTurn) : Prop := ∀ w', w.step turn = some w' → w'.Kept

/-- In every run the bans that are reported are justified. All the states of the run keep the
automatic bans just when no file leaves out a peer that the one before it lists and whose automatic
ban is not over. -/
theorem automatic_bans_kept_iff {turns : List BanTurn}
    (run : Runs step InTime (start config clock) turns w) :
    w.Justified ∧
      (Runs step (fun w turn => w.InTime turn ∧ w.Keeps turn) (start config clock) turns w ↔
        Runs step (fun w turn => w.InTime turn ∧ w.Spares turn) (start config clock) turns w) := by
  have step_inv : ∀ w turn w', Inv w → w.InTime turn → w.step turn = some w' → Inv w' :=
    fun _ _ _ inv inTime stepped => inv_step inv inTime stepped
  refine ⟨(run.invariant inv_start step_inv).justified, fun keeps => ?_, fun spares => ?_⟩
  · exact keeps.mono_of_invariant inv_start
      (fun _ _ _ inv ok stepped => inv_step inv ok.1 stepped)
      fun _ _ w' inv ok stepped => ⟨ok.1, spares_of_kept inv stepped (ok.2 w' stepped)⟩
  · refine @Runs.mono_of_invariant _ _ _ _ (fun w => Inv w ∧ Guarded w) _ _ _ _ spares
      ⟨inv_start, guarded_start⟩
      (fun _ _ _ h ok stepped =>
        ⟨inv_step h.1 ok.1 stepped, guarded_step h.1 h.2 ok.1 ok.2 stepped⟩)
      fun _ _ _ h ok _ => ⟨ok.1, fun w' next => ?_⟩
    exact (guarded_step h.1 h.2 ok.1 ok.2 next).kept

/-! ### Three failures, and files that list their peer or another one -/

private def threeFailures : List BanTurn :=
  [0, 1, 2].map fun now =>
    ⟨now, .recordFailure (.v4 1) ⟨fun entries => entries.entries, fun _ => .refl _⟩⟩

private def afterThree : BanConfig where
  maxFailures := 3
  windowSecs := 60
  tempBanSecs := 300
  permanentAfter := 3
  maxEntries := 100
  windowSecs_le := by decide

private theorem inTime_of_checked {turns : List BanTurn} (h : checkedExec step
    (fun w turn => decide (w.InTime turn)) (start afterThree 0) turns = some w) :
    Runs step InTime (start afterThree 0) turns w :=
  runs_of_checkedExec (fun _ _ passes => of_decide_eq_true passes) h

private def spared (w : Watch) (turn : BanTurn) : Bool :=
  decide (w.InTime turn) && match turn.call with
    | .applyManual ips => w.promised.all fun p => p.1 ∉ w.listed || p.1 ∈ ips.map .fromIp
    | _ => true

private theorem spares_of_spared (w : Watch) (turn : BanTurn) (h : w.spared turn = true) :
    w.InTime turn ∧ w.Spares turn := by
  obtain ⟨inTime, spares⟩ := Bool.and_eq_true_iff.mp h
  refine ⟨of_decide_eq_true inTime, fun ips applied p mem _ listed => ?_⟩
  rw [applied] at spares
  simpa [listed] using List.all_eq_true.mp spares p mem

/-- The ban outlives a file that lists another peer only. -/
theorem automatic_bans_kept_iff_other_peer : ∃ w,
    Runs step (fun w turn => w.InTime turn ∧ w.Keeps turn) (start afterThree 0)
      (threeFailures ++ [⟨3, .applyManual [.v4 2]⟩, ⟨4, .applyManual []⟩]) w ∧
    (.v4 1, some 302) ∈ w.promised ∧ w.Justified := by
  have spares : Runs step (fun w turn => w.InTime turn ∧ w.Spares turn) (start afterThree 0)
      (threeFailures ++ [⟨3, .applyManual [.v4 2]⟩, ⟨4, .applyManual []⟩]) _ :=
    runs_of_checkedExec spares_of_spared rfl
  have kept := automatic_bans_kept_iff (spares.mono fun _ _ ok => ok.1)
  exact ⟨_, kept.2.mpr spares, by decide, kept.1⟩

/-- A file that lists the peer of an automatic ban, and then no longer does, ends the ban. -/
theorem file_ends_automatic_ban : ∃ w,
    Runs step InTime (start afterThree 0)
      (threeFailures ++ [⟨3, .applyManual [.v4 1]⟩, ⟨4, .applyManual []⟩]) w ∧
    (.v4 1, some 302) ∈ w.promised ∧ (w.list.check (.v4 1) 5).1 = none ∧ ¬w.Kept := by
  refine ⟨_, inTime_of_checked rfl, by decide, by decide, fun kept => ?_⟩
  have banned := kept (.v4 1, some 302) (by decide) (.v4 1) 5 rfl (by decide) (fun _ h => by
    cases h; decide)
  revert banned
  decide

end Watch

end MailStack.Smtpd
