import MailStack.Lib.Machine
import MailStack.Sieve.Delivery
import MailStack.Sieve.VacationState

/-! How often a mailbox replies to a sender while its owner is away. -/

namespace MailStack.Sieve

open Lib Maildir

structure Arrival where
  host : Host
  sink : Option Sink
  draw : Draw
  message : List UInt8
  envelope : Envelope

def Arrival.key (a : Arrival) : String := toAsciiLowercase a.envelope.sender

/-- A mailbox with the replies that it has sent, each with its sender and time, and the time of the
last delivery. -/
structure Away where
  mailbox : Mailbox
  replies : List (String × Int)
  clock : Int

/-- The vacation replies among the messages that were taken: only they have no sender, unless the
message itself has none. -/
def Arrival.vacationReplies (a : Arrival) (sent : List (Submission × Bool)) : List (String × Int) :=
  if a.envelope.sender.isEmpty then []
  else
    (sent.filter fun s => s.2 && s.1.sender.isEmpty).map fun s =>
      (toAsciiLowercase s.1.recipient, a.host.now)

def Away.receive (s : Away) (a : Arrival) : Option Away :=
  let d := deliverEnvelope a.host a.sink a.draw s.mailbox a.message a.envelope
  some
    { mailbox := d.mailbox
      replies := s.replies ++ a.vacationReplies d.sent
      clock := a.host.now }

/-- No two replies to one sender are less than `days` apart. -/
def DaysApart (days : Nat) (replies : List (String × Int)) : Prop :=
  replies.Pairwise fun a b => a.1 = b.1 → (days : Int) * secondsPerDay ≤ b.2 - a.2

instance (days : Nat) (replies : List (String × Int)) : Decidable (DaysApart days replies) :=
  inferInstanceAs (Decidable (List.Pairwise _ _))

/-- The script's vacation commands were written with `:days days`, which the parser cuts to 32
bits. -/
def Script.AsksDays (script : Script) (days : Nat) : Prop :=
  ∀ d subject body, Occurs (.vacation d subject body) script.commands → d = days % 2 ^ 32

/-- What the vacation state must still know of the replies so far: the last one to each sender, or
one that is older than what is kept. -/
structure Remembers (days : Nat) (replies : List (String × Int)) (clock : Int)
    (file : Option String) : Prop where
  apart : DaysApart days replies
  known : ∀ e ∈ replies,
    (∃ last, (readVacationState file).lookup e.1 = some last ∧ e.2 ≤ last) ∨
      e.2 + rememberedDays * secondsPerDay < clock

theorem Remembers.later {days : Nat} {replies : List (String × Int)} {clock now : Int}
    {file : Option String} (h : Remembers days replies clock file) (forward : clock ≤ now) :
    Remembers days replies now file :=
  ⟨h.apart, fun e mem => (h.known e mem).imp_right fun old => lt_of_lt_of_le old forward⟩

/-- There is room in the vacation state for one more sender. -/
def RoomFor (file : Option String) (sender : String) (now : Int) : Prop :=
  (recentReplies ((readVacationState file).insert sender now) now).length ≤ rememberedReplies

instance (file : Option String) (sender : String)
    (now : Int) : Decidable (RoomFor file sender now) :=
  inferInstanceAs (Decidable (_ ≤ _))

variable {host : Host}

theorem old_of_lt_cutoff {time : Int} (fits : i64Min ≤ time)
    (old : time < saturatingSub host.now (rememberedDays * secondsPerDay)) :
    time + rememberedDays * secondsPerDay < host.now := by
  unfold saturatingSub clampI64 at old
  rcases lt_max_iff.mp old with below | below
  · exact absurd fits (not_le.mpr below)
  · have := lt_of_lt_of_le below (min_le_left _ _)
    omega

theorem now_recent (host : Host) :
    saturatingSub host.now (rememberedDays * secondsPerDay) ≤ host.now := by
  have := host.nowFits
  unfold saturatingSub clampI64
  refine max_le this.1 (le_trans (min_le_left _ _) ?_)
  simp only [rememberedDays, secondsPerDay]
  omega

variable {days : Nat}

theorem window_passed {replies : Replies} {key : String} {now last : Int}
    (short : days < 2 ^ 32) (none : repliedWithin replies key now days = false)
    (found : replies.lookup key = some last) : (max days 1 : Nat) * secondsPerDay ≤ now - last := by
  unfold repliedWithin at none
  rw [found] at none
  simp only [decide_eq_false_iff_not, not_lt] at none
  have positive : 0 < max days 1 := Nat.lt_of_lt_of_le Nat.zero_lt_one (le_max_right _ _)
  have bound : max days 1 < 2 ^ 32 := max_lt short (by decide)
  by_contra within
  refine absurd ((clampI64_lt_iff ?_ ?_).mpr (not_le.mp within)) (not_lt.mpr none)
  · simp only [i64Min, secondsPerDay]
    omega
  · simp only [i64Max, secondsPerDay]
    omega

variable {replies : List (String × Int)}

/-- A reply that is sent and written down keeps the replies apart and is remembered. -/
theorem Remembers.reply {file : Option String}
    {key : String} (h : Remembers days replies host.now file) (short : days ≤ 30)
    (plain : Plain key) (room : RoomFor file key host.now)
    (none : repliedWithin (readVacationState file) key host.now days = false) :
    let written := writeVacationState host.shuffle ((readVacationState file).insert key host.now)
      host.now
    Remembers days (replies ++ [(key, host.now)]) host.now (some written) ∧
      (readVacationState (some written)).lookup key = some host.now := by
  have cleanFile := readVacationState_clean file
  have clean := cleanFile.insert plain host.nowFits
  have own : (readVacationState (some (writeVacationState host.shuffle
      ((readVacationState file).insert key host.now) host.now))).lookup key = some host.now :=
    remembered host.shuffle clean room List.mem_cons_self (now_recent host)
  refine ⟨⟨?_, ?_⟩, own⟩
  · refine List.pairwise_append.mpr ⟨h.apart, List.pairwise_singleton _ _,
      fun e mem e' single => ?_⟩
    obtain rfl := List.mem_singleton.mp single
    intro same
    rcases h.known e mem with ⟨last, found, before⟩ | old
    · have passed := window_passed (by omega) none (same ▸ found)
      have atLeast : (days : Int) * secondsPerDay ≤ (max days 1 : Nat) * secondsPerDay := by
        have := le_max_left days 1
        simp only [secondsPerDay]
        omega
      show _ ≤ host.now - e.2
      omega
    · show _ ≤ host.now - e.2
      simp only [rememberedDays, secondsPerDay] at old ⊢
      omega
  · intro e mem
    rcases List.mem_append.mp mem with mem | single
    · by_cases same : e.1 = key
      · rcases h.known e mem with ⟨last, found, before⟩ | old
        · have passed := window_passed (by omega) none (same ▸ found)
          refine .inl ⟨host.now, same ▸ own, ?_⟩
          have : (0 : Int) ≤ (max days 1 : Nat) * secondsPerDay := by
            simp only [secondsPerDay]
            omega
          omega
        · exact .inr old
      · rcases h.known e mem with ⟨last, found, before⟩ | old
        · have inside : (e.1, last) ∈ (readVacationState file).insert key host.now := by
            refine Replies.Clean.mem_of_lookup ?_
            rw [Replies.lookup_insert, if_neg same, found]
          by_cases recent : saturatingSub host.now (rememberedDays * secondsPerDay) ≤ last
          · exact .inl ⟨last, remembered host.shuffle clean room inside recent, before⟩
          · have old := old_of_lt_cutoff (clean.fits _ inside).1 (not_le.mp recent)
            exact .inr (by omega)
        · exact .inr old
    · obtain rfl := List.mem_singleton.mp single
      exact .inl ⟨host.now, own, le_refl _⟩

/-- A vacation action is passed over or not taken, or its reply is taken and written down. -/
theorem submitVacation_cases (writes : host.writes = true) (sink : Sink)
    (message : List UInt8) (envelope : Envelope) (days : Nat) (subject : Option String)
    (body : String) (o : Outbox) :
    (∃ tried, (∀ s ∈ tried, s.2 = false) ∧
        submitVacation host sink message envelope days subject body o =
          { o with attempts := o.attempts ++ tried }) ∨
      (envelope.sender.isEmpty = false ∧
        repliedWithin (readVacationState o.vacation) (toAsciiLowercase envelope.sender) host.now
          days = false ∧
        ∃ data, submitVacation host sink message envelope days subject body o =
          { attempts := o.attempts ++
              [({ sender := "", recipient := envelope.sender, data := data }, true)]
            vacation := some (writeVacationState host.shuffle
              ((readVacationState o.vacation).insert (toAsciiLowercase envelope.sender) host.now)
              host.now) }) := by
  have passed : ∃ tried : List (Submission × Bool), (∀ s ∈ tried, s.2 = false) ∧
      o = { o with attempts := o.attempts ++ tried } := ⟨[], nofun, by simp⟩
  unfold submitVacation
  split_ifs with own automated unlocked
  · exact .inl passed
  · exact .inl passed
  · exact .inl passed
  simp only
  split_ifs with within taken
  · exact .inl passed
  · simp only [Outbox.submit, writes, Bool.and_true] at taken ⊢
    refine .inr ⟨?_, by simpa using within, _, by rw [taken]⟩
    simp only [Bool.or_eq_true, not_or, Bool.not_eq_true] at own
    exact own.1
  · simp only [Outbox.submit, writes, Bool.and_true] at taken ⊢
    refine .inl ⟨[_], ?_, rfl⟩
    simpa using taken

theorem vacationReplies_append (a : Arrival) (sent more : List (Submission × Bool)) :
    a.vacationReplies (sent ++ more) = a.vacationReplies sent ++ a.vacationReplies more := by
  unfold Arrival.vacationReplies
  split_ifs
  · rfl
  · simp

variable {a : Arrival}

theorem vacationReplies_untaken {tried : List (Submission × Bool)}
    (untaken : ∀ s ∈ tried, s.2 = false) : a.vacationReplies tried = [] := by
  unfold Arrival.vacationReplies
  split_ifs
  · rfl
  · rw [List.map_eq_nil_iff, List.filter_eq_nil_iff]
    intro s mem
    simp [untaken s mem]

/-- What holds while the actions of a delivery are gone through: the replies are remembered, and
there is room for the sender or it has just had its reply. -/
structure Sending (days : Nat) (replies : List (String × Int)) (a : Arrival)
    (o : Outbox) : Prop where
  remembers : Remembers days (replies ++ a.vacationReplies o.attempts) a.host.now o.vacation
  room : RoomFor o.vacation a.key a.host.now ∨
    (readVacationState o.vacation).lookup a.key = some a.host.now

theorem replied_now {replies : Replies} {key : String} {now : Int}
    (found : replies.lookup key = some now) : repliedWithin replies key now days = true := by
  have zero : saturatingSub now now = 0 := by
    rw [saturatingSub, sub_self]
    decide
  unfold repliedWithin
  rw [found]
  simp only [zero, decide_eq_true_eq, secondsPerDay]
  omega

theorem Sending.action {o : Outbox}
    (h : Sending days replies a o) (short : days ≤ 30) (writes : a.host.writes = true)
    (plain : Plain a.key) {sink : Sink} {action : Action}
    (asks : ∀ d subject body, action = .vacation d subject body → d = days) :
    Sending days replies a (sendAction a.host sink a.message a.envelope o action) := by
  cases action with
  | redirect address =>
    refine ⟨?_, h.room⟩
    have none : a.vacationReplies
        [({ sender := a.envelope.sender, recipient := address, data := a.message },
          sink o.attempts { sender := a.envelope.sender, recipient := address, data := a.message })] =
        [] := by
      unfold Arrival.vacationReplies
      split_ifs with empty
      · rfl
      · simp [empty]
    simp only [sendAction, Outbox.submit, vacationReplies_append, none, List.append_nil]
    exact h.remembers
  | vacation d subject body =>
    obtain rfl := asks d subject body rfl
    rcases submitVacation_cases writes sink a.message a.envelope d subject body o with
      ⟨tried, untaken, eq⟩ | ⟨sender, none, data, eq⟩
    · simp only [sendAction, eq]
      refine ⟨?_, h.room⟩
      rw [vacationReplies_append, vacationReplies_untaken untaken, List.append_nil]
      exact h.remembers
    · have room : RoomFor o.vacation a.key a.host.now := by
        refine h.room.resolve_right fun found => ?_
        exact Bool.false_ne_true (none.symm.trans (replied_now found))
      have one : a.vacationReplies
          [({ sender := "", recipient := a.envelope.sender, data := data }, true)] =
          [(a.key, a.host.now)] := by
        unfold Arrival.vacationReplies
        rw [if_neg (by simp [sender])]
        rfl
      obtain ⟨remembers, own⟩ := h.remembers.reply short plain room none
      simp only [sendAction, eq]
      refine ⟨?_, .inr own⟩
      rw [vacationReplies_append, one, ← List.append_assoc]
      exact remembers
  | keep => exact h
  | discard => exact h
  | fileInto folder create => exact h
  | reject reason => exact h

theorem Sending.actions {o : Outbox}
    (h : Sending days replies a o) (short : days ≤ 30) (writes : a.host.writes = true)
    (plain : Plain a.key) {evaluated : List Action}
    (asks : ∀ d subject body, .vacation d subject body ∈ evaluated → d = days) :
    Sending days replies a (sendActions a.host a.sink a.message a.envelope evaluated o) := by
  unfold sendActions
  split
  · exact h
  rename_i sink
  induction evaluated generalizing o with
  | nil => exact h
  | cons action rest ih =>
    refine ih (h.action short writes plain fun d subject body eq => ?_) fun d subject body mem => ?_
    · exact asks d subject body (eq ▸ List.mem_cons_self)
    · exact asks d subject body (List.mem_cons_of_mem _ mem)

theorem deliverEnvelope_outbox {host : Host} {sink : Option Sink} {draw : Draw} {mailbox : Mailbox}
    {message : List UInt8} {envelope : Envelope} {evaluated : List Action}
    (eval : evaluate host mailbox.scripts message = .ok evaluated) :
    let outbox := sendActions host sink message envelope evaluated
      { attempts := [], vacation := mailbox.vacation }
    let d := deliverEnvelope host sink draw mailbox message envelope
    d.sent = outbox.attempts ∧ d.mailbox.vacation = outbox.vacation ∧
      d.mailbox.scripts = mailbox.scripts := by
  simp only [deliverEnvelope, eval]
  split
  · exact ⟨rfl, rfl, rfl⟩
  split
  · exact ⟨rfl, rfl, rfl⟩
  split
  · exact ⟨rfl, rfl, rfl⟩
  · exact ⟨rfl, rfl, rfl⟩

/-- The clock does not run backwards, and the vacation state can be written. -/
def Proper (s : Away) (a : Arrival) : Prop := s.clock ≤ a.host.now ∧ a.host.writes = true

/-- The sender has neither a space nor a line feed, and fewer than `rememberedReplies` others had a
reply in the last `rememberedDays`. -/
def Manageable (s : Away) (a : Arrival) : Prop :=
  Plain a.envelope.sender ∧ RoomFor s.mailbox.vacation a.key a.host.now

theorem Plain.key (h : Plain a.envelope.sender) : Plain a.key := by
  have keeps : ∀ d : Char, ¬(d.val ≥ 'a'.val ∧ d.val ≤ 'z'.val) → d ∉ a.envelope.sender.toList →
      d ∉ a.key.toList := by
    intro d other absent mem
    rw [Arrival.key, toList_toAsciiLowercase] at mem
    obtain ⟨c, inside, lower⟩ := List.mem_map.mp mem
    exact absent (eq_of_toLower_eq other lower ▸ inside)
  exact ⟨keeps ' ' (by decide) h.1, keeps '\n' (by decide) h.2⟩

structure AwayInv (days : Nat) (scripts : ScriptArea) (s : Away) : Prop where
  scripts : s.mailbox.scripts = scripts
  remembers : Remembers days s.replies s.clock s.mailbox.vacation

theorem AwayInv.receive {scripts : ScriptArea} {source : String} {script : Script}
    (load : loadScript scripts = .ok (some source)) (compiled : compile source = .ok script)
    (asks : script.AsksDays days) (short : days ≤ 30) {s s' : Away}
    (h : AwayInv days scripts s) (proper : Proper s a) (manageable : Manageable s a)
    (step : s.receive a = some s') : AwayInv days scripts s' := by
  cases step
  have eval : evaluate a.host s.mailbox.scripts a.message =
      .ok (actions a.host.decodeBase64 script a.message) := by
    rw [evaluate, h.scripts, load]
    simp only [bind, Except.bind, compiled]
    rfl
  obtain ⟨sent, vacation, kept⟩ := @deliverEnvelope_outbox _ a.sink a.draw _ _ a.envelope _ eval
  have start : Sending days s.replies a { attempts := [], vacation := s.mailbox.vacation } := by
    refine ⟨?_, .inl manageable.2⟩
    have none : a.vacationReplies [] = [] := by
      unfold Arrival.vacationReplies
      split_ifs <;> rfl
    rw [none, List.append_nil]
    exact h.remembers.later proper.1
  have same : ∀ d subject body, .vacation d subject body ∈
      actions a.host.decodeBase64 script a.message → d = days := by
    intro d subject body mem
    obtain ⟨c, occurs, own⟩ := actions_from mem
    cases c <;> cases own
    exact (asks _ _ _ occurs).trans (Nat.mod_eq_of_lt (by omega))
  have done := start.actions short proper.2 manageable.1.key same
  refine ⟨kept.trans h.scripts, ?_⟩
  simp only [sent, vacation]
  exact done.remembers

/-- Whatever messages arrive and whichever replies are taken: as long as the script asks for at most
30 days, and every sender has neither a space nor a line feed and there is room for it, no two
replies to one sender are closer than the days of the script. -/
theorem vacation_replies_apart {days : Nat} {start final : Away} {arrivals : List Arrival}
    {source : String} {script : Script}
    (load : loadScript start.mailbox.scripts = .ok (some source))
    (compiled : compile source = .ok script) (asks : script.AsksDays days)
    (fresh : start.replies = []) (short : days ≤ 30)
    (run : Runs Away.receive (fun s a => Proper s a ∧ Manageable s a) start arrivals final) :
    DaysApart days final.replies := by
  have first : AwayInv days start.mailbox.scripts start := by
    refine ⟨rfl, ?_, ?_⟩
    · rw [fresh]
      exact List.Pairwise.nil
    · rw [fresh]
      nofun
  have last := run.invariant first fun s a s' inv ok step =>
    inv.receive load compiled asks short ok.1 ok.2 step
  exact last.remembers.apart

section Quoted

theorem perm_id (entries : List (String × Int)) : (id entries).Perm entries := .refl _

/-- An arrival at second `now` from `sender`, when everything works. -/
def plainArrival (now : Nat) (fits : (now : Int) ≤ i64Max) (sender : String) : Arrival :=
  { host :=
      { decodeBase64 := fun _ => none
        now := now
        nowFits := ⟨le_trans (by decide) (Int.natCast_nonneg now), fits⟩
        shuffle := { order := id, perm := perm_id }
        locks := true
        writes := true }
    sink := some fun _ _ => true
    draw := { base := fun i => toString i, fresh := 1 }
    message := bytes "Subject: hi\r\n\r\nbody\r\n"
    envelope := { sender, recipient := "b@example.com" } }

def awayScript : String := "vacation :days 7 \"gone\";"

/-- A mailbox whose owner is away for a week. -/
def awayMailbox : Away :=
  { mailbox :=
      { store := { folders := [(inbox, Folder.empty)], quota := none, usage := none }
        scripts := { sieve := some (.file (bytes awayScript)), active := none, scripts := [] }
        vacation := none }
    replies := []
    clock := 0 }

theorem load_awayScript : loadScript awayMailbox.mailbox.scripts = .ok (some awayScript) := by
  decide +kernel

theorem compile_awayScript :
    compile awayScript = .ok { commands := [.vacation 7 none "gone"] } := by
  have tokens : Lexer.tokenize awayScript =
      .ok [.ident "vacation", .tag "days", .number 7, .str "gone", .semicolon] := by decide +kernel
  rw [compile, tokens]
  rfl

theorem awayScript_asksDays : Script.AsksDays { commands := [.vacation 7 none "gone"] } 7 := by
  intro d subject body occurs
  cases occurs with
  | here mem =>
    cases List.mem_singleton.mp mem
    rfl
  | branch mem => cases List.mem_singleton.mp mem
  | otherwise mem => cases List.mem_singleton.mp mem

def Away.next (s : Away) (a : Arrival) : Away := (s.receive a).getD s

theorem Away.receive_next (s : Away) (a : Arrival) : s.receive a = some (s.next a) := rfl

/-- Of three messages of one sender, the second a second after the first one and the third a week
after it, two get a reply. -/
theorem vacation_replies_apart_week :
    let first := plainArrival 0 (by decide) "c@example.com"
    let second := plainArrival 1 (by decide) "c@example.com"
    let third := plainArrival 604800 (by decide) "c@example.com"
    let final := ((awayMailbox.next first).next second).next third
    final.replies = [("c@example.com", 0), ("c@example.com", 604800)] ∧
      DaysApart 7 final.replies := by
  intro first second third final
  have run : Runs Away.receive (fun s a => Proper s a ∧ Manageable s a) awayMailbox
      [first, second, third] final :=
    (((Runs.nil awayMailbox).snoc ⟨⟨by decide, rfl⟩, by decide, by decide +kernel⟩
      (Away.receive_next _ first)).snoc ⟨⟨by decide +kernel, rfl⟩, by decide, by decide +kernel⟩
      (Away.receive_next _ second)).snoc ⟨⟨by decide +kernel, rfl⟩, by decide, by decide +kernel⟩
      (Away.receive_next _ third)
  exact ⟨by decide +kernel, vacation_replies_apart load_awayScript compile_awayScript
    awayScript_asksDays rfl (by decide) run⟩

/-- A sender with a space in its quoted local part is not found again in the vacation state. -/
theorem quoted_sender_replied_twice :
    ¬∀ (days : Nat) (start final : Away) (arrivals : List Arrival) (source : String)
      (script : Script), loadScript start.mailbox.scripts = .ok (some source) →
      compile source = .ok script → script.AsksDays days → start.replies = [] →
      Runs Away.receive Proper start arrivals final → DaysApart days final.replies := by
  intro all
  let first := plainArrival 0 (by decide) "\"a b\"@example.com"
  let second := plainArrival 1 (by decide) "\"a b\"@example.com"
  have run : Runs Away.receive Proper awayMailbox [first, second]
      ((awayMailbox.next first).next second) :=
    (Runs.snoc (.nil awayMailbox) ⟨by decide, rfl⟩ (Away.receive_next _ first)).snoc
      ⟨by decide +kernel, rfl⟩ (Away.receive_next _ second)
  have apart := all 7 _ _ _ _ _ load_awayScript compile_awayScript awayScript_asksDays rfl run
  exact absurd apart (by decide +kernel)

end Quoted

end MailStack.Sieve
