import Mathlib.Data.String.Basic
import MailStack.Queue.Conservation
import MailStack.Queue.Outcomes

/-! A delivery to the mail exchangers of each domain: the groups of recipients, and how the results
for the groups make up the result for all. -/

namespace MailStack.Queue

open Lib Smtp

def Sorted (groups : List (String × List String)) : Prop := groups.Pairwise fun a b => a.1 < b.1

variable {domain recipient : String} {group : String × List String} {peer : Peer}

theorem key_of_mem_addToGroup {groups : List (String × List String)}
    (h : group ∈ addToGroup domain recipient groups) :
    group.1 = domain ∨ ∃ g ∈ groups, g.1 = group.1 := by
  induction groups with
  | nil => exact .inl (by simp_all [addToGroup])
  | cons head rest ih =>
    obtain ⟨d, members⟩ := head
    rw [addToGroup] at h
    split at h
    · rcases List.mem_cons.mp h with rfl | h
      · exact .inr ⟨_, List.mem_cons_self, rfl⟩
      · exact .inr ⟨group, List.mem_cons_of_mem _ h, rfl⟩
    split at h
    · rcases List.mem_cons.mp h with rfl | h
      · exact .inl rfl
      · exact .inr ⟨group, h, rfl⟩
    · rcases List.mem_cons.mp h with rfl | h
      · exact .inr ⟨_, List.mem_cons_self, rfl⟩
      · exact (ih h).imp_right fun ⟨g, mem, same⟩ => ⟨g, List.mem_cons_of_mem _ mem, same⟩

theorem addToGroup_sorted {groups : List (String × List String)}
    (sorted : Sorted groups) : Sorted (addToGroup domain recipient groups) := by
  induction groups with
  | nil => exact List.pairwise_singleton _ _
  | cons head rest ih =>
    obtain ⟨d, members⟩ := head
    obtain ⟨first, later⟩ := List.pairwise_cons.mp sorted
    rw [addToGroup]
    split
    · exact List.pairwise_cons.mpr ⟨first, later⟩
    rename_i other
    split
    · rename_i before
      refine List.pairwise_cons.mpr ⟨fun group mem => ?_, sorted⟩
      rcases List.mem_cons.mp mem with rfl | mem
      · exact before
      · exact lt_trans before (first group mem)
    · rename_i after
      refine List.pairwise_cons.mpr ⟨fun group mem => ?_, ih later⟩
      rcases key_of_mem_addToGroup mem with same | ⟨g, inRest, same⟩
      · rw [same]
        exact lt_of_le_of_ne (not_lt.mp after) (Ne.symm other)
      · exact same ▸ first g inRest

theorem addToGroup_perm (domain recipient : String) (groups : List (String × List String)) :
    ((addToGroup domain recipient groups).flatMap (·.2)).Perm
      (groups.flatMap (·.2) ++ [recipient]) := by
  induction groups with
  | nil => simp [addToGroup]
  | cons head rest ih =>
    obtain ⟨d, members⟩ := head
    rw [addToGroup]
    split
    · simp only [List.flatMap_cons, List.append_assoc]
      exact (List.perm_append_comm).append_left members
    split
    · simp only [List.flatMap_cons, List.singleton_append]
      exact @List.perm_append_comm _ [recipient] _
    · simp only [List.flatMap_cons, List.append_assoc]
      exact ih.append_left members

/-- A group after one more recipient is the group before, with the recipient if it has its
domain. -/
theorem mem_addToGroup {groups : List (String × List String)}
    (sorted : Sorted groups)
    (h : group ∈ addToGroup domain recipient groups) :
    (group.1 ≠ domain ∧ group ∈ groups) ∨
      group.1 = domain ∧ ∃ members, group.2 = members ++ [recipient] ∧
        ((domain, members) ∈ groups ∨ members = [] ∧ ∀ g ∈ groups, g.1 ≠ domain) := by
  induction groups with
  | nil =>
    obtain rfl : group = (domain, [recipient]) := by simpa [addToGroup] using h
    exact .inr ⟨rfl, [], rfl, .inr ⟨rfl, nofun⟩⟩
  | cons head rest ih =>
    obtain ⟨d, members⟩ := head
    obtain ⟨first, later⟩ := List.pairwise_cons.mp sorted
    rw [addToGroup] at h
    split at h
    · rename_i same
      subst same
      rcases List.mem_cons.mp h with rfl | h
      · exact .inr ⟨rfl, members, rfl, .inl List.mem_cons_self⟩
      · exact .inl ⟨(ne_of_lt (first group h)).symm, List.mem_cons_of_mem _ h⟩
    rename_i other
    split at h
    · rename_i before
      have apart : ∀ g ∈ (d, members) :: rest, g.1 ≠ domain := by
        intro g mem
        rcases List.mem_cons.mp mem with rfl | mem
        · exact Ne.symm other
        · exact (ne_of_lt (lt_trans before (first g mem))).symm
      rcases List.mem_cons.mp h with rfl | h
      · exact .inr ⟨rfl, [], rfl, .inr ⟨rfl, apart⟩⟩
      · exact .inl ⟨apart group h, h⟩
    · rcases List.mem_cons.mp h with rfl | h
      · exact .inl ⟨Ne.symm other, List.mem_cons_self⟩
      · refine (ih later h).imp (fun ⟨ne, mem⟩ => ⟨ne, List.mem_cons_of_mem _ mem⟩) ?_
        rintro ⟨same, old, eq, known | ⟨rfl, fresh⟩⟩
        · exact ⟨same, old, eq, .inl (List.mem_cons_of_mem _ known)⟩
        · refine ⟨same, [], eq, .inr ⟨rfl, fun g mem => ?_⟩⟩
          rcases List.mem_cons.mp mem with rfl | mem
          · exact Ne.symm other
          · exact fresh g mem

def membersOf (recipients : List String) (domain : String) : List String :=
  recipients.filter fun r => domainOf r = domain

/-- The groups are the recipients of each domain, in order of the domains. -/
structure Grouped (groups : List (String × List String)) (recipients : List String) : Prop where
  sorted : Sorted groups
  members : ∀ group ∈ groups, group.2 = membersOf recipients group.1
  perm : (groups.flatMap (·.2)).Perm recipients

theorem Grouped.mem {groups : List (String × List String)} {recipients : List String}
    (h : Grouped groups recipients) {r : String} (mem : r ∈ recipients) :
    (domainOf r, membersOf recipients (domainOf r)) ∈ groups := by
  obtain ⟨group, inGroups, inGroup⟩ := List.mem_flatMap.mp (h.perm.mem_iff.mpr mem)
  rw [h.members group inGroups] at inGroup
  have same : domainOf r = group.1 := by simpa using (List.mem_filter.mp inGroup).2
  rw [same, ← h.members group inGroups]
  exact inGroups

theorem groupByDomain_grouped (recipients : List String) :
    Grouped (groupByDomain recipients) recipients := by
  induction recipients using List.reverseRecOn with
  | nil => exact ⟨List.Pairwise.nil, nofun, .nil⟩
  | append_singleton before r ih =>
    rw [groupByDomain, List.foldl_append, ← groupByDomain]
    refine ⟨addToGroup_sorted ih.sorted, fun group mem => ?_,
      (addToGroup_perm _ _ _).trans (ih.perm.append_right [r])⟩
    rcases mem_addToGroup ih.sorted mem with ⟨ne, mem⟩ | ⟨same, members, eq, known⟩
    · rw [ih.members group mem]
      simp [membersOf, Ne.symm ne]
    · rw [eq, same]
      rcases known with known | ⟨rfl, fresh⟩
      · rw [show members = membersOf before (domainOf r) from ih.members _ known]
        simp [membersOf]
      · have none : membersOf before (domainOf r) = [] := by
          refine List.filter_eq_nil_iff.mpr fun r' mem same' => ?_
          have listed := ih.mem mem
          exact fresh _ listed (by simpa using same')
        simp only [membersOf, List.filter_append] at none ⊢
        simp [none]

def Sound (recipients : List String) : DeliveryResult → Prop
  | .ok receipt => receipt.accepted = recipients.length
  | .error failure => failure.accepted ⊆ recipients

theorem classifySmtpError_accepted (e : SmtpError) : (classifySmtpError e).accepted = [] := by
  unfold classifySmtpError
  split <;> rfl

variable {failure : DeliveryFailure} {transport : RemoteTransport} {session : SmtpSession}

theorem greet_error (h : transport.greet session = .error failure) :
    failure.accepted = [] := by
  unfold RemoteTransport.greet at h
  split at h
  · cases h
    exact classifySmtpError_accepted _
  · split at h <;> cases h
    rfl

theorem secure_error {mode : TlsMode}
    (h : transport.secure peer mode session = .error failure) : failure.accepted = [] := by
  unfold RemoteTransport.secure at h
  split at h
  · split at h
    · cases h
      rfl
    split at h
    · cases h
      exact classifySmtpError_accepted _
    · exact greet_error h
  · cases h

theorem logIn_error (h : transport.logIn session = .error failure) :
    failure.accepted = [] := by
  unfold RemoteTransport.logIn at h
  split at h
  · cases h
  split at h
  · cases h
    rfl
  split at h
  · cases h
    exact classifySmtpError_accepted _
  · split at h <;> cases h
    rfl

theorem prepare_error {tls : DeliveryTls}
    (h : transport.prepare peer tls = .error failure) :
    failure.accepted = [] := by
  simp only [RemoteTransport.prepare] at h
  split at h
  · cases h
    exact classifySmtpError_accepted _
  split at h
  · rename_i greeted
    cases h
    exact greet_error greeted
  split at h
  · cases h
  split at h
  · rename_i secured
    cases h
    exact secure_error secured
  · exact logIn_error h

theorem Sent.sound {mailFrom : String} {recipients : List String}
    {replies : List (Except TransportError Response)} {outcome : Except SmtpError MessageOutcome}
    (sent : Sent mailFrom recipients replies outcome) :
    Sound recipients (settleOutcome recipients outcome) := by
  cases sent with
  | broken => simp [settleOutcome, Sound, classifySmtpError_accepted]
  | mailRefused | nobody | allRefused | messageRefused =>
    exact List.nil_subset _
  | taken => rfl
  | partly =>
    intro r mem
    obtain ⟨_, zip, -⟩ := mem_accepted.mp mem
    exact (List.of_mem_zip zip).1

/-- A delivery to one server fails before the message, or comes to what the message came to. -/
theorem deliverOne_cases (transport : RemoteTransport) (peer : Peer) (tls : DeliveryTls)
    (entry : QueueEntry) (recipients : List String) :
    (∃ failure, transport.deliverOne peer tls entry recipients = .error failure ∧
      failure.accepted = []) ∨
    ∃ session, transport.prepare peer tls = .ok session ∧
      transport.deliverOne peer tls entry recipients = settleOutcome recipients
        (sendMessageDetailed session entry.mailFrom recipients entry.data).1 := by
  unfold RemoteTransport.deliverOne
  cases prepared : transport.prepare peer tls with
  | error failure => exact .inl ⟨failure, rfl, prepare_error prepared⟩
  | ok session => exact .inr ⟨session, rfl, rfl⟩

theorem deliverOne_sound (transport : RemoteTransport) (peer : Peer) (tls : DeliveryTls)
    (entry : QueueEntry) (recipients : List String) :
    Sound recipients (transport.deliverOne peer tls entry recipients) := by
  rcases deliverOne_cases transport peer tls entry recipients with
    ⟨failure, result, none⟩ | ⟨session, -, result⟩
  · rw [result, Sound, none]
    exact List.nil_subset _
  · rw [result]
    exact (sendMessageDetailed_sent session entry.mailFrom recipients entry.data).sound

theorem tryTargets_sound (transport : RemoteTransport) (domain : String) (entry : QueueEntry)
    (recipients : List String) (targets : List Peer) (last : Option DeliveryFailure)
    (nobody : ∀ failure, last = some failure → failure.accepted = []) :
    Sound recipients (transport.tryTargets domain entry recipients targets last) := by
  induction targets generalizing last with
  | nil =>
    cases last with
    | none => exact List.nil_subset _
    | some failure =>
      rw [RemoteTransport.tryTargets, Option.getD_some, Sound, nobody failure rfl]
      exact List.nil_subset _
  | cons peer rest ih =>
    have sound := deliverOne_sound transport peer .plaintext entry recipients
    rw [RemoteTransport.tryTargets]
    split
    · rename_i receipt result
      rwa [result] at sound
    · rename_i failure result
      rw [result] at sound
      split
      · exact sound
      split
      · exact sound
      · rename_i nobody'
        refine ih _ fun failure' eq => ?_
        cases eq
        simpa using nobody'

theorem deliverDirectToDomain_sound (transport : RemoteTransport)
    (mx : String → Except SmtpError (List Peer)) (domain : String) (recipients : List String)
    (entry : QueueEntry) :
    Sound recipients (transport.deliverDirectToDomain mx domain recipients entry) := by
  unfold RemoteTransport.deliverDirectToDomain
  split
  · rw [Sound, classifySmtpError_accepted]
    exact List.nil_subset _
  · exact tryTargets_sound transport domain entry recipients _ none nofun

theorem Sound.acceptedBy_subset {recipients : List String} {result : DeliveryResult}
    (h : Sound recipients result) : acceptedBy recipients result ⊆ recipients := by
  cases result with
  | ok receipt => simp [acceptedBy, show receipt.accepted = _ from h]
  | error failure => exact h

def failureOf : DeliveryResult → Option DeliveryFailure
  | .ok _ => none
  | .error failure => some failure

theorem deliverGroups_eq (transport : RemoteTransport)
    (mx : String → Except SmtpError (List Peer)) (entry : QueueEntry)
    (groups : List (String × List String)) (run : DirectRun) :
    transport.deliverGroups mx entry groups run =
      { accepted := run.accepted ++ groups.flatMap fun group =>
          acceptedBy group.2 (transport.deliverDirectToDomain mx group.1 group.2 entry)
        failures := run.failures ++ groups.filterMap fun group =>
          failureOf (transport.deliverDirectToDomain mx group.1 group.2 entry) } := by
  induction groups generalizing run with
  | nil => simp [RemoteTransport.deliverGroups]
  | cons group rest ih =>
    obtain ⟨domain, members⟩ := group
    have sound := deliverDirectToDomain_sound transport mx domain members entry
    rw [RemoteTransport.deliverGroups, ih]
    generalize part : transport.deliverDirectToDomain mx domain members entry = result at sound ⊢
    cases result with
    | ok receipt =>
      simp [DirectRun.add, part, acceptedBy, failureOf, show receipt.accepted = _ from sound]
    | error failure => simp [DirectRun.add, part, acceptedBy, failureOf]

theorem mergeFailures_permanent {failures : List DeliveryFailure}
    (h : (mergeFailures failures).failureClass = .permanent)
    (mem : failure ∈ failures) : failure.failureClass = .permanent := by
  unfold mergeFailures at h
  split at h
  · rw [List.mem_singleton.mp mem]
    exact h
  · simp only at h
    split at h
    · cases h
    · rename_i all
      simp only [List.any_eq_true, not_exists, not_and, DeliveryFailure.isPermanent] at all
      simpa using all failure mem

/-- The result for the recipients is put together from the results for each domain: everybody is
accepted or failed, accepted where its domain accepted it, and failed for good only where its domain
failed for good. -/
structure MergedFrom (recipients : List String) (part : String → DeliveryResult)
    (result : DeliveryResult) : Prop where
  parts : ∀ r ∈ recipients, r ∈ failedBy recipients result ↔ r ∉ acceptedBy recipients result
  within : acceptedBy recipients result ⊆ recipients
  accepted : ∀ r ∈ recipients, r ∈ acceptedBy recipients result ↔
    r ∈ acceptedBy (membersOf recipients (domainOf r)) (part (domainOf r))
  rejected : ∀ r ∈ recipients, r ∈ rejectedBy recipients result →
    r ∈ rejectedBy (membersOf recipients (domainOf r)) (part (domainOf r))

section Merge

variable {groups : List (String × List String)} {recipients : List String}
  {part : String → DeliveryResult}

def acceptedOf (groups : List (String × List String)) (recipients : List String)
    (part : String → DeliveryResult) : List String :=
  groups.flatMap fun group => acceptedBy (membersOf recipients group.1) (part group.1)

theorem mem_acceptedOf (grouped : Grouped groups recipients)
    (sound : ∀ domain, Sound (membersOf recipients domain) (part domain)) {r : String} :
    r ∈ acceptedOf groups recipients part ↔ r ∈ recipients ∧
      r ∈ acceptedBy (membersOf recipients (domainOf r)) (part (domainOf r)) := by
  constructor
  · intro mem
    obtain ⟨group, -, taken⟩ := List.mem_flatMap.mp mem
    obtain ⟨inside, same⟩ := List.mem_filter.mp ((sound group.1).acceptedBy_subset taken)
    have same : domainOf r = group.1 := by simpa using same
    exact ⟨inside, same ▸ taken⟩
  · rintro ⟨inside, taken⟩
    exact List.mem_flatMap.mpr ⟨_, grouped.mem inside, taken⟩

theorem acceptedOf_perm (grouped : Grouped groups recipients)
    (sound : ∀ domain, Sound (membersOf recipients domain) (part domain))
    (clean : groups.filterMap (fun group => failureOf (part group.1)) = []) :
    (acceptedOf groups recipients part).Perm recipients := by
  have whole : acceptedOf groups recipients part = groups.flatMap (·.2) := by
    refine List.flatMap_congr fun group mem => ?_
    have ok := List.filterMap_eq_nil_iff.mp clean group mem
    have sound := sound group.1
    rw [grouped.members group mem]
    cases result : part group.1 with
    | ok receipt =>
      rw [result] at sound
      exact if_pos sound
    | error failure =>
      rw [result] at ok
      cases ok
  rw [whole]
  exact grouped.perm

theorem merged_of_parts (grouped : Grouped groups recipients)
    (sound : ∀ domain, Sound (membersOf recipients domain) (part domain)) :
    MergedFrom recipients part (DirectRun.result
      { accepted := acceptedOf groups recipients part
        failures := groups.filterMap fun group => failureOf (part group.1) }) := by
  have accepted := @mem_acceptedOf groups recipients part grouped sound
  unfold DirectRun.result
  by_cases clean : groups.filterMap (fun group => failureOf (part group.1)) = []
  · have perm := acceptedOf_perm grouped sound clean
    have everybody : acceptedBy recipients
        (.ok { accepted := (acceptedOf groups recipients part).length }) = recipients :=
      if_pos perm.length_eq
    simp only [clean, List.isEmpty_nil, if_true]
    refine ⟨fun r mem => ?_, ?_, fun r mem => ?_, fun r _ mem => absurd mem List.not_mem_nil⟩
    · simp [failedBy, everybody, mem]
    · rw [everybody]
      exact List.Subset.refl _
    · rw [everybody]
      exact ⟨fun mem => (accepted.mp (perm.mem_iff.mpr mem)).2, fun _ => mem⟩
  · have dirty : (groups.filterMap fun group => failureOf (part group.1)).isEmpty = false := by
      simpa using clean
    simp only [dirty, Bool.false_eq_true, if_false]
    refine ⟨fun r mem => ?_, fun r mem => (accepted.mp mem).1, fun r mem => ?_,
      fun r mem failed => ?_⟩
    · simp [failedBy, failedOf, acceptedBy, DeliveryFailure.withAccepted, mem]
    · exact ⟨fun taken => (accepted.mp taken).2, fun taken => accepted.mpr ⟨mem, taken⟩⟩
    · simp only [rejectedBy] at failed
      split at failed
      · rename_i final
        have refused : r ∉ acceptedOf groups recipients part := by
          simpa [failedOf, DeliveryFailure.withAccepted] using (List.mem_filter.mp failed).2
        have inside : r ∈ membersOf recipients (domainOf r) :=
          List.mem_filter.mpr ⟨mem, by simp⟩
        have sound := sound (domainOf r)
        rw [accepted, not_and] at refused
        have refused := refused mem
        cases result : part (domainOf r) with
        | ok receipt =>
          rw [result] at sound refused
          rw [acceptedBy, if_pos (show receipt.accepted = _ from sound)] at refused
          exact absurd inside refused
        | error failure =>
          rw [result] at refused
          have known : failure ∈ groups.filterMap fun group => failureOf (part group.1) :=
            List.mem_filterMap.mpr ⟨_, grouped.mem mem, by rw [result]; rfl⟩
          rw [rejectedBy, if_pos (mergeFailures_permanent final known), failedOf]
          exact List.mem_filter.mpr ⟨inside, by simpa [acceptedBy] using refused⟩
      · exact absurd failed List.not_mem_nil

end Merge

theorem deliverDirect_merged (transport : RemoteTransport) {network : Network}
    {mx : String → Except SmtpError (List Peer)} (resolver : network.mx = some mx)
    (entry : QueueEntry) (recipients : List String) :
    MergedFrom recipients
      (fun domain =>
        transport.deliverDirectToDomain mx domain (membersOf recipients domain) entry)
      (transport.deliverDirect network entry recipients) := by
  have grouped := groupByDomain_grouped recipients
  have merged := merged_of_parts grouped fun domain =>
    deliverDirectToDomain_sound transport mx domain (membersOf recipients domain) entry
  have accepted : acceptedOf (groupByDomain recipients) recipients (fun domain =>
      transport.deliverDirectToDomain mx domain (membersOf recipients domain) entry) =
      (groupByDomain recipients).flatMap fun group =>
        acceptedBy group.2 (transport.deliverDirectToDomain mx group.1 group.2 entry) :=
    List.flatMap_congr fun group mem => by rw [grouped.members group mem]
  have failures : ((groupByDomain recipients).filterMap fun group => failureOf
      (transport.deliverDirectToDomain mx group.1 (membersOf recipients group.1) entry)) =
      (groupByDomain recipients).filterMap fun group =>
        failureOf (transport.deliverDirectToDomain mx group.1 group.2 entry) :=
    List.filterMap_congr fun group mem => by rw [grouped.members group mem]
  rw [accepted, failures] at merged
  simpa only [RemoteTransport.deliverDirect, resolver, deliverGroups_eq, List.nil_append]
    using merged

/-- The accounts of outbound mail: for one server they are right exactly if the message is not
rejected after a recipient was deferred and another accepted, and the accounts of the domains make
up those of a direct delivery. -/
theorem outbound_accounted_iff (transport : RemoteTransport) (network : Network)
    (entry : QueueEntry) (recipients : List String) (unique : recipients.Nodup) :
    (∀ session : SmtpSession,
      OutcomeAccounted recipients session.replies (settleOutcome recipients
          (sendMessageDetailed session entry.mailFrom recipients entry.data).1) ↔
        ¬RejectedAfterDeferral entry.mailFrom recipients session.replies) ∧
    ∀ mx, network.mx = some mx →
      MergedFrom recipients
        (fun domain =>
          transport.deliverDirectToDomain mx domain (membersOf recipients domain) entry)
        (transport.deliverDirect network entry recipients) :=
  ⟨fun session => sendMessageDetailed_accounted_iff session entry.mailFrom entry.data unique,
    fun _ resolver => deliverDirect_merged transport resolver entry recipients⟩

def coded (code : Nat) : Except TransportError Response := .ok { code, lines := [] }

def twoRecipients : List String := ["a@remote.net", "b@remote.net"]

theorem outbound_accounted_iff_two :
    twoRecipients.Nodup ∧
      OutcomeAccounted twoRecipients [coded 250, coded 451, coded 250, coded 354, coded 250]
        (settleOutcome twoRecipients (sendMessageDetailed
          (SmtpSession.new [coded 250, coded 451, coded 250, coded 354, coded 250])
          (plainEntry "a@example.org" twoRecipients).mailFrom twoRecipients
          (plainEntry "a@example.org" twoRecipients).data).1) := by
  refine ⟨by decide, ((outbound_accounted_iff ⟨"mx.example.org", none⟩
    ⟨fun _ _ => .error (.dns "no answer"), none⟩ (plainEntry "a@example.org" twoRecipients)
    twoRecipients (by decide)).1
      (SmtpSession.new [coded 250, coded 451, coded 250, coded 354, coded 250])).mpr
        fun mixed => ?_⟩
  rcases mixed.rejected with ⟨_, eq, high, -⟩ | ⟨-, _, eq, high, -⟩ <;>
    · cases eq
      exact absurd high (by decide)

/-- The message is rejected after the first recipient was deferred: that recipient fails for
good. -/
theorem deferred_recipient_rejected :
    ¬∀ (session : SmtpSession) (mailFrom data : String) (recipients : List String),
      recipients.Nodup → OutcomeAccounted recipients session.replies
        (settleOutcome recipients (sendMessageDetailed session mailFrom recipients data).1) := by
  intro claim
  have accounts := claim
    (SmtpSession.new [coded 250, coded 451, coded 250, coded 354, coded 554]) "a@example.org"
    "Subject: x\r\n\r\nx" twoRecipients (by decide)
  refine accounts.deferred 0 "a@remote.net" rfl (.inl ⟨{ code := 451, lines := [] }, ?_⟩) ?_
  · exact ⟨rfl, by decide⟩
  · decide +kernel

end MailStack.Queue
