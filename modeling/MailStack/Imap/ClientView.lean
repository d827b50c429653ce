import MailStack.Imap.Untagged

/-! A client that keeps the list of the messages of the selected folder by the untagged responses
has the list that its session shows. -/

namespace MailStack.Imap

open Lib Maildir

structure ClientEntry where
  uid : Nat
  flags : FlagSet
deriving DecidableEq

def entriesOf (messages : List MessageMeta) : List ClientEntry :=
  messages.map fun m => { uid := m.uid, flags := m.flags }

/-- What a client makes of a response. What it does not have yet of the messages that it is told to
be there, it asks for: `server` is what the session shows then. -/
def hear (server client : List ClientEntry) : Response → List ClientEntry
  | .ok _ | .recent _ => client
  | .expunge number => removeAt client number
  | .vanished ranges => client.filter fun e => !SequenceSet.covers ranges e.uid
  | .total count => client ++ (server.drop client.length).take (count - client.length)
  | .fetch number flags _ _ => client.modify (number - 1) fun e => { e with flags }

/-- The messages stand in the order of their UIDs, as a folder that is opened lists them. -/
def Ascending (messages : List MessageMeta) : Prop := messages.Pairwise fun a b => a.uid < b.uid

instance (messages : List MessageMeta) : Decidable (Ascending messages) :=
  inferInstanceAs (Decidable (messages.Pairwise fun a b => a.uid < b.uid))

/-- The state of the folder comes after the view: it is of the same UIDVALIDITY, and what the view
does not have is above all that it has. -/
structure Follows (view : View) (state : FolderState) : Prop where
  uidvalidity : state.uidvalidity = view.uidvalidity
  ascending : Ascending state.messages
  above : ∀ m ∈ state.messages, (∃ o ∈ view.messages, o.uid = m.uid) ∨
    ∀ o ∈ view.messages, o.uid < m.uid

/-! ### Commands -/

/-- A command that changes what is shown, with what the store answers. -/
inductive ViewAct
  | refresh (stamp : Nat) (opened : Except MailError FolderState)
  | expunge (restrict : SequenceSet) (removed : Except MailError Nat)
  | move (set : SequenceSet) (uidMode : Bool) (copied : Except MailError (Nat × List Nat))
      (removed : Except MailError Nat)
  | copy (set : SequenceSet) (uidMode : Bool) (copied : Except MailError (Nat × List Nat))
      (here : Bool) (stamp : Nat) (opened : Except MailError FolderState)
  | store (set : SequenceSet) (job : StoreJob) (answers : List (Except MailError Nat))

def ViewAct.apply (enabled : Enabled) (view : View) : ViewAct → View × List Response
  | .refresh stamp opened => view.refresh enabled stamp opened
  | .expunge restrict removed => view.expunge enabled restrict removed
  | .move set uidMode copied removed => view.move enabled (view.targetUids set uidMode) copied removed
  | .copy set uidMode copied here stamp opened =>
    view.copy enabled (view.targetUids set uidMode) copied here stamp opened
  | .store set job answers =>
    View.storeEach enabled job
      ((view.targets set job.uidMode).map fun (number, m) => (number, m.uid)) answers view

/-- A folder that is opened again follows the view. -/
def ViewAct.Fits (view : View) : ViewAct → Prop
  | .refresh _ opened | .copy _ _ _ _ _ opened => ∀ state, opened = .ok state → Follows view state
  | _ => True

structure Turn where
  enabled : Enabled
  act : ViewAct

structure Pair where
  view : View
  client : List ClientEntry

def Pair.step (p : Pair) (turn : Turn) : Option Pair :=
  let after := turn.act.apply turn.enabled p.view
  some
    { view := after.1
      client := after.2.foldl (hear (entriesOf after.1.messages)) p.client }

def Pair.Fits (p : Pair) (turn : Turn) : Prop := turn.act.Fits p.view

/-- The client's view of the mailbox is the session's. -/
structure Pair.Agrees (p : Pair) : Prop where
  ascending : Ascending p.view.messages
  same : p.client = entriesOf p.view.messages

/-! ### Messages that go -/

variable {messages : List MessageMeta} {opened : Except MailError FolderState} {number : Nat}
  {stamp : Nat}

theorem Ascending.nodup (h : Ascending messages) :
    (messages.map (·.uid)).Nodup :=
  List.pairwise_map.mpr (h.imp fun lt => lt.ne)

theorem Ascending.filter (h : Ascending messages)
    (p : MessageMeta → Bool) : Ascending (messages.filter p) :=
  List.Pairwise.sublist List.filter_sublist h

theorem Ascending.eq_of_uid (h : Ascending messages)
    {a b : MessageMeta} (ha : a ∈ messages) (hb : b ∈ messages) (same : a.uid = b.uid) : a = b :=
  List.inj_on_of_nodup_map h.nodup ha hb same

variable {m : MessageMeta}

theorem mem_removed (ascending : Ascending messages) {p : MessageMeta → Bool} (mem : m ∈ messages) :
    m.uid ∈ (messages.filter p).map (·.uid) ↔ p m = true := by
  constructor
  · intro inside
    obtain ⟨m', chosen, same⟩ := List.mem_map.mp inside
    obtain ⟨mem', holds⟩ := List.mem_filter.mp chosen
    rwa [← ascending.eq_of_uid mem' mem same]
  · exact fun holds => List.mem_map_of_mem (List.mem_filter.mpr ⟨mem, holds⟩)

theorem foldl_expunge (server client : List ClientEntry) (numbers : List Nat) :
    (numbers.map Response.expunge).foldl (hear server) client = numbers.foldl removeAt client := by
  rw [List.foldl_map]
  rfl

theorem removal_heard (ascending : Ascending messages)
    (server : List ClientEntry) (qresync : Bool) (p : MessageMeta → Bool) :
    (removalResponses qresync (positionsFrom 1 p messages)
        ((messages.filter p).map (·.uid))).foldl (hear server) (entriesOf messages) =
      entriesOf (messages.filter fun m => !p m) := by
  have vanished : ∀ uids : List Nat, uids = (messages.filter p).map (·.uid) →
      (entriesOf messages).filter (fun e => !SequenceSet.covers (SequenceSet.rangesOf uids) e.uid) =
        entriesOf (messages.filter fun m => !p m) := by
    rintro uids rfl
    rw [entriesOf, List.filter_map, entriesOf]
    congr 1
    refine List.filter_congr fun m mem => ?_
    rw [Function.comp_apply, Bool.eq_iff_iff, Bool.not_eq_true', Bool.not_eq_true',
      ← Bool.not_eq_true, ← Bool.not_eq_true, SequenceSet.covers_rangesOf,
      mem_removed ascending mem]
  unfold removalResponses
  cases qresync with
  | true =>
    rw [if_pos rfl]
    split_ifs with none
    · have all : messages.filter p = [] := by simpa using none
      have kept : (messages.filter fun m => !p m) = messages := by
        refine List.filter_eq_self.mpr fun m mem => ?_
        simpa using List.filter_eq_nil_iff.mp all m mem
      rw [kept]
      rfl
    · exact vanished _ rfl
  | false =>
    rw [if_neg (by decide), descending_of_ascending (positionsFrom_ascending 1 p messages),
      foldl_expunge, entriesOf, map_foldl_removeAt]
    have removed := foldl_removeAt (fun m => !p m) [] messages
    simp only [Bool.not_not, List.length_nil, Nat.zero_add, List.nil_append] at removed
    rw [removed]
    rfl

/-! ### Targets -/

section Targets

variable {view : View} (ascending : Ascending view.messages) (set : SequenceSet) (uidMode : Bool)

include ascending

theorem numberOf_eq (mem : (m, number) ∈ view.messages.zipIdx 1) :
    view.numberOf m.uid = some number := by
  obtain ⟨positive, here⟩ := List.mem_zipIdx_iff_le_and_getElem?_sub.mp mem
  simp only at positive here
  obtain ⟨inside, rfl⟩ := List.getElem?_eq_some_iff.mp here
  have found : view.messages.findIdx? (·.uid = view.messages[number - 1].uid) =
      some (number - 1) := by
    refine List.findIdx?_eq_some_iff_getElem.mpr ⟨inside, by simp, fun j before same => ?_⟩
    have less := List.pairwise_iff_getElem.mp ascending j (number - 1) (by omega) inside before
    exact absurd (of_decide_eq_true same) less.ne
  rw [View.numberOf, found, Option.map_some]
  congr 1
  omega

theorem target_iff (mem : (m, number) ∈ view.messages.zipIdx 1) :
    (view.targetUids set uidMode).contains m.uid =
      (if uidMode then set.contains m.uid view.maxUid else set.contains number view.maxSeq) := by
  rw [Bool.eq_iff_iff, List.contains_iff_mem]
  constructor
  · intro inside
    simp only [View.targetUids, View.targets, List.map_map] at inside
    obtain ⟨⟨m', number'⟩, chosen, same⟩ := List.mem_map.mp inside
    obtain ⟨mem', holds⟩ := List.mem_filter.mp chosen
    have sameUid : m'.uid = m.uid := same
    have here := numberOf_eq ascending mem
    rw [← sameUid, numberOf_eq ascending mem'] at here
    obtain rfl := Option.some.inj here
    rwa [sameUid] at holds
  · intro holds
    simp only [View.targetUids, View.targets, List.map_map]
    exact List.mem_map.mpr ⟨(m, number), List.mem_filter.mpr ⟨mem, holds⟩, rfl⟩

/-- The targets with their numbers are the messages whose UIDs are among the targets. -/
theorem targets_eq :
    (view.messages.filter fun m => (view.targetUids set uidMode).contains m.uid).map (·.uid) =
        view.targetUids set uidMode ∧
      positionsFrom 1 (fun m => (view.targetUids set uidMode).contains m.uid) view.messages =
        (view.targetUids set uidMode).filterMap view.numberOf := by
  obtain ⟨chosen, eq⟩ : ∃ chosen, (view.messages.zipIdx 1).filter (fun e =>
      (view.targetUids set uidMode).contains e.1.uid) = chosen := ⟨_, rfl⟩
  have uids : view.targetUids set uidMode = chosen.map fun e => e.1.uid := by
    have same : (view.messages.zipIdx 1).filter (fun e =>
        if uidMode then set.contains e.1.uid view.maxUid else set.contains e.2 view.maxSeq) =
          chosen := by
      rw [← eq]
      exact List.filter_congr fun e mem => (target_iff ascending set uidMode mem).symm
    rw [← same, View.targetUids, View.targets, List.map_map]
    rfl
  have messages : view.messages = (view.messages.zipIdx 1).map (·.1) :=
    (List.zipIdx_map_fst 1 view.messages).symm
  constructor
  · have kept : view.messages.filter (fun m => (view.targetUids set uidMode).contains m.uid) =
        chosen.map (·.1) := by
      rw [← eq]
      conv_lhs => rw [messages]
      rw [List.filter_map]
      rfl
    rw [kept, List.map_map, uids]
    rfl
  · have numbers : (chosen.map fun e => e.1.uid).filterMap view.numberOf = chosen.map (·.2) := by
      rw [List.filterMap_map, ← List.filterMap_eq_map]
      refine List.filterMap_congr fun e mem => ?_
      rw [← eq] at mem
      exact numberOf_eq ascending (List.mem_of_mem_filter mem)
    rw [positionsFrom, eq, ← numbers, ← uids]

theorem move_heard (server : List ClientEntry) (enabled : Enabled)
    (some : (view.targetUids set uidMode).isEmpty = false) (text : String) :
    (Response.ok text ::
        if enabled.qresync then
          [Response.vanished (SequenceSet.rangesOf (view.targetUids set uidMode))]
        else (descending ((view.targetUids set uidMode).filterMap view.numberOf)).map
          Response.expunge).foldl (hear server) (entriesOf view.messages) =
      entriesOf (view.forget (view.targetUids set uidMode)).messages := by
  obtain ⟨uids, numbers⟩ := targets_eq ascending set uidMode
  have heard := removal_heard ascending server enabled.qresync
    fun m => (view.targetUids set uidMode).contains m.uid
  rw [uids, numbers, removalResponses, if_neg (Bool.eq_false_iff.mp some)] at heard
  exact heard

end Targets

/-! ### Flags -/

theorem updateMessage_eq (ascending : Ascending messages)
    {i : Nat} (here : messages[i]? = some m) (flags : FlagSet) (modseq : Nat) :
    updateMessage m.uid flags modseq messages =
      messages.modify i fun m => { m with flags, modseq } := by
  induction messages generalizing i with
  | nil => cases here
  | cons first rest ih =>
    obtain ⟨less, ascending'⟩ := List.pairwise_cons.mp ascending
    cases i with
    | zero =>
      obtain rfl : first = m := by simpa using here
      simp [updateMessage]
    | succ i =>
      have here' : rest[i]? = some m := by simpa using here
      have other : first.uid ≠ m.uid := (less m (List.mem_of_getElem? here')).ne
      rw [updateMessage, if_neg other, ih ascending' here', List.modify_succ_cons]

theorem Ascending.update (h : Ascending messages) (i : Nat) (flags : FlagSet) (modseq : Nat) :
    Ascending (messages.modify i fun m => { m with flags, modseq }) := by
  have uids : (messages.modify i fun m => { m with flags, modseq }).map (·.uid) =
      messages.map (·.uid) := by
    rw [map_modify (·.uid) (fun m : MessageMeta => { m with flags, modseq }) id fun _ => rfl]
    exact List.modify_id _ _
  have := List.pairwise_map.mpr h
  rw [← uids] at this
  exact List.pairwise_map.mp this

theorem entriesOf_modify (messages : List MessageMeta) (i : Nat) (flags : FlagSet) (modseq : Nat) :
    entriesOf (messages.modify i fun m => { m with flags, modseq }) =
      (entriesOf messages).modify i fun e => { e with flags } :=
  map_modify (fun m : MessageMeta => (⟨m.uid, m.flags⟩ : ClientEntry))
    (fun m => { m with flags, modseq }) (fun e => { e with flags }) (fun _ => rfl) i messages

/-- What a client makes of the responses of STORE, and that the view stays in order. -/
theorem storeEach_heard {enabled : Enabled} {job : StoreJob} {targets : List (Nat × Nat)}
    {answers : List (Except MailError Nat)} {view : View} (ascending : Ascending view.messages)
    (shown : ∀ t ∈ targets, ∃ m, view.messages[t.1 - 1]? = some m ∧ m.uid = t.2) :
    Ascending (View.storeEach enabled job targets answers view).1.messages ∧
      ∀ server, (View.storeEach enabled job targets answers view).2.foldl (hear server)
        (entriesOf view.messages) =
          entriesOf (View.storeEach enabled job targets answers view).1.messages := by
  induction targets generalizing view answers with
  | nil => exact ⟨ascending, fun _ => rfl⟩
  | cons target rest ih =>
    obtain ⟨number, uid⟩ := target
    obtain ⟨m, here, same⟩ := shown _ List.mem_cons_self
    have shown' : ∀ t ∈ rest, ∃ m, view.messages[t.1 - 1]? = some m ∧ m.uid = t.2 :=
      fun t mem => shown t (List.mem_cons_of_mem _ mem)
    simp only at here same
    subst same
    unfold View.storeEach
    simp only [here]
    split
    · exact ih ascending shown'
    split
    · rename_i modseq later
      have updated : (view.update m.uid (job.apply m.flags) modseq).messages =
          view.messages.modify (number - 1) fun o =>
            { o with flags := job.apply m.flags, modseq } :=
        updateMessage_eq ascending here (job.apply m.flags) modseq
      have shown'' : ∀ t ∈ rest, ∃ m',
          (view.update m.uid (job.apply m.flags) modseq).messages[t.1 - 1]? = some m' ∧
            m'.uid = t.2 := by
        intro t mem
        obtain ⟨o, there, same⟩ := shown' t mem
        rw [updated, List.getElem?_modify, there]
        refine ⟨_, rfl, ?_⟩
        simp only
        split_ifs <;> exact same
      obtain ⟨ascending', heard⟩ := ih (updated ▸ ascending.update _ _ _) shown''
      refine ⟨ascending', fun server => ?_⟩
      rw [List.foldl_cons, ← heard server, updated, entriesOf_modify]
      rfl
    · exact ⟨ascending, fun _ => rfl⟩

/-! ### Opening the folder again -/

theorem findUid_eq (ascending : Ascending messages)
    (mem : m ∈ messages) {uid : Nat} (same : m.uid = uid) : findUid messages uid = some m := by
  cases found : findUid messages uid with
  | none =>
    exact absurd same (by simpa using List.find?_eq_none.mp found m mem)
  | some o =>
    have uid : o.uid = uid := by simpa using List.find?_some found
    rw [ascending.eq_of_uid (List.mem_of_find?_eq_some found) mem (uid.trans same.symm)]

theorem findUid_isSome {uid : Nat} :
    (findUid messages uid).isSome = true ↔ ∃ m ∈ messages, m.uid = uid := by
  simp [findUid, List.find?_isSome]

/-- What comes after the known messages is new. -/
theorem Ascending.split {messages : List MessageMeta} (h : Ascending messages)
    {known : MessageMeta → Bool}
    (before : ∀ a ∈ messages, ∀ b ∈ messages, known a = false → known b = true → b.uid < a.uid) :
    messages = messages.filter known ++ messages.filter fun m => !known m := by
  induction messages with
  | nil => rfl
  | cons first rest ih =>
    obtain ⟨less, ascending⟩ := List.pairwise_cons.mp h
    have ih := ih ascending fun a ha b hb =>
      before a (List.mem_cons_of_mem _ ha) b (List.mem_cons_of_mem _ hb)
    cases here : known first with
    | true =>
      rw [List.filter_cons_of_pos here, List.filter_cons_of_neg (by simp [here]), List.cons_append,
        ← ih]
    | false =>
      have none : ∀ b ∈ rest, ¬known b = true := fun b mem holds => by
        have := before first List.mem_cons_self b (List.mem_cons_of_mem _ mem) here holds
        have := less b mem
        omega
      rw [List.filter_cons_of_neg (by simp [here]), List.filter_eq_nil_iff.mpr none,
        List.filter_cons_of_pos (by simp [here]), List.nil_append,
        List.filter_eq_self.mpr fun b mem => by simpa using none b mem]

/-- What the client has of a message, when the folder was opened again: its flags are the old ones
where it was shown before. -/
def Stale (old : List MessageMeta) (e : ClientEntry) (m : MessageMeta) : Prop :=
  e.uid = m.uid ∧ e.flags = ((findUid old m.uid).map (·.flags)).getD m.flags

theorem flag_heard {old : List MessageMeta} (server heard client : List ClientEntry)
    (condstore : Bool) {e : ClientEntry} (stale : Stale old e m) :
    (flagResponse condstore old m (heard.length + 1)).toList.foldl (hear server)
        (heard ++ e :: client) = heard ++ { uid := m.uid, flags := m.flags } :: client := by
  obtain ⟨uid, flags⟩ := e
  obtain ⟨rfl, flags⟩ := stale
  unfold flagResponse
  cases found : findUid old m.uid with
  | none =>
    rw [found] at flags
    simp_all
  | some o =>
    rw [found] at flags
    simp only
    split
    · simp_all
    · simp only [Option.toList_some, List.foldl_cons, List.foldl_nil, hear, Nat.add_sub_cancel]
      induction heard with
      | nil => rfl
      | cons h heard ih => simp [List.modify_succ_cons, ih]

theorem flags_heard {old messages : List MessageMeta} (server : List ClientEntry) (condstore : Bool)
    {client : List ClientEntry} (stale : List.Forall₂ (Stale old) client messages) :
    (flagResponses condstore old messages).foldl (hear server) client = entriesOf messages := by
  have from_ : ∀ heard : List ClientEntry,
      ((messages.zipIdx (heard.length + 1)).filterMap fun e =>
        flagResponse condstore old e.1 e.2).foldl (hear server) (heard ++ client) =
          heard ++ entriesOf messages := by
    induction stale with
    | nil => exact fun _ => rfl
    | @cons e m client messages first rest ih =>
      intro heard
      have ih := ih (heard ++ [{ uid := m.uid, flags := m.flags }])
      rw [List.length_append, List.length_singleton, List.append_assoc, List.append_assoc] at ih
      have one := flag_heard server heard client condstore first
      rw [List.zipIdx_cons]
      cases response : flagResponse condstore old m (heard.length + 1) with
      | none =>
        rw [response] at one
        simp only [List.filterMap_cons, response]
        rw [show heard ++ e :: client = _ from one]
        exact ih
      | some r =>
        rw [response] at one
        simp only [List.filterMap_cons, response, List.foldl_cons]
        rw [show hear server (heard ++ e :: client) r = _ from one]
        exact ih
  exact from_ []

section Refresh

variable {view : View} {state : FolderState} (ascending : Ascending view.messages)
  (follows : Follows view state)

/-- The messages that are still there, as they were shown before. -/
def View.kept (view : View) (state : FolderState) : List MessageMeta :=
  view.messages.filter fun m => (findUid state.messages m.uid).isSome

def View.known (view : View) (state : FolderState) : List MessageMeta :=
  state.messages.filter fun m => (findUid view.messages m.uid).isSome

def View.added (view : View) (state : FolderState) : List MessageMeta :=
  state.messages.filter fun m => !(findUid view.messages m.uid).isSome

include ascending follows

omit ascending in
theorem known_append_added : state.messages = view.known state ++ view.added state := by
  refine follows.ascending.split fun a ha b hb new old => ?_
  obtain ⟨o, shown, same⟩ := findUid_isSome.mp old
  rcases follows.above a ha with known | above
  · rw [findUid_isSome.mpr known] at new
    cases new
  · rw [← same]
    exact above o shown

theorem kept_uids : (view.kept state).map (·.uid) = (view.known state).map (·.uid) := by
  have left : ((view.kept state).map (·.uid)).Pairwise (· < ·) :=
    List.pairwise_map.mpr (ascending.filter _)
  have right : ((view.known state).map (·.uid)).Pairwise (· < ·) :=
    List.pairwise_map.mpr (follows.ascending.filter _)
  refine List.Perm.eq_of_pairwise (fun a b _ _ h h' => absurd h' (lt_asymm h)) left right ?_
  refine (List.perm_ext_iff_of_nodup (left.imp ne_of_lt) (right.imp ne_of_lt)).mpr fun uid => ?_
  simp only [View.kept, View.known, List.mem_map, List.mem_filter, findUid_isSome]
  constructor
  · rintro ⟨m, ⟨shown, o, there, same⟩, rfl⟩
    exact ⟨o, ⟨there, m, shown, same.symm⟩, same⟩
  · rintro ⟨m, ⟨there, o, shown, same⟩, rfl⟩
    exact ⟨o, ⟨shown, m, there, same.symm⟩, same⟩

/-- Once the new messages are asked for, only flags can be stale. -/
theorem stale_kept_added : List.Forall₂ (Stale view.messages)
    (entriesOf (view.kept state) ++ entriesOf (view.added state)) state.messages := by
  rw [known_append_added follows]
  refine List.rel_append ?_ ?_
  · have uids := kept_uids ascending follows
    have shown : ∀ m ∈ view.kept state, m ∈ view.messages := fun m mem => List.mem_of_mem_filter mem
    generalize view.kept state = kept at uids shown
    generalize view.known state = known at uids
    induction kept generalizing known with
    | nil =>
      rw [List.map_eq_nil_iff.mp uids.symm]
      exact .nil
    | cons m kept ih =>
      cases known with
      | nil => cases uids
      | cons m' known =>
        obtain ⟨same, uids⟩ := List.cons.inj uids
        have here := findUid_eq ascending (shown m List.mem_cons_self) same
        exact .cons ⟨same, by rw [here]; rfl⟩
          (ih (fun m mem => shown m (List.mem_cons_of_mem _ mem)) known uids)
  · have new : ∀ m ∈ view.added state, findUid view.messages m.uid = none := fun m mem => by
      simpa using (List.mem_filter.mp mem).2
    generalize view.added state = added at new
    induction added with
    | nil => exact .nil
    | cons m added ih =>
      refine .cons ⟨rfl, ?_⟩ (ih fun m mem => new m (List.mem_cons_of_mem _ mem))
      rw [new m List.mem_cons_self]
      rfl

theorem refresh_heard (enabled : Enabled) :
    (refreshResponses enabled view state).foldl (hear (entriesOf state.messages))
      (entriesOf view.messages) = entriesOf state.messages := by
  have split := known_append_added follows
  have lengths : (view.kept state).length = (view.known state).length := by
    simpa using congrArg List.length (kept_uids ascending follows)
  unfold refreshResponses
  simp only [ne_eq, follows.uidvalidity, not_true_eq_false, if_false, List.foldl_append]
  rw [removal_heard ascending]
  have kept : (view.messages.filter fun m => !(findUid state.messages m.uid).isNone) =
      view.kept state := by simp [View.kept]
  rw [kept]
  have count : state.messages.length = (view.kept state).length + (view.added state).length := by
    rw [lengths, ← List.length_append, ← split]
  have asked : hear (entriesOf state.messages) (entriesOf (view.kept state))
      (.total state.messages.length) =
        entriesOf (view.kept state) ++ entriesOf (view.added state) := by
    have rest : (entriesOf state.messages).drop (entriesOf (view.kept state)).length =
        entriesOf (view.added state) := by
      conv_lhs => rw [split]
      simp [entriesOf, lengths]
    rw [hear, rest, List.take_of_length_le]
    simp only [entriesOf, List.length_map]
    omega
  have silent : (state.messages.length ≠ view.messages.length ||
      state.messages.any fun m => (findUid view.messages m.uid).isNone) = false →
        view.added state = [] := by
    intro quiet
    refine List.filter_eq_nil_iff.mpr fun m mem => ?_
    have known := (Bool.or_eq_false_iff.mp quiet).2
    simpa using List.any_eq_false.mp known m mem
  have told : (if (state.messages.length ≠ view.messages.length ||
      state.messages.any fun m => (findUid view.messages m.uid).isNone) then
        [Response.total state.messages.length] else []).foldl (hear (entriesOf state.messages))
          (entriesOf (view.kept state)) =
        entriesOf (view.kept state) ++ entriesOf (view.added state) := by
    split
    · exact asked
    · rename_i quiet
      rw [silent (Bool.eq_false_iff.mpr quiet)]
      exact (List.append_nil _).symm
  have recent : ∀ client : List ClientEntry,
      (if 0 < (state.messages.filter (·.recent)).length then
        [Response.recent (state.messages.filter (·.recent)).length] else []).foldl
          (hear (entriesOf state.messages)) client = client := by
    intro client
    split <;> rfl
  rw [told, recent]
  exact flags_heard _ _ (stale_kept_added ascending follows)

end Refresh

/-! ### One command -/

/-- A client that had the list of the view has that of the view afterwards. -/
structure Told (view : View) (after : View × List Response) : Prop where
  ascending : Ascending after.1.messages
  heard : after.2.foldl (hear (entriesOf after.1.messages)) (entriesOf view.messages) =
    entriesOf after.1.messages

namespace Told

variable {view : View} (ascending : Ascending view.messages) (enabled : Enabled)

include ascending

theorem nothing {view' : View} (same : view'.messages = view.messages) : Told view (view', []) :=
  ⟨same ▸ ascending, congrArg entriesOf same.symm⟩

theorem refresh
    (follows : ∀ state, opened = .ok state → Follows view state) :
    Told view (view.refresh enabled stamp opened) := by
  unfold View.refresh
  split
  · exact nothing ascending rfl
  cases opened with
  | error error => exact nothing ascending rfl
  | ok state =>
    have follows := follows state rfl
    exact ⟨follows.ascending, refresh_heard ascending follows enabled⟩

theorem expunge (restrict : SequenceSet) (removed : Except MailError Nat) :
    Told view (view.expunge enabled restrict removed) := by
  have forgotten :
      (view.forget ((view.messages.filter (view.doomed restrict)).map (·.uid))).messages =
      view.messages.filter fun m => !view.doomed restrict m := by
    refine List.filter_congr fun m mem => ?_
    rw [Bool.eq_iff_iff, Bool.not_eq_true', Bool.not_eq_true', ← Bool.not_eq_true,
      ← Bool.not_eq_true, List.contains_iff_mem, mem_removed ascending mem]
  have done : Told view
      (view.forget ((view.messages.filter (view.doomed restrict)).map (·.uid)),
        removalResponses enabled.qresync (positionsFrom 1 (view.doomed restrict) view.messages)
          ((view.messages.filter (view.doomed restrict)).map (·.uid))) := by
    refine ⟨ascending.filter _, ?_⟩
    rw [removal_heard ascending, forgotten]
  unfold View.expunge
  simp only
  split
  · exact done
  · cases removed with
    | error error => exact nothing ascending rfl
    | ok count => exact done

theorem move (set : SequenceSet) (uidMode : Bool) (copied : Except MailError (Nat × List Nat))
    (removed : Except MailError Nat) :
    Told view (view.move enabled (view.targetUids set uidMode) copied removed) := by
  unfold View.move
  split
  · exact nothing ascending rfl
  rename_i some
  cases copied with
  | error error => exact nothing ascending rfl
  | ok copies =>
    cases removed with
    | error error => exact nothing ascending rfl
    | ok count =>
      exact ⟨ascending.filter _,
        move_heard ascending set uidMode _ enabled (Bool.eq_false_iff.mpr some) _⟩

theorem copy (uids : List Nat) (copied : Except MailError (Nat × List Nat)) (here : Bool)
    (follows : ∀ state, opened = .ok state → Follows view state) :
    Told view (view.copy enabled uids copied here stamp opened) := by
  unfold View.copy
  split
  · exact nothing ascending rfl
  cases copied with
  | error error => exact nothing ascending rfl
  | ok copies =>
    cases here with
    | false => exact nothing ascending rfl
    | true =>
      have unstamped : Ascending ({ view with stamp := none } : View).messages := ascending
      have again : Told { view with stamp := none }
          (View.refresh enabled stamp opened { view with stamp := none }) := by
        refine refresh unstamped enabled fun state opened => ?_
        obtain ⟨uidvalidity, listed, above⟩ := follows state opened
        exact ⟨uidvalidity, listed, above⟩
      exact ⟨again.ascending, again.heard⟩

theorem store (set : SequenceSet) (job : StoreJob) (answers : List (Except MailError Nat)) :
    Told view (View.storeEach enabled job
      ((view.targets set job.uidMode).map fun (number, m) => (number, m.uid)) answers view) := by
  have shown : ∀ t ∈ (view.targets set job.uidMode).map fun (number, m) => (number, m.uid),
      ∃ m, view.messages[t.1 - 1]? = some m ∧ m.uid = t.2 := by
    intro t mem
    obtain ⟨⟨number, m⟩, chosen, rfl⟩ := List.mem_map.mp mem
    obtain ⟨⟨m', number'⟩, inside, same⟩ := List.mem_map.mp chosen
    obtain ⟨rfl, rfl⟩ := Prod.mk.inj same
    exact ⟨m', (List.mem_zipIdx_iff_le_and_getElem?_sub.mp (List.mem_of_mem_filter inside)).2, rfl⟩
  obtain ⟨ascending', heard⟩ := @storeEach_heard enabled job _ answers _ ascending shown
  exact ⟨ascending', heard _⟩

end Told

theorem ViewAct.told {view : View} (ascending : Ascending view.messages) (enabled : Enabled)
    {act : ViewAct} (fits : act.Fits view) : Told view (act.apply enabled view) := by
  cases act with
  | refresh stamp opened => exact .refresh ascending enabled fits
  | expunge restrict removed => exact .expunge ascending enabled restrict removed
  | move set uidMode copied removed => exact .move ascending enabled set uidMode copied removed
  | copy set uidMode copied here stamp opened => exact .copy ascending enabled _ copied here fits
  | store set job answers => exact .store ascending enabled set job answers

/-! ### Runs -/

theorem Pair.Agrees.step {p p' : Pair} {turn : Turn} (h : p.Agrees) (fits : p.Fits turn)
    (taken : p.step turn = some p') : p'.Agrees := by
  have told := ViewAct.told h.ascending turn.enabled fits
  cases taken
  refine ⟨told.ascending, ?_⟩
  rw [h.same]
  exact told.heard

/-- In every run of commands, over whatever states of the folder that come after what is shown, the
client has the list that the session shows: as long, with the same message at every position and
with the same flags. -/
theorem client_view_equals_server_view {start p : Pair} {turns : List Turn} (agrees : start.Agrees)
    (run : Runs Pair.step Pair.Fits start turns p) :
    p.client = entriesOf p.view.messages :=
  (run.invariant agrees fun _ _ _ h fits taken => h.step fits taken).same

/-! The folder is opened again after one message went, one was marked seen and two came; then the
new ones are marked deleted, one of them is expunged, and the first message is moved. -/

def shownMessage (uid : Nat) (flags : FlagSet) : MessageMeta :=
  { uid, base := toString uid, size := 1, modseq := 1, flags, recent := false }

def twoShown : Pair :=
  let view : View :=
    { folder := "INBOX", writable := true, uidvalidity := 7, uidnext := 3, highestModseq := 1
      messages := [shownMessage 1 ∅, shownMessage 2 ∅], stamp := none, skippedStamps := 0 }
  { view, client := entriesOf view.messages }

def laterState : FolderState :=
  { name := "INBOX", uidvalidity := 7, uidnext := 5, highestModseq := 2
    messages :=
      [shownMessage 1 {.system .seen}, shownMessage 3 ∅, shownMessage 4 ∅] }

def laterTurns : List Turn :=
  let enabled : Enabled := { condstore := true, qresync := false }
  let one (number : Nat) : SequenceSet := ⟨[⟨number, number⟩]⟩
  [{ enabled, act := .refresh 5 (.ok laterState) },
    { enabled
      act := .store ⟨[⟨2, 3⟩]⟩
        { folder := "INBOX", uidMode := false, mode := .add, flags := {.system .deleted}
          unchangedSince := none } [.ok 3, .ok 4] },
    { enabled, act := .expunge (one 3) (.ok 1) },
    { enabled, act := .move (one 1) false (.ok (9, [1])) (.ok 1) }]

theorem laterState_follows : Follows twoShown.view laterState :=
  ⟨rfl, by decide, by decide⟩

theorem client_view_equals_server_view_later : ∃ p : Pair,
    p.client = [⟨4, {.system .deleted}⟩] ∧ p.client = entriesOf p.view.messages := by
  have along : OkAlong Pair.step Pair.Fits twoShown laterTurns := by
    refine ⟨fun state opened => ?_, fun _ _ => ⟨trivial, fun _ _ => ⟨trivial, fun _ _ =>
      ⟨trivial, fun _ _ => trivial⟩⟩⟩⟩
    cases opened
    exact laterState_follows
  refine ⟨(exec Pair.step twoShown laterTurns).get (by decide), by decide +kernel, ?_⟩
  exact @client_view_equals_server_view twoShown _ laterTurns ⟨by decide, rfl⟩
    (runs_of_exec (Option.some_get _).symm along)

end MailStack.Imap
