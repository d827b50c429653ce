import MailStack.Maildir.Contents
import MailStack.Webmail.Compose

/-! The action of the webmail on several messages of a folder at once. -/

namespace MailStack.Webmail

open Lib Maildir

def maxBatchUids : Nat := 500

structure BatchRequest where
  folder : String
  uids : List Nat
  action : String
  target : Option String

namespace WebmailError

def notFound (message : String) : WebmailError := { status := 404, code := "NOT_FOUND", message }

def conflict (code message : String) : WebmailError := { status := 409, code, message }

def fromMail : MailError → WebmailError
  | .invalid message | .protocol message => badRequest "INVALID_REQUEST" message
  | .notFound what => notFound what
  | .alreadyExists what => conflict "ALREADY_EXISTS" ("resource already exists: " ++ what)
  | .quotaExceeded message => conflict "QUOTA_EXCEEDED" ("mailbox quota exceeded: " ++ message)
  | .io _ | .storage _ => internal

end WebmailError

/-! ### The actions -/

/-- What the actions that mark messages do to the flags of one. -/
def markedFlags (action : String) (flags : FlagSet) : FlagSet :=
  match action with
  | "mark_seen" => insert (.system .seen) flags
  | "mark_unseen" => flags.erase (.system .seen)
  | "flag" => insert (.system .flagged) flags
  | "unflag" => flags.erase (.system .flagged)
  | _ => flags

/-- The message of a UID, the last of the list where there are several. -/
def available (messages : List MessageMeta) (uid : Nat) : Option MessageMeta :=
  messages.reverse.find? (·.uid = uid)

/-- The loop over the UIDs that sets the flags of each message. -/
@[grind =] def setEach (mark : FlagSet → FlagSet) (folder : String) (messages : List MessageMeta)
    (s : MailStore) : List Nat → MailStore × Except MailError Unit
  | [] => (s, .ok ())
  | uid :: rest =>
    match available messages uid with
    | none => setEach mark folder messages s rest
    | some message =>
      match s.setFlags folder uid (mark message.flags) with
      | (left, .error error) => (left, .error error)
      | (left, .ok _) => setEach mark folder messages left rest

/-- The messages go to another folder, and are removed from this one where they are moved. -/
def transfer (s : MailStore) (folder : String) (uids : List Nat) (target : Option String)
    (moves : Bool) (drawn : Nat → String) (fresh : Nat) :
    MailStore × Except WebmailError Nat :=
  match target with
  | none =>
    (s, .error (.badRequest "INVALID_REQUEST" "move/copy requires a target folder"))
  | some target =>
    match normalizeFolderName target with
    | .error error => (s, .error (.fromMail error))
    | .ok target =>
      if (s.find target).isNone then (s, .error (.notFound "target folder not found"))
      else
        match s.copyMany folder uids target drawn fresh with
        | (copied, .error error) => (copied, .error (.fromMail error))
        | (copied, .ok _) =>
          if moves then
            match copied.expunge folder uids with
            | (left, .error error) => (left, .error (.fromMail error))
            | (left, .ok _) => (left, .ok uids.length)
          else (copied, .ok uids.length)

def deleteEach (s : MailStore) (folder : String) (messages : List MessageMeta) (uids : List Nat) :
    MailStore × Except WebmailError Nat :=
  match setEach (insert (.system .deleted)) folder messages s uids with
  | (left, .error error) => (left, .error (.fromMail error))
  | (left, .ok _) =>
    match left.expunge folder uids with
    | (last, .error error) => (last, .error (.fromMail error))
    | (last, .ok _) => (last, .ok uids.length)

def markEach (s : MailStore) (folder : String) (messages : List MessageMeta) (uids : List Nat)
    (action : String) : MailStore × Except WebmailError Nat :=
  match setEach (markedFlags action) folder messages s uids with
  | (left, .error error) => (left, .error (.fromMail error))
  | (left, .ok _) => (left, .ok uids.length)

/-- `drawn` are the names that are drawn for copies, and `fresh` the UIDVALIDITY that may be. -/
@[grind =] def batch (s : MailStore) (request : BatchRequest) (drawn : Nat → String) (fresh : Nat) :
    MailStore × Except WebmailError Nat :=
  if request.uids.isEmpty then (s, .ok 0)
  else if request.uids.length > maxBatchUids then
    (s, .error (.badRequest "TOO_MANY_UIDS"
      ("at most " ++ toString maxBatchUids ++ " uids can be batched at once")))
  else
    match normalizeFolderName request.folder with
    | .error error => (s, .error (.fromMail error))
    | .ok folder =>
      let action := toAsciiLowercase (trim request.action)
      match s.openFolder folder false fresh with
      | (opened, .error error) => (opened, .error (.fromMail error))
      | (opened, .ok state) =>
        let uids := request.uids.filter fun uid => state.messages.any (·.uid = uid)
        if uids.isEmpty then (opened, .ok 0)
        else if action = "move" ∨ action = "copy" then
          transfer opened folder uids request.target (action = "move") drawn fresh
        else if action = "delete" then deleteEach opened folder state.messages uids
        else if action ∈ ["mark_seen", "mark_unseen", "flag", "unflag"] then
          markEach opened folder state.messages uids action
        else (opened, .error (.badRequest "INVALID_ACTION" "unknown batch action"))

/-! ### What an action is to do -/

/-- The messages that the folder of the request is shown with. -/
def shownMessages (s : MailStore) (request : BatchRequest) (fresh : Nat) : List MessageMeta :=
  match normalizeFolderName request.folder with
  | .error _ => []
  | .ok folder =>
    match (s.openFolder folder false fresh).2 with
    | .error _ => []
    | .ok state => state.messages

/-- The UIDs of the request that a message has, as often as they are there. -/
def existing (shown : List MessageMeta) (request : BatchRequest) : List Nat :=
  request.uids.filter fun uid => shown.any (·.uid = uid)

def named (shown : List MessageMeta) (request : BatchRequest) : List MessageMeta :=
  shown.filter fun m => request.uids.contains m.uid

def BatchRequest.verb (request : BatchRequest) : String := toAsciiLowercase (trim request.action)

def BatchRequest.goal (request : BatchRequest) : Option String :=
  request.target.bind fun target => (normalizeFolderName target).toOption

def marked (bases : List String) (mark : FlagSet → FlagSet) (c : Content) : Content :=
  if c.1 ∈ bases then (c.1, mark c.2.1, c.2.2) else c

def effect (action : String) (bases : List String) (before : List Content) : List Content :=
  if action = "move" ∨ action = "delete" then before.filter fun c => c.1 ∉ bases
  else before.map (marked bases (markedFlags action))

/-- Each message that is named is treated once: it has one copy in the target, with its flags and
its size, if it is moved or copied; it is gone if it is moved or deleted; its flags are those of the
action; and no other message of any folder is changed. The answer is the number of these
messages. -/
structure ActsOnce (request : BatchRequest) (shown : List MessageMeta) (s t : MailStore) (n : Nat) :
    Prop where
  count : n = (named shown request).length
  messages : ∃ copies : List Content,
    (copies.map (·.2)).Perm
      (if request.verb = "move" ∨ request.verb = "copy" then
        (named shown request).map fun m => (m.flags, m.size) else []) ∧
    ∀ name, t.contents name = (s.contents name).map fun before =>
      (if (normalizeFolderName request.folder).toOption = some name then
        effect request.verb ((named shown request).map (·.base)) before else before) ++
      (if request.goal = some name then copies else [])

/-! ### What the actions do -/

section Actions

variable {s t : MailStore} {folder : String} {shown : List MessageMeta} {uids : List Nat}
  {mark : FlagSet → FlagSet} {goal : Option String}

structure Showing (folder : String) (shown : List MessageMeta) (s : MailStore) : Prop where
  normal : normalizeFolderName folder = .ok folder
  has : s.Has folder shown
  uids : (shown.map (·.uid)).Nodup
  lone : ∀ m ∈ shown, ∀ cs ∈ s.contents folder, MailStore.Lone m.base cs
  depicts : ∀ cs ∈ s.contents folder, MailStore.Depicts shown cs

theorem Showing.eq (showing : Showing folder shown s) {m m' : MessageMeta} (mem : m ∈ shown)
    (mem' : m' ∈ shown) (same : m.uid = m'.uid) : m = m' :=
  List.inj_on_of_nodup_map showing.uids mem mem' same

variable {m : MessageMeta}

theorem available_some {messages : List MessageMeta} {uid : Nat}
    (found : available messages uid = some m) : m ∈ messages ∧ m.uid = uid := by
  refine ⟨List.mem_reverse.mp (List.mem_of_find?_eq_some found), ?_⟩
  simpa using List.find?_some found

theorem map_fst_marked (bases : List String) (mark : FlagSet → FlagSet) (cs : List Content) :
    (cs.map (marked bases mark)).map (·.1) = cs.map (·.1) := by
  rw [List.map_map]
  refine List.map_congr_left fun c _ => ?_
  simp only [marked, Function.comp]
  split <;> rfl

theorem filter_marked (bases : List String) (mark : FlagSet → FlagSet) (cs : List Content) :
    (cs.map (marked bases mark)).filter (fun c => c.1 ∉ bases) =
      cs.filter fun c => c.1 ∉ bases := by
  have own (c : Content) : (marked bases mark c).1 = c.1 := by
    rw [marked]
    split <;> rfl
  rw [List.filter_map]
  refine (List.map_congr_left fun c mem => ?_).trans
    ((List.map_id _).trans (List.filter_congr fun c _ => by simp only [Function.comp, own]))
  have outside := of_decide_eq_true (List.mem_filter.mp mem).2
  rw [own] at outside
  rw [marked, if_neg outside]
  rfl

section

variable (showing : Showing folder shown s)

include showing

theorem Showing.mem_namedBases_next
    (mem : m ∈ shown) (before : List Nat) (base : String) :
    base ∈ namedBases shown (before ++ [m.uid]) ↔
      base ∈ namedBases shown before ∨ base = m.base := by
  simp only [mem_namedBases, List.mem_append, List.mem_singleton]
  constructor
  · rintro ⟨m', inShown, asked | same, own⟩
    · exact .inl ⟨m', inShown, asked, own⟩
    · exact .inr (showing.eq inShown mem same ▸ own.symm)
  · rintro (⟨m', inShown, asked, own⟩ | own)
    · exact ⟨m', inShown, .inl asked, own⟩
    · exact ⟨m, mem, .inr rfl, own.symm⟩

/-- The flags that are written for a message mark it, also where it was marked before. -/
theorem Showing.marked_next (mark : FlagSet → FlagSet)
    (mem : m ∈ shown) (before : List Nat) {c : Content}
    (own : c.1 = m.base → c.2 = (m.flags, m.size)) :
    (if (marked (namedBases shown before) mark c).1 = m.base then
      ((marked (namedBases shown before) mark c).1, mark m.flags,
        (marked (namedBases shown before) mark c).2.2)
      else marked (namedBases shown before) mark c) =
      marked (namedBases shown (before ++ [m.uid])) mark c := by
  have bases := showing.mem_namedBases_next mem before c.1
  by_cases same : c.1 = m.base
  · have after : marked (namedBases shown (before ++ [m.uid])) mark c =
        (m.base, mark m.flags, m.size) := by
      rw [marked, if_pos (bases.mpr (.inr same)), own same, same]
    rw [after, marked]
    split <;> simp [same, own same]
  · simp only [marked, bases, same, or_false]
    split <;> simp

/-- The loop has marked the messages of the UIDs it has gone over, and those only. -/
theorem setEach_contents
    {now : MailStore} {before : List Nat} (has : now.Has folder shown)
    (marks : ∀ n, now.contents n = (s.contents n).map fun cs =>
      if n = folder then cs.map (marked (namedBases shown before) mark) else cs)
    (known : ∀ uid ∈ uids, ∃ m ∈ shown, m.uid = uid)
    (ran : setEach mark folder shown now uids = (t, .ok ())) :
    t.Has folder shown ∧ ∀ n, t.contents n = (s.contents n).map fun cs =>
      if n = folder then cs.map (marked (namedBases shown (before ++ uids)) mark) else cs := by
  induction uids generalizing now before with
  | nil =>
    cases ran
    rw [List.append_nil]
    exact ⟨has, marks⟩
  | cons uid rest ih =>
    have later := fun u mem => known u (List.mem_cons_of_mem _ mem)
    unfold setEach at ran
    split at ran
    · next missing =>
      obtain ⟨m, mem, own⟩ := known uid List.mem_cons_self
      have other := List.find?_eq_none.mp missing m (List.mem_reverse.mpr mem)
      exact absurd own (by simpa using other)
    next m found =>
    obtain ⟨mem, rfl⟩ := available_some found
    split at ran
    · cases ran
    next left result write =>
    have lone : ∀ cs ∈ now.contents folder, MailStore.Lone m.base cs := by
      intro cs inside
      rw [marks folder] at inside
      obtain ⟨cs', here, rfl⟩ := Option.mem_map.mp inside
      rw [if_pos rfl, MailStore.Lone, map_fst_marked]
      exact showing.lone m mem cs' here
    obtain ⟨has', step⟩ := MailStore.setFlags_contents showing.normal has mem lone write
    have marks' : ∀ n, left.contents n = (s.contents n).map fun cs => if n = folder then
        cs.map (marked (namedBases shown (before ++ [m.uid])) mark) else cs := by
      intro n
      rw [step n, marks n, Option.map_map]
      refine Option.map_congr fun cs inside => ?_
      by_cases here : n = folder
      · subst here
        simp only [Function.comp, if_true, List.map_map]
        refine List.map_congr_left fun c inCs => ?_
        exact showing.marked_next mark mem before (showing.depicts cs inside m mem c inCs)
      · simp only [Function.comp, if_neg here]
    have whole := ih has' marks' later ran
    rwa [List.append_assoc] at whole

theorem setEach_all
    (known : ∀ uid ∈ uids, ∃ m ∈ shown, m.uid = uid)
    (ran : setEach mark folder shown s uids = (t, .ok ())) :
    t.Has folder shown ∧ ∀ n, t.contents n = (s.contents n).map fun cs =>
      if n = folder then cs.map (marked (namedBases shown uids) mark) else cs := by
  have same : marked (namedBases shown []) mark = id := by
    funext c
    rw [marked, if_neg (by simp [namedBases])]
    rfl
  have none_ : ∀ n, s.contents n = (s.contents n).map fun cs =>
      if n = folder then cs.map (marked (namedBases shown []) mark) else cs := by
    simp [same]
  exact setEach_contents showing showing.has none_ known ran

end

/-- What is done to the messages of the UIDs, each as often as it is there. -/
def Acted (action : String) (source goal : Option String) (shown : List MessageMeta)
    (uids : List Nat) (s t : MailStore) : Prop :=
  ∃ copies : List Content,
    copies.map (·.2) =
      (if action = "move" ∨ action = "copy" then uids.map (MailStore.contentOf shown) else []) ∧
    ∀ name, t.contents name = (s.contents name).map fun before =>
      (if source = some name then effect action (namedBases shown uids) before else before) ++
      (if goal = some name then copies else [])

theorem effect_nil (action : String)
    (before : List Content) : effect action [] before = before := by
  unfold effect
  split
  · simp
  · refine (List.map_congr_left fun c _ => ?_).trans (List.map_id before)
    rw [marked, if_neg List.not_mem_nil]
    rfl

theorem acted_nothing (action : String) (source goal : Option String) (shown : List MessageMeta)
    (same : ∀ name, t.contents name = s.contents name) :
    Acted action source goal shown [] s t := by
  refine ⟨[], by simp, fun name => ?_⟩
  have none_ : namedBases shown [] = [] := by simp [namedBases]
  simp [same, none_, effect_nil]

theorem effect_copy (bases : List String) (before : List Content) :
    effect "copy" bases before = before := by
  rw [effect, if_neg (by decide)]
  refine (List.map_congr_left fun c _ => ?_).trans (List.map_id before)
  simp only [marked, markedFlags]
  split <;> rfl

theorem transfer_acted (showing : Showing folder shown s) {target : Option String} {moves : Bool}
    {drawn : Nat → String} {fresh n : Nat} (hfresh : IsUidvalidity fresh)
    (valid : ∀ i, isValidBase (drawn i) = true) (unused : ∀ i, ∀ m ∈ shown, drawn i ≠ m.base)
    (known : ∀ uid ∈ uids, ∃ m ∈ shown, m.uid = uid) (some_ : uids ≠ [])
    (ran : transfer s folder uids target moves drawn fresh = (t, .ok n)) :
    n = uids.length ∧ Acted (if moves then "move" else "copy") (some folder)
      (target.bind fun target => (normalizeFolderName target).toOption) shown uids s t := by
  unfold transfer at ran
  split at ran
  · cases ran
  next given =>
  split at ran
  · cases ran
  next target normal =>
  split at ran
  · cases ran
  split at ran
  · cases ran
  next copied result copying =>
  have goal : ((some given).bind fun target => (normalizeFolderName target).toOption) =
      some target := by
    rw [Option.bind_some, normal]
    rfl
  rw [goal]
  obtain ⟨has, copies, same, names, contents⟩ := MailStore.copyMany_contents showing.normal
    (MailStore.normalizeFolderName_normal normal) showing.has showing.uids showing.depicts known some_ valid
    hfresh copying
  have apart : ∀ m ∈ shown, ∀ c ∈ copies, c.1 ≠ m.base := by
    intro m mem c inCopies own
    obtain ⟨i, drawn_⟩ := names c inCopies
    exact unused i m mem (drawn_.symm.trans own)
  cases moves with
  | false =>
    cases ran
    refine ⟨rfl, copies, ?_, fun name => ?_⟩
    · simpa using same
    · rw [contents name]
      refine congrArg (Option.map · _) (funext fun before => ?_)
      simp only [Bool.false_eq_true, if_false, effect_copy, ite_self, Option.some.injEq,
        eq_comm (a := target)]
      split
      · rfl
      · rw [List.append_nil]
  | true =>
    rw [if_pos rfl] at ran
    split at ran
    · cases ran
    next left expunged_ removed =>
    cases ran
    have lone : ∀ m ∈ shown, ∀ cs ∈ copied.contents folder, MailStore.Lone m.base cs := by
      intro m mem cs inside
      rw [contents folder] at inside
      obtain ⟨before, here, rfl⟩ := Option.mem_map.mp inside
      have few := showing.lone m mem before here
      split
      · have none_ : (copies.map (·.1)).count m.base = 0 := by
          refine List.count_eq_zero.mpr fun inCopies => ?_
          obtain ⟨c, mem', own⟩ := List.mem_map.mp inCopies
          exact apart m mem c mem' own
        rw [MailStore.Lone, List.map_append, List.count_append, none_]
        exact few
      · exact few
    have gone := MailStore.expunge_contents showing.normal has known lone
    rw [removed] at gone
    refine ⟨rfl, copies, ?_, fun name => ?_⟩
    · simpa using same
    · rw [gone name, contents name, Option.map_map]
      refine congrArg (Option.map · _) (funext fun before => ?_)
      have stay : copies.filter (fun c => c.1 ∉ namedBases shown uids) = copies := by
        refine List.filter_eq_self.mpr fun c inCopies => decide_eq_true fun inBases => ?_
        obtain ⟨m, mem, -, own⟩ := mem_namedBases.mp inBases
        exact apart m mem c inCopies own.symm
      simp only [Function.comp, if_true, effect, true_or, Option.some.injEq, eq_comm (b := name)]
      by_cases source : name = folder <;> by_cases here : name = target
      · simp only [if_pos source, if_pos here, List.filter_append, stay]
      · simp only [if_pos source, if_neg here, List.append_nil]
      · simp only [if_neg source, if_pos here]
      · simp only [if_neg source, if_neg here, List.append_nil]

theorem markEach_acted (showing : Showing folder shown s) {action : String} {n : Nat}
    (known : ∀ uid ∈ uids, ∃ m ∈ shown, m.uid = uid)
    (mark : action ∈ ["mark_seen", "mark_unseen", "flag", "unflag"])
    (ran : markEach s folder shown uids action = (t, .ok n)) :
    n = uids.length ∧ Acted action (some folder) goal shown uids s t := by
  unfold markEach at ran
  split at ran
  · cases ran
  next done marking =>
  cases ran
  have whole := (setEach_all showing known marking).2
  refine ⟨rfl, [], ?_, fun name => ?_⟩
  · rw [if_neg]
    · rfl
    · rintro (rfl | rfl) <;> exact absurd mark (by decide)
  · rw [whole name]
    refine congrArg (Option.map · _) (funext fun before => ?_)
    have other : ¬ (action = "move" ∨ action = "delete") := by
      rintro (rfl | rfl) <;> exact absurd mark (by decide)
    simp only [effect, if_neg other, ite_self, List.append_nil, Option.some.injEq,
      eq_comm (a := name)]

theorem deleteEach_acted (showing : Showing folder shown s) {n : Nat}
    (known : ∀ uid ∈ uids, ∃ m ∈ shown, m.uid = uid)
    (ran : deleteEach s folder shown uids = (t, .ok n)) :
    n = uids.length ∧ Acted "delete" (some folder) goal shown uids s t := by
  unfold deleteEach at ran
  split at ran
  · cases ran
  next left done marking =>
  split at ran
  · cases ran
  next last result removed =>
  cases ran
  obtain ⟨has, whole⟩ := setEach_all showing known marking
  have lone : ∀ m ∈ shown, ∀ cs ∈ left.contents folder, MailStore.Lone m.base cs := by
    intro m mem cs inside
    rw [whole folder] at inside
    obtain ⟨before, here, rfl⟩ := Option.mem_map.mp inside
    rw [if_pos rfl, MailStore.Lone, map_fst_marked]
    exact showing.lone m mem before here
  have gone := MailStore.expunge_contents showing.normal has known lone
  rw [removed] at gone
  refine ⟨rfl, [], rfl, fun name => ?_⟩
  rw [gone name, whole name, Option.map_map]
  refine congrArg (Option.map · _) (funext fun before => ?_)
  simp only [Function.comp, effect, or_true, if_true, ite_self, List.append_nil,
    Option.some.injEq, eq_comm (a := name)]
  split
  · -- the marks of a message that goes are of no account
    exact filter_marked _ _ before
  · rfl

end Actions

/-! ### The whole action -/

section Whole

variable {s t : MailStore} {request : BatchRequest} {drawn : Nat → String} {fresh n : Nat}

/-- The files of the folder of the request have names of their own, and what is drawn is new: names
that none of these files has, and a UIDVALIDITY. -/
structure Ready (s : MailStore) (request : BatchRequest) (drawn : Nat → String) (fresh : Nat) :
    Prop where
  distinct : ∀ folder, normalizeFolderName request.folder = .ok folder →
    ∀ cs ∈ s.contents folder, (cs.map (·.1)).Nodup
  unused : ∀ folder, normalizeFolderName request.folder = .ok folder →
    ∀ cs ∈ s.contents folder, ∀ c ∈ cs, ∀ i, drawn i ≠ c.1
  valid : ∀ i, isValidBase (drawn i) = true
  fresh : IsUidvalidity fresh

theorem Ready.showing (ready : Ready s request drawn fresh) {folder : String} {opened : MailStore}
    {state : FolderState} (normal : normalizeFolderName request.folder = .ok folder)
    (ran : s.openFolder folder false fresh = (opened, .ok state)) :
    Showing folder state.messages opened ∧ (∀ i, ∀ m ∈ state.messages, drawn i ≠ m.base) ∧
      ∀ name, opened.contents name = s.contents name := by
  have again := MailStore.normalizeFolderName_normal normal
  have same := MailStore.openFolder_contents s folder fresh
  rw [ran] at same
  obtain ⟨files, list, found, accepted, -, messages⟩ :=
    MailStore.openFolder_ok again ready.fresh ran
  have contents : s.contents folder = some (files.files.map MessageFile.content) := by
    rw [MailStore.contents, found, Option.map_some]
  have distinct := ready.distinct folder normal _ contents
  have here {m : MessageMeta} (mem : m ∈ state.messages) :=
    (MailStore.shown_content (messages ▸ mem)).2
  refine ⟨⟨again, MailStore.openFolder_has again ready.fresh ran, ?_, ?_, ?_⟩, ?_, same⟩
  · rw [messages]
    rw [List.map_map] at distinct
    exact MailStore.nodup_shown distinct accepted
  · intro m _ cs inside
    obtain rfl := Option.some.inj (contents.symm.trans ((same folder).symm.trans inside))
    exact List.nodup_iff_count_le_one.mp distinct m.base
  · intro cs inside m mem c inCs own
    obtain rfl := Option.some.inj (contents.symm.trans ((same folder).symm.trans inside))
    exact congrArg Prod.snd (List.inj_on_of_nodup_map distinct inCs (here mem) own)
  · intro i m mem
    exact ready.unused folder normal _ contents _ (here mem) i

theorem nodup_shownMessages (ready : Ready s request drawn fresh) :
    ((shownMessages s request fresh).map (·.uid)).Nodup := by
  unfold shownMessages
  split
  · exact List.nodup_nil
  next folder normal =>
  split
  · exact List.nodup_nil
  next state opening =>
  exact (ready.showing normal (Prod.ext rfl opening)).1.uids

/-- An answered request was carried out for each UID of it that a message has. -/
theorem batch_acted (ready : Ready s request drawn fresh)
    (ran : batch s request drawn fresh = (t, .ok n)) :
    n = (existing (shownMessages s request fresh) request).length ∧
      Acted request.verb (normalizeFolderName request.folder).toOption request.goal
        (shownMessages s request fresh) (existing (shownMessages s request fresh) request) s t := by
  unfold batch at ran
  split at ran
  · next empty =>
    cases ran
    have none_ : existing (shownMessages s request fresh) request = [] := by
      rw [existing, List.isEmpty_iff.mp empty, List.filter_nil]
    rw [none_]
    exact ⟨rfl, acted_nothing _ _ _ _ fun _ => rfl⟩
  split at ran
  · cases ran
  split at ran
  · cases ran
  next folder normal =>
  simp only at ran
  split at ran
  · cases ran
  next opened state opening =>
  obtain ⟨showing, unused, same⟩ := ready.showing normal opening
  have shown : shownMessages s request fresh = state.messages := by
    simp only [shownMessages, normal, opening]
  have source : (normalizeFolderName request.folder).toOption = some folder := by
    rw [normal]
    rfl
  rw [shown, source]
  change (if (existing state.messages request).isEmpty then _ else _) = _ at ran
  have known : ∀ uid ∈ existing state.messages request, ∃ m ∈ state.messages, m.uid = uid := by
    intro uid mem
    simpa using (List.mem_filter.mp mem).2
  have moved {action : String} (acted : Acted action (some folder) request.goal state.messages
      (existing state.messages request) opened t) : Acted action (some folder) request.goal
      state.messages (existing state.messages request) s t := by
    obtain ⟨copies, what, contents⟩ := acted
    exact ⟨copies, what, fun name => by rw [contents name, same name]⟩
  split at ran
  · next empty =>
    cases ran
    rw [List.isEmpty_iff.mp empty]
    exact ⟨rfl, acted_nothing _ _ _ _ same⟩
  next filled =>
  have some_ : existing state.messages request ≠ [] := by simpa using filled
  split at ran
  · next transfers =>
    obtain ⟨count, acted⟩ := transfer_acted showing ready.fresh ready.valid unused known some_ ran
    refine ⟨count, moved ?_⟩
    rcases transfers with move | copy
    · rwa [if_pos (by simpa using move), ← move] at acted
    · rwa [if_neg (by rw [copy]; decide), ← copy] at acted
  split at ran
  · next deletes =>
    obtain ⟨count, acted⟩ := deleteEach_acted showing known ran
    exact ⟨count, moved (by rw [BatchRequest.verb, deletes]; exact acted)⟩
  split at ran
  · next marks =>
    obtain ⟨count, acted⟩ := markEach_acted showing known marks ran
    exact ⟨count, moved acted⟩
  · cases ran

theorem mem_existing {shown : List MessageMeta} {request : BatchRequest} {uid : Nat} :
    uid ∈ existing shown request ↔ uid ∈ (named shown request).map (·.uid) := by
  simp only [existing, named, List.mem_filter, List.any_eq_true, decide_eq_true_eq, List.mem_map,
    List.contains_iff_mem]
  constructor
  · rintro ⟨asked, m, mem, rfl⟩
    exact ⟨m, ⟨mem, asked⟩, rfl⟩
  · rintro ⟨m, ⟨mem, asked⟩, rfl⟩
    exact ⟨asked, m, mem, rfl⟩

theorem namedBases_existing (shown : List MessageMeta) (request : BatchRequest) :
    namedBases shown (existing shown request) = (named shown request).map (·.base) := by
  refine congrArg (List.map _) (List.filter_congr fun m mem => ?_)
  rw [Bool.eq_iff_iff, List.contains_iff_mem, List.contains_iff_mem, existing, List.mem_filter]
  exact ⟨And.left, fun asked => ⟨asked, List.any_eq_true.mpr ⟨m, mem, decide_eq_true rfl⟩⟩⟩

theorem nodup_existing_iff (shown : List MessageMeta) (request : BatchRequest) :
    (existing shown request).Nodup ↔ ∀ m ∈ shown, request.uids.count m.uid ≤ 1 := by
  have count {uid : Nat} (has : shown.any (·.uid = uid)) :
      (existing shown request).count uid = request.uids.count uid :=
    List.count_filter has
  rw [List.nodup_iff_count_le_one]
  constructor
  · intro few m mem
    rw [← count (List.any_eq_true.mpr ⟨m, mem, decide_eq_true rfl⟩)]
    exact few m.uid
  · intro few uid
    by_cases has : shown.any (·.uid = uid)
    · obtain ⟨m, mem, own⟩ := List.any_eq_true.mp has
      obtain rfl := of_decide_eq_true own
      rw [count has]
      exact few m mem
    · have outside : uid ∉ existing shown request := fun mem => has (List.mem_filter.mp mem).2
      rw [List.count_eq_zero.mpr outside]
      exact Nat.zero_le 1

theorem existing_perm {shown : List MessageMeta} (uids : (shown.map (·.uid)).Nodup)
    (once : (existing shown request).Nodup) :
    (existing shown request).Perm ((named shown request).map (·.uid)) := by
  have own : ((named shown request).map (·.uid)).Nodup := uids.sublist (List.filter_sublist.map _)
  exact (List.perm_ext_iff_of_nodup once own).mpr fun uid => mem_existing

theorem nodup_of_length {shown : List MessageMeta} (uids : (shown.map (·.uid)).Nodup)
    (count : (existing shown request).length = (named shown request).length) :
    (existing shown request).Nodup := by
  have own : ((named shown request).map (·.uid)).Nodup := uids.sublist (List.filter_sublist.map _)
  have perm : (existing shown request).dedup.Perm ((named shown request).map (·.uid)) :=
    (List.perm_ext_iff_of_nodup (List.nodup_dedup _) own).mpr fun uid =>
      List.mem_dedup.trans mem_existing
  have whole : (existing shown request).dedup = existing shown request := by
    refine (List.dedup_sublist _).eq_of_length ?_
    rw [perm.length_eq, List.length_map, count]
  exact whole ▸ List.nodup_dedup _

/-- An answered request treats each message that it names once, in what it leaves in every folder
and in the number that it answers, just where it does not name a message twice. -/
theorem batch_once_iff (ready : Ready s request drawn fresh)
    (ran : batch s request drawn fresh = (t, .ok n)) :
    ActsOnce request (shownMessages s request fresh) s t n ↔
      ∀ m ∈ shownMessages s request fresh, request.uids.count m.uid ≤ 1 := by
  have uids := nodup_shownMessages ready
  obtain ⟨count, copies, what, contents⟩ := batch_acted ready ran
  rw [← nodup_existing_iff]
  constructor
  · intro acts
    exact nodup_of_length uids (count.symm.trans acts.count)
  · intro once
    have perm := existing_perm uids once
    rw [namedBases_existing] at contents
    refine ⟨?_, copies, ?_, contents⟩
    · rw [count, perm.length_eq, List.length_map]
    rw [what]
    split
    · have same : ((named (shownMessages s request fresh) request).map (·.uid)).map
          (MailStore.contentOf (shownMessages s request fresh)) =
          (named (shownMessages s request fresh) request).map fun m => (m.flags, m.size) := by
        rw [List.map_map]
        refine List.map_congr_left fun m mem => ?_
        exact MailStore.contentOf_eq uids (List.mem_filter.mp mem).1
      rw [← same]
      exact perm.map _
    · exact List.Perm.refl _

/-- A store with one message in its inbox, another one in a second folder, and a folder with
none. -/
def oneInInbox : MailStore :=
  { folders :=
      [("INBOX",
        { files := [{ base := "1.M2P3Q1.host", directory := .cur, flags := ∅, size := 5 }]
          uidFile := none
          expunged := []
          acl := [] }),
      ("Archive", Folder.empty),
      ("Sent",
        { Folder.empty with
          files := [{ base := "4.M5P6Q4.host", directory := .cur, flags := ∅, size := 6 }] })]
    quota := none
    usage := none }

def drawnNames (i : Nat) : String := if i = 0 then "2.M3P3Q2.host" else "3.M4P3Q3.host"

theorem oneInInbox_ready {request : BatchRequest} (inbox : request.folder = "INBOX") :
    Ready oneInInbox request drawnNames 7 := by
  have named {folder : String} (normal : normalizeFolderName request.folder = .ok folder) :
      oneInInbox.contents folder = some [("1.M2P3Q1.host", ∅, 5)] := by
    have own : normalizeFolderName "INBOX" = .ok "INBOX" := by decide
    rw [inbox, own] at normal
    cases normal
    rfl
  refine ⟨fun folder normal cs inside => ?_, fun folder normal cs inside c mem i => ?_, fun i => ?_,
    by decide, by decide⟩
  · obtain rfl := Option.some.inj ((named normal).symm.trans inside)
    decide
  · obtain rfl := Option.some.inj ((named normal).symm.trans inside)
    obtain rfl := List.mem_singleton.mp mem
    unfold drawnNames
    split <;> decide
  · unfold drawnNames
    split <;> decide

/-- The message is moved, and a UID that no message has is passed over each time. -/
theorem batch_once_move : ∃ t,
    batch oneInInbox ⟨"INBOX", [1, 9, 9], "move", some "Archive"⟩ drawnNames 7 = (t, .ok 1) ∧
      ActsOnce ⟨"INBOX", [1, 9, 9], "move", some "Archive"⟩
        (shownMessages oneInInbox ⟨"INBOX", [1, 9, 9], "move", some "Archive"⟩ 7) oneInInbox t 1 := by
  have ran : (batch oneInInbox ⟨"INBOX", [1, 9, 9], "move", some "Archive"⟩ drawnNames 7).2 =
      .ok 1 := by
    decide +kernel
  exact ⟨_, Prod.ext rfl ran,
    (batch_once_iff (oneInInbox_ready rfl) (Prod.ext rfl ran)).mpr (by decide +kernel)⟩

/-- The inbox's only message, which the request names twice, is copied twice. -/
theorem batch_copies_twice : ∃ t,
    batch oneInInbox ⟨"INBOX", [1, 1], "copy", some "Archive"⟩ drawnNames 7 = (t, .ok 2) ∧
      Ready oneInInbox ⟨"INBOX", [1, 1], "copy", some "Archive"⟩ drawnNames 7 ∧
      (t.contents "Archive").map List.length = some 2 ∧
      ¬ActsOnce ⟨"INBOX", [1, 1], "copy", some "Archive"⟩
        (shownMessages oneInInbox ⟨"INBOX", [1, 1], "copy", some "Archive"⟩ 7) oneInInbox t 2 := by
  have ran : (batch oneInInbox ⟨"INBOX", [1, 1], "copy", some "Archive"⟩ drawnNames 7).2 =
      .ok 2 := by
    decide +kernel
  have one : (named (shownMessages oneInInbox ⟨"INBOX", [1, 1], "copy", some "Archive"⟩ 7)
      ⟨"INBOX", [1, 1], "copy", some "Archive"⟩).length = 1 := by decide +kernel
  refine ⟨_, Prod.ext rfl ran, oneInInbox_ready rfl, by decide +kernel, fun acts => ?_⟩
  have count := acts.count
  omega

end Whole

end MailStack.Webmail
