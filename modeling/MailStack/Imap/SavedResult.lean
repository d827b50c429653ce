import MailStack.Imap.Authentication
import MailStack.Imap.SequenceSetRead
import MailStack.Imap.ClientView

/-! Commands on the result that a SEARCH has saved. It is handed on as the text of a set, so it is
kept where the parser takes this text. -/

namespace MailStack.Imap

open Lib Maildir Handler SequenceSet

variable {S : Type} {set : SequenceSet}

/-- The numbers, or the UIDs, of the messages that a saved result refers to. -/
def referred (saved : List Nat) (uidMode : Bool) (messages : List MessageMeta) : List Nat :=
  if uidMode then saved
  else (messages.zipIdx 1).filterMap fun (m, number) =>
    if saved.contains m.uid then some number else none

def View.saved (view : View) (saved : List Nat) : List (Nat × MessageMeta) :=
  ((view.messages.zipIdx 1).filter fun (m, _) => saved.contains m.uid).map
    fun (m, number) => (number, m)

variable {view : View} {saved : List Nat} {uidMode : Bool} {s : Session S}

theorem sorted_sorted (values : List Nat) : sorted (sorted values) = sorted values :=
  sorted_of_ascending (sorted_ascending values)

theorem rangesOf_sorted (values : List Nat) : rangesOf (sorted values) = rangesOf values := by
  rw [rangesOf, rangesOf, sorted_sorted]

theorem fromValues_sorted (values : List Nat) : fromValues (sorted values) = fromValues values := by
  rw [fromValues_eq, fromValues_eq, rangesOf_sorted]

variable {messages : List MessageMeta}

theorem savedResultNumbers_ok {numbers : List Nat} :
    savedResultNumbers saved uidMode messages = .ok numbers ↔
      numbers = sorted (referred saved uidMode messages) ∧
        referred saved uidMode messages ≠ [] := by
  have empty (values : List Nat) (message : String) :
      (if values.isEmpty then .error (.protocol message) else .ok (sorted values) :
        Except MailError (List Nat)) = .ok numbers ↔ numbers = sorted values ∧ values ≠ [] := by
    cases values with
    | nil => simp
    | cons first rest =>
      rw [List.isEmpty_cons, if_neg Bool.false_ne_true, Except.ok.injEq, eq_comm]
      exact ⟨fun eq => ⟨eq, List.cons_ne_nil _ _⟩, And.left⟩
  unfold savedResultNumbers referred
  cases uidMode with
  | true =>
    rw [if_pos rfl, if_pos rfl]
    exact empty _ _
  | false =>
    rw [if_neg Bool.false_ne_true, if_neg Bool.false_ne_true]
    exact empty _ _

theorem referred_nil (uidMode : Bool) (messages : List MessageMeta) :
    referred [] uidMode messages = [] := by
  cases uidMode with
  | true => rfl
  | false => exact List.filterMap_eq_nil_iff.mpr fun _ _ => rfl

/-- What the set `$` is parsed to. -/
theorem parseSequenceSet_dollar {set : SequenceSet} (shown : s.view = some view)
    (kept : s.savedSearch = some saved) :
    s.parseSequenceSet "$" uidMode = .ok set ↔ referred saved uidMode view.messages ≠ [] ∧
      parse (fromValues (referred saved uidMode view.messages)) = .ok set := by
  have dollar : Lib.contains "$" '$' = true := by decide
  have replaced (inserted : List Char) :
      String.ofList ("$".toList.flatMap fun c => if c = '$' then inserted else [c]) =
        String.ofList inserted := by
    show String.ofList (inserted ++ []) = _
    rw [List.append_nil]
  unfold Session.parseSequenceSet
  rw [if_pos dollar, kept]
  cases saved with
  | nil =>
    constructor
    · intro h
      cases h
    · rintro ⟨some, -⟩
      exact absurd (referred_nil uidMode view.messages) some
  | cons first rest =>
    have kept : (some (first :: rest)).filter (fun uids => !uids.isEmpty) = some (first :: rest) :=
      rfl
    rw [kept]
    dsimp only
    cases numbers : savedResultNumbers (first :: rest) uidMode view.messages with
    | error error =>
      have none (some : referred (first :: rest) uidMode view.messages ≠ []) : False := by
        have ok := savedResultNumbers_ok.mpr ⟨rfl, some⟩
        rw [numbers] at ok
        cases ok
      cases uidMode <;>
        · simp only [shown, Option.map_some, Option.getD_some, numbers]
          exact ⟨(fun h => by cases h), fun h => (none h.1).elim⟩
    | ok values =>
      obtain ⟨rfl, some⟩ := savedResultNumbers_ok.mp numbers
      cases uidMode <;>
        · simp only [shown, Option.map_some, Option.getD_some, numbers]
          rw [replaced, String.ofList_toList, fromValues_sorted, and_iff_right some]

/-- What a session promises of what it shows: UIDs ascend, and UIDs and numbers fit into 32 bits. -/
structure View.Numbered (view : View) : Prop where
  ascending : Ascending view.messages
  uids : ∀ m ∈ view.messages, 0 < m.uid ∧ m.uid ≤ u32Max
  count : view.messages.length ≤ u32Max

variable {number : Nat} {m : MessageMeta}

theorem mem_zipIdx_one (mem : (m, number) ∈ messages.zipIdx 1) :
    1 ≤ number ∧ number ≤ messages.length ∧ messages[number - 1]? = some m := by
  obtain ⟨positive, here⟩ := List.mem_zipIdx_iff_le_and_getElem?_sub.mp mem
  have inside := (List.getElem?_eq_some_iff.mp here).1
  simp only at positive inside here
  exact ⟨positive, by omega, here⟩

theorem mem_of_mem_zipIdx (mem : (m, number) ∈ messages.zipIdx 1) : m ∈ messages :=
  List.mem_of_getElem? (mem_zipIdx_one mem).2.2

theorem mem_referred_numbers :
    number ∈ referred saved false messages ↔
      ∃ m, (m, number) ∈ messages.zipIdx 1 ∧ m.uid ∈ saved := by
  rw [referred, if_neg Bool.false_ne_true, List.mem_filterMap]
  constructor
  · rintro ⟨⟨m, number'⟩, mem, eq⟩
    dsimp only at eq
    split at eq
    · rename_i inside
      obtain rfl := Option.some.inj eq
      exact ⟨m, mem, List.contains_iff_mem.mp inside⟩
    · cases eq
  · rintro ⟨m, mem, inside⟩
    refine ⟨(m, number), mem, ?_⟩
    dsimp only
    rw [if_pos (List.contains_iff_mem.mpr inside)]

theorem Ascending.le_getLast (ascending : Ascending messages)
    {m last : MessageMeta} (mem : m ∈ messages) (atEnd : messages.getLast? = some last) :
    m.uid ≤ last.uid := by
  obtain ⟨front, rfl⟩ := List.getLast?_eq_some_iff.mp atEnd
  rcases List.mem_append.mp mem with mem | mem
  · exact ((List.pairwise_append.mp ascending).2.2 m mem last (List.mem_singleton.mpr rfl)).le
  · rw [List.mem_singleton.mp mem]

theorem referred_small (numbered : view.Numbered) (uids : ∀ n ∈ saved, 0 < n ∧ n ≤ u32Max) :
    ∀ n ∈ referred saved uidMode view.messages, 0 < n ∧ n ≤ u32Max := by
  cases uidMode with
  | true => exact uids
  | false =>
    intro n mem
    obtain ⟨m, mem, -⟩ := mem_referred_numbers.mp mem
    obtain ⟨low, high, -⟩ := mem_zipIdx_one mem
    exact ⟨low, high.trans numbered.count⟩

/-- The set `$` chooses the messages of the saved result where the largest number of all, if it was
saved, does no harm. -/
theorem chosen_iff (numbered : view.Numbered) (uids : ∀ n ∈ saved, 0 < n ∧ n ≤ u32Max)
    (mem : (m, number) ∈ view.messages.zipIdx 1) :
    (if uidMode then
        contains ⟨(rangesOf (referred saved uidMode view.messages)).map ofRun⟩ m.uid view.maxUid
      else
        contains ⟨(rangesOf (referred saved uidMode view.messages)).map ofRun⟩ number view.maxSeq) =
        true ↔
      m.uid ∈ saved ∨
        uidMode = true ∧ u32Max ∈ saved ∧ view.messages.getLast? = some m := by
  have small := @referred_small view saved uidMode numbered uids
  have here := mem_of_mem_zipIdx mem
  obtain ⟨low, high, at_number⟩ := mem_zipIdx_one mem
  cases uidMode with
  | true =>
    obtain ⟨last, atEnd⟩ : ∃ last, view.messages.getLast? = some last :=
      ⟨_, List.getLast?_eq_some_getLast (List.ne_nil_of_mem here)⟩
    have top : view.maxUid = last.uid := by
      rw [View.maxUid, atEnd]
      rfl
    have inside := numbered.ascending.le_getLast here atEnd
    have most := (numbered.uids last (List.mem_of_getLast? atEnd)).2
    have isLast : m.uid = last.uid ↔ view.messages.getLast? = some m := by
      rw [atEnd, Option.some.injEq]
      constructor
      · intro same
        exact (numbered.ascending.eq_of_uid here (List.mem_of_getLast? atEnd) same).symm
      · rintro rfl
        rfl
    have positive := (numbered.uids m here).1
    rw [if_pos rfl, top, contains_ofRuns_star (fun n mem => (small n mem).2) inside most,
      and_iff_right (by omega), isLast, referred, if_pos rfl]
    refine or_congr Iff.rfl ?_
    rw [and_iff_right rfl, and_comm]
  | false =>
    rw [if_neg Bool.false_ne_true, View.maxSeq,
      contains_ofRuns_star (fun n mem => (small n mem).2) high numbered.count,
      and_iff_right (by omega), mem_referred_numbers]
    have same : (∃ m', (m', number) ∈ view.messages.zipIdx 1 ∧ m'.uid ∈ saved) ↔ m.uid ∈ saved := by
      constructor
      · rintro ⟨m', mem', inside⟩
        have eq := at_number.symm.trans (mem_zipIdx_one mem').2.2
        rw [Option.some.inj eq]
        exact inside
      · exact fun inside => ⟨m, mem, inside⟩
    rw [same]
    constructor
    · rintro (inside | ⟨isLast, refers⟩)
      · exact .inl inside
      · -- the number is then the largest of all, and it is referred to itself
        obtain ⟨m', mem', inside⟩ := mem_referred_numbers.mp refers
        have whole := (mem_zipIdx_one mem').2.1
        have count := numbered.count
        have isTop : number = u32Max := by omega
        rw [isTop] at at_number
        have eq := at_number.symm.trans (mem_zipIdx_one mem').2.2
        rw [Option.some.inj eq]
        exact .inl inside
    · rintro (inside | ⟨isUid, -⟩)
      · exact .inl inside
      · cases isUid

/-- A command whose set is `$` addresses the messages of the saved result, and has no effect where
there are none. -/
structure Honours [DecidableEq S] (ctx : Context S) (c : Conn S) (view : View) (saved : List Nat)
    (uidMode : Bool) : Prop where
  addressed : ∃ set, c.session.parseSequenceSet "$" uidMode = .ok set ∧
    view.targets set uidMode = view.saved saved
  nothing : (∀ m ∈ view.messages, m.uid ∉ saved) → ∀ items : List FetchItem,
    (items.contains .modSeq = true → c.session.condstore = true) →
    handleFetch ctx uidMode "$" items none c = .ok (.ok "FETCH completed") c

/-- The saved result refers to something, its text is one that the parser takes, and the largest
number of all is not in it unless the last message is. -/
structure Keepable (view : View) (saved : List Nat) (uidMode : Bool) : Prop where
  filled : referred saved uidMode view.messages ≠ []
  short : (bytes (fromValues (referred saved uidMode view.messages))).length ≤ maxInput
  few : (rangesOf (referred saved uidMode view.messages)).length ≤ maxRanges
  top : uidMode = true → u32Max ∈ saved → ∀ m ∈ view.messages.getLast?, m.uid ∈ saved

/-- The targets are the messages of the saved result if the set chooses each of these and no
other. -/
theorem targets_eq_saved :
    view.targets set uidMode = view.saved saved ↔
      ∀ m number, (m, number) ∈ view.messages.zipIdx 1 →
        ((if uidMode then set.contains m.uid view.maxUid else set.contains number view.maxSeq) =
          true ↔ m.uid ∈ saved) := by
  have swap : Function.Injective fun p : MessageMeta × Nat => (p.2, p.1) := by
    intro p q eq
    exact Prod.ext (Prod.mk.inj eq).2 (Prod.mk.inj eq).1
  unfold View.targets View.saved
  constructor
  · intro same m number mem
    have same := List.map_injective_iff.mpr swap same
    have both : (m, number) ∈ (view.messages.zipIdx 1).filter (fun p =>
        if uidMode then set.contains p.1.uid view.maxUid else set.contains p.2 view.maxSeq) ↔
        (m, number) ∈ (view.messages.zipIdx 1).filter fun p => saved.contains p.1.uid := by
      rw [same]
    rw [List.mem_filter, List.mem_filter, and_iff_right mem, and_iff_right mem,
      List.contains_iff_mem] at both
    exact both
  · intro same
    congr 1
    refine List.filter_congr fun p mem => ?_
    rw [Bool.eq_iff_iff, List.contains_iff_mem]
    exact same p.1 p.2 mem

theorem saved_eq_nil (none : ∀ m ∈ view.messages, m.uid ∉ saved) : view.saved saved = [] := by
  rw [View.saved, List.map_eq_nil_iff, List.filter_eq_nil_iff]
  intro p mem
  rw [List.contains_iff_mem]
  exact none p.1 (mem_of_mem_zipIdx mem)

/-- A FETCH of no message answers OK and leaves everything as it is. -/
theorem handleFetch_none [DecidableEq S] {ctx : Context S} {c : Conn S}
    {items : List FetchItem} (shown : c.session.view = some view)
    (parsed : c.session.parseSequenceSet "$" uidMode = .ok set)
    (none : view.targets set uidMode = [])
    (allowed : items.contains .modSeq = true → c.session.condstore = true) :
    handleFetch ctx uidMode "$" items .none c = .ok (.ok "FETCH completed") c := by
  have selected : requireSelected "command requires a selected mailbox" c = .ok view c := by
    unfold requireSelected
    rw [run_bind (show current c = .ok c.session c from rfl), shown]
    rfl
  have modSeq : (items.contains .modSeq && !c.session.condstore) = false := by
    cases asked : items.contains .modSeq with
    | false => rfl
    | true => rw [allowed asked]; rfl
  unfold handleFetch
  rw [run_bind selected, run_bind (show current c = .ok c.session c from rfl),
    run_bind (show stopIf _ _ c = .ok () c from rfl), parsed,
    run_bind (show demand (.ok set) c = .ok set c from rfl), modSeq,
    run_bind (show stopIf false _ c = .ok () c from rfl), none]
  rfl

/-- A command with the set `$` does what it says exactly where the saved result is kept. -/
theorem honours_iff_keepable [DecidableEq S] (ctx : Context S) (c : Conn S)
    (shown : c.session.view = some view) (kept : c.session.savedSearch = some saved)
    (numbered : view.Numbered) (uids : ∀ n ∈ saved, 0 < n ∧ n ≤ u32Max) :
    Honours ctx c view saved uidMode ↔ Keepable view saved uidMode := by
  have small := @referred_small view saved uidMode numbered uids
  have parses (set : SequenceSet) := @parseSequenceSet_dollar S view saved uidMode c.session set
    shown kept
  constructor
  · intro honours
    obtain ⟨set, parsed, targets⟩ := honours.addressed
    obtain ⟨filled, written⟩ := (parses set).mp parsed
    obtain ⟨rfl, -, short, few⟩ := (parse_fromValues_ok small).mp written
    refine ⟨filled, short, few, ?_⟩
    rintro rfl refers m atEnd
    have some : 1 ≤ view.messages.length :=
      List.length_pos_iff.mpr (List.ne_nil_of_mem (List.mem_of_getLast? atEnd))
    have mem : (m, view.messages.length) ∈ view.messages.zipIdx 1 := by
      refine List.mem_zipIdx_iff_le_and_getElem?_sub.mpr ⟨some, ?_⟩
      rw [← List.getLast?_eq_getElem?]
      exact atEnd
    have chosen := (targets_eq_saved.mp targets m _ mem).symm.trans (chosen_iff numbered uids mem)
    exact chosen.mpr (.inr ⟨rfl, refers, atEnd⟩)
  · intro keepable
    have written := (parse_fromValues_ok small).mpr ⟨rfl, keepable.filled, keepable.short,
      keepable.few⟩
    have parsed := (parses _).mpr ⟨keepable.filled, written⟩
    have targets : view.targets ⟨(rangesOf (referred saved uidMode view.messages)).map ofRun⟩
        uidMode =
        view.saved saved := by
      refine targets_eq_saved.mpr fun m number mem => (chosen_iff numbered uids mem).trans ?_
      refine ⟨?_, .inl⟩
      rintro (inside | ⟨isUid, refers, atEnd⟩)
      · exact inside
      · exact keepable.top isUid refers m atEnd
    refine ⟨⟨_, parsed, targets⟩, fun none items allowed => ?_⟩
    exact handleFetch_none shown parsed (targets.trans (saved_eq_nil none)) allowed

def twoMessages : View :=
  { folder := "INBOX", writable := true, uidvalidity := 7, uidnext := 4, highestModseq := 1
    messages := [shownMessage 1 ∅, shownMessage 3 ∅], stamp := none, skippedStamps := 0 }

/-- A session that shows them, once a SEARCH has saved its result. -/
def savedConn (saved : List Nat) : Conn Nat where
  session :=
    { Session.start exampleContext true false with
      state := .selected "alice" twoMessages
      savedSearch := some saved }
  realm := exampleRealm
  accesses := []

/-- The second message is fetched by its number after the first search found it and one that is
gone. -/
theorem honours_iff_keepable_two :
    Honours exampleContext (savedConn [2, 3]) twoMessages [2, 3] false := by
  have numbered : twoMessages.Numbered := ⟨by decide, by decide, by decide⟩
  have numbers : referred [2, 3] false twoMessages.messages = [2] := by decide
  have order : sorted [2] = [2] := sorted_of_ascending (by decide)
  refine (honours_iff_keepable exampleContext (savedConn [2, 3]) rfl rfl numbered (by decide)).mpr
    ⟨?_, ?_, ?_, (fun isUid => by cases isUid)⟩
  · rw [numbers]
    decide
  · rw [numbers, fromValues, order]
    decide +kernel
  · rw [numbers, rangesOf, order]
    decide +kernel

/-- The odd numbers below 2050, which are no two together in a range. -/
def oddNumbers : List Nat := (List.range 1025).map fun n => 2 * n + 1

/-- A result of nothing is refused, and so is one of more than 1024 ranges. -/
theorem saved_result_refused :
    ¬Honours exampleContext (savedConn []) twoMessages [] true ∧
      ¬Honours exampleContext (savedConn oddNumbers) twoMessages oddNumbers true := by
  constructor
  · rintro ⟨⟨set, parsed, -⟩, -⟩
    have filled := (@parseSequenceSet_dollar _ twoMessages _ _ _ _ rfl rfl).mp parsed
    exact filled.1 rfl
  · rintro ⟨⟨set, parsed, -⟩, -⟩
    obtain ⟨-, written⟩ := (@parseSequenceSet_dollar _ twoMessages _ _ _ _ rfl rfl).mp parsed
    have small : ∀ n ∈ oddNumbers, 0 < n ∧ n ≤ u32Max := by
      intro n mem
      obtain ⟨k, below, rfl⟩ := List.mem_map.mp mem
      have below := List.mem_range.mp below
      have top : u32Max = 4294967295 := rfl
      omega
    have few := ((parse_fromValues_ok small).mp written).2.2.2
    have ascending : oddNumbers.Pairwise (· < ·) := by
      refine List.pairwise_map.mpr (List.pairwise_lt_range.imp fun less => ?_)
      omega
    have many : (rangesOf oddNumbers).length = 1025 := by
      rw [rangesOf, sorted_of_ascending ascending]
      decide +kernel
    rw [many] at few
    exact absurd few (by decide)

end MailStack.Imap
