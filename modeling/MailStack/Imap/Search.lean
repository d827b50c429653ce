import MailStack.Imap.ClientView
import MailStack.Mime.Dates
import MailStack.Mime.Headers

/-! The keys of SEARCH. A key is first tried on what is known of a message without its content,
which decides unless it depends on the content. -/

namespace MailStack.Imap.Search

open Lib Maildir Mime

inductive DateKind
  | before
  | on
  | since

inductive SearchKey
  | and (keys : List SearchKey)
  | or (first second : SearchKey)
  | not (key : SearchKey)
  | all
  | system (flag : SystemFlag) (present : Bool)
  | keyword (keyword : String) (present : Bool)
  | recent
  | new
  | old
  | header (field : String) (value : List UInt8)
  | body (value : List UInt8)
  | text (value : List UInt8)
  | internalDate (kind : DateKind) (days : Int)
  | sentDate (kind : DateKind) (days : Int)
  | larger (size : Nat)
  | smaller (size : Nat)
  | modSeq (modseq : Nat)
  | uid (set : SequenceSet)
  | sequence (set : SequenceSet)

/-- What a key is tried on. The internal date is one of the metadata. -/
structure SearchContext where
  info : MessageMeta
  internalDate : Int
  sequence : Nat
  maxSequence : Nat
  maxUid : Nat
  message : List UInt8

def dayOf (timestamp : Int) : Int := timestamp.ediv 86400

def compareDay (day : Int) (kind : DateKind) (target : Int) : Bool :=
  match kind with
  | .before => day < target
  | .on => day = target
  | .since => day ≥ target

def lowerByte (byte : UInt8) : UInt8 := if 65 ≤ byte && byte ≤ 90 then byte + 32 else byte

/-- Whether a text is somewhere in another one, in either case. -/
def containsCi (haystack needle : List UInt8) : Bool :=
  haystack.tails.any fun tail => (needle.map lowerByte).isPrefixOf (tail.map lowerByte)

def hasFlag (context : SearchContext) (flag : Flag) : Bool := flag ∈ context.info.flags

mutual

def matchesKey (context : SearchContext) : SearchKey → Bool
  | .and keys => matchesAll context keys
  | .or first second => matchesKey context first || matchesKey context second
  | .not key => !matchesKey context key
  | .all => true
  | .system flag present => hasFlag context (.system flag) == present
  | .keyword keyword present => hasFlag context (.keyword keyword) == present
  | .recent => context.info.recent
  | .new => context.info.recent && !hasFlag context (.system .seen)
  | .old => !context.info.recent
  | .header field value =>
    ((parseHeaders context.message).getAll field).any fun candidate =>
      containsCi (bytes candidate) value
  | .body value => containsCi (splitHeadersBody context.message).2 value
  | .text value => containsCi context.message value
  | .internalDate kind days => compareDay (dayOf context.internalDate) kind days
  | .sentDate kind days =>
    match (parseHeaders context.message).get "date" with
    | none => false
    | some date =>
      match parseHeaderDate date with
      | none => false
      | some timestamp => compareDay (dayOf timestamp) kind days
  | .larger size => context.info.size > size
  | .smaller size => context.info.size < size
  | .modSeq modseq => context.info.modseq ≥ modseq
  | .uid set => set.contains context.info.uid context.maxUid
  | .sequence set => set.contains context.sequence context.maxSequence

def matchesAll (context : SearchContext) : List SearchKey → Bool
  | [] => true
  | key :: rest => matchesKey context key && matchesAll context rest

end

def isContentKey : SearchKey → Bool
  | .header _ _ | .body _ | .text _ | .sentDate _ _ => true
  | _ => false

mutual

def needsMessage : SearchKey → Bool
  | .and keys => needsAny keys
  | .or first second => needsMessage first || needsMessage second
  | .not key => needsMessage key
  | key => isContentKey key

def needsAny : List SearchKey → Bool
  | [] => false
  | key :: rest => needsMessage key || needsAny rest

end

mutual

def matchesMeta (context : SearchContext) : SearchKey → Option Bool
  | .and keys => matchesMetaAll context false keys
  | .or first second =>
    match matchesMeta context first, matchesMeta context second with
    | some true, _ => some true
    | _, some true => some true
    | some false, some false => some false
    | _, _ => none
  | .not key => (matchesMeta context key).map (!·)
  | key => if isContentKey key then none else some (matchesKey context key)

/-- The loop over the keys of an AND. -/
def matchesMetaAll (context : SearchContext) (undetermined : Bool) : List SearchKey → Option Bool
  | [] => if undetermined then none else some true
  | key :: rest =>
    match matchesMeta context key with
    | some false => some false
    | none => matchesMetaAll context true rest
    | some true => matchesMetaAll context undetermined rest

end

def SearchKey.isLeaf : SearchKey → Bool
  | .and _ | .or _ _ | .not _ => false
  | _ => true

theorem SearchKey.induction {P : SearchKey → Prop}
    (and : ∀ keys, (∀ key ∈ keys, P key) → P (.and keys))
    (or : ∀ first second, P first → P second → P (.or first second))
    (not : ∀ key, P key → P (.not key)) (leaf : ∀ key, key.isLeaf = true → P key)
    (key : SearchKey) : P key := by
  refine @SearchKey.rec P (fun keys => ∀ key ∈ keys, P key) and or not
    (leaf _ rfl) (fun _ _ => leaf _ rfl) (fun _ _ => leaf _ rfl) (leaf _ rfl) (leaf _ rfl)
    (leaf _ rfl) (fun _ _ => leaf _ rfl) (fun _ => leaf _ rfl) (fun _ => leaf _ rfl)
    (fun _ _ => leaf _ rfl) (fun _ _ => leaf _ rfl) (fun _ => leaf _ rfl) (fun _ => leaf _ rfl)
    (fun _ => leaf _ rfl) (fun _ => leaf _ rfl) (fun _ => leaf _ rfl) ?_ ?_ key
  · exact List.forall_mem_nil _
  · intro first rest here later key mem
    rcases List.mem_cons.mp mem with rfl | mem
    · exact here
    · exact later key mem

variable {context : SearchContext} {key : SearchKey} {keys : List SearchKey} {undetermined : Bool}

theorem matchesMeta_leaf (leaf : key.isLeaf = true) :
    matchesMeta context key =
      if isContentKey key then none else some (matchesKey context key) := by
  cases key <;> first | rfl | cases leaf

theorem needsMessage_leaf (leaf : key.isLeaf = true) : needsMessage key = isContentKey key := by
  cases key <;> first | rfl | cases leaf

theorem matchesKey_leaf (leaf : key.isLeaf = true) (plain : isContentKey key = false)
    (message : List UInt8) :
    matchesKey { context with message } key = matchesKey context key := by
  cases key <;> first | rfl | exact Bool.noConfusion leaf | exact Bool.noConfusion plain

theorem matchesAll_eq_true :
    matchesAll context keys = true ↔ ∀ key ∈ keys, matchesKey context key = true := by
  induction keys with
  | nil => exact ⟨fun _ _ mem => absurd mem List.not_mem_nil, fun _ => rfl⟩
  | cons first rest ih => rw [matchesAll, Bool.and_eq_true, ih, List.forall_mem_cons]

theorem needsAny_eq_false : needsAny keys = false ↔ ∀ key ∈ keys, needsMessage key = false := by
  induction keys with
  | nil => exact ⟨fun _ _ mem => absurd mem List.not_mem_nil, fun _ => rfl⟩
  | cons first rest ih => rw [needsAny, Bool.or_eq_false_iff, ih, List.forall_mem_cons]

theorem matchesMetaAll_eq_true :
    matchesMetaAll context undetermined keys = some true ↔
      undetermined = false ∧ ∀ key ∈ keys, matchesMeta context key = some true := by
  induction keys generalizing undetermined with
  | nil => cases undetermined <;> simp [matchesMetaAll]
  | cons first rest ih =>
    rw [matchesMetaAll, List.forall_mem_cons]
    cases here : matchesMeta context first with
    | none => simp [ih]
    | some answer =>
      cases answer with
      | false => simp
      | true => simp [ih]

theorem matchesMetaAll_eq_false :
    matchesMetaAll context undetermined keys = some false ↔
      ∃ key ∈ keys, matchesMeta context key = some false := by
  induction keys generalizing undetermined with
  | nil => cases undetermined <;> simp [matchesMetaAll]
  | cons first rest ih =>
    rw [matchesMetaAll, List.exists_mem_cons_iff]
    cases here : matchesMeta context first with
    | none => simp [ih]
    | some answer =>
      cases answer with
      | false => simp
      | true => simp [ih]

theorem matchesKey_of_matchesMeta (message : List UInt8) {answer : Bool}
    (decided : matchesMeta context key = some answer) :
    matchesKey { context with message } key = answer := by
  induction key using SearchKey.induction generalizing answer with
  | and keys ih =>
    rw [matchesMeta] at decided
    rw [matchesKey]
    cases answer with
    | true =>
      have all := (matchesMetaAll_eq_true.mp decided).2
      exact matchesAll_eq_true.mpr fun key mem => ih key mem (all key mem)
    | false =>
      obtain ⟨key, mem, fails⟩ := matchesMetaAll_eq_false.mp decided
      rw [← Bool.not_eq_true, matchesAll_eq_true]
      intro all
      have holds := all key mem
      rw [ih key mem fails] at holds
      cases holds
  | or first second ihFirst ihSecond =>
    rw [matchesMeta] at decided
    rw [matchesKey]
    cases one : matchesMeta context first with
    | none =>
      cases two : matchesMeta context second with
      | none => simp [one, two] at decided
      | some b =>
        cases b with
        | false => simp [one, two] at decided
        | true =>
          obtain rfl : true = answer := by simpa [one, two] using decided
          rw [ihSecond two, Bool.or_true]
    | some a =>
      cases a with
      | true =>
        obtain rfl : true = answer := by simpa [one] using decided
        rw [ihFirst one, Bool.true_or]
      | false =>
        cases two : matchesMeta context second with
        | none => simp [one, two] at decided
        | some b =>
          obtain rfl : b = answer := by cases b <;> simpa [one, two] using decided
          rw [ihFirst one, ihSecond two, Bool.false_or]
  | not key ih =>
    rw [matchesMeta] at decided
    obtain ⟨inner, here, rfl⟩ := Option.map_eq_some_iff.mp decided
    rw [matchesKey, ih here]
  | leaf key leaf =>
    rw [matchesMeta_leaf leaf] at decided
    split at decided
    · cases decided
    · rename_i plain
      rw [matchesKey_leaf leaf (Bool.eq_false_iff.mpr plain)]
      exact Option.some.inj decided

/-- Where no key is about the content, a decision is made without it. -/
theorem exists_matchesMeta (none : needsMessage key = false) :
    ∃ answer, matchesMeta context key = some answer := by
  induction key using SearchKey.induction with
  | and keys ih =>
    have decided := fun key mem => ih key mem (needsAny_eq_false.mp none key mem)
    rw [matchesMeta]
    by_cases fails : ∃ key ∈ keys, matchesMeta context key = some false
    · exact ⟨false, matchesMetaAll_eq_false.mpr fails⟩
    · refine ⟨true, matchesMetaAll_eq_true.mpr ⟨rfl, fun key mem => ?_⟩⟩
      obtain ⟨answer, here⟩ := decided key mem
      cases answer with
      | true => exact here
      | false => exact absurd ⟨key, mem, here⟩ fails
  | or first second ihFirst ihSecond =>
    rw [needsMessage, Bool.or_eq_false_iff] at none
    obtain ⟨a, one⟩ := ihFirst none.1
    obtain ⟨b, two⟩ := ihSecond none.2
    rw [matchesMeta, one, two]
    cases a <;> cases b <;> exact ⟨_, rfl⟩
  | not key ih =>
    obtain ⟨answer, here⟩ := ih none
    exact ⟨!answer, by rw [matchesMeta, here]; rfl⟩
  | leaf key leaf =>
    rw [needsMessage_leaf leaf] at none
    exact ⟨matchesKey context key, by rw [matchesMeta_leaf leaf, none]; rfl⟩

/-- Without the content, whatever stands in its place, a key is decided as with it, and always where
the content is not needed. -/
theorem matchesMeta_agrees (key : SearchKey) (context : SearchContext) (message : List UInt8) :
    (∀ answer, matchesMeta context key = some answer →
      matchesKey { context with message } key = answer) ∧
    (needsMessage key = false → ∃ answer, matchesMeta context key = some answer) :=
  ⟨fun _ => matchesKey_of_matchesMeta message, exists_matchesMeta⟩

/-- A key of both kinds: the message is too small, so the text need not be read. -/
theorem matchesMeta_agrees_mixed :
    let key := SearchKey.and [.not (.text [120]), .or (.larger 9) (.not .all)]
    let context : SearchContext :=
      { info := shownMessage 1 ∅, internalDate := 0, sequence := 1, maxSequence := 1, maxUid := 1
        message := [] }
    matchesKey { context with message := [120, 121] } key = false ∧
      ∃ answer, matchesMeta context (.larger 9) = some answer :=
  ⟨(matchesMeta_agrees _ _ [120, 121]).1 false (by decide +kernel),
    (matchesMeta_agrees (.larger 9) _ []).2 rfl⟩

end MailStack.Imap.Search
