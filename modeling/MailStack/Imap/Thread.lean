import MailStack.Lib.Forest
import MailStack.Lib.Text

/-! The answer to THREAD=REFERENCES: the parent of each message, the breaking of cycles, and the
text of the threads. -/

namespace MailStack.Imap

open Lib

/-- What threading looks at in a message. -/
structure ThreadMessage where
  number : Nat
  date : Int
  messageId : Option String
  references : List String
  inReplyTo : Option String

/-! ### Parents -/

def byId (messages : List ThreadMessage) (id : String) : Option Nat :=
  messages.findIdx? fun message => message.messageId = some id

/-- The last of the references that is there, else the message that is replied to. -/
def parentId (messages : List ThreadMessage) (message : ThreadMessage) : Option Nat :=
  message.references.reverse.findSome? (byId messages) <|>
    message.inReplyTo.bind (byId messages)

/-- The parents that the messages name. None is its own parent. -/
def namedParents (messages : List ThreadMessage) : List (Option Nat) :=
  messages.zipIdx.map fun (message, index) =>
    (parentId messages message).filter fun parent => parent ≠ index

def parentOf (parents : List (Option Nat)) (index : Nat) : Option Nat := parents[index]?.join

/-- The way up from a message comes to one that it has seen. No way is longer than `fuel` when that
is more than the number of messages. -/
def comesBack (parents : List (Option Nat)) : Nat → List Nat → Nat → Bool
  | 0, _, _ => true
  | fuel + 1, seen, current =>
    if current ∈ seen then true
    else
      match parentOf parents current with
      | some parent => comesBack parents fuel (current :: seen) parent
      | none => false

/-- A message from which the way up comes back is made a root. -/
def breakCycle (parents : List (Option Nat)) (start : Nat) : List (Option Nat) :=
  if comesBack parents (parents.length + 1) [] start then parents.set start none else parents

def breakCycles (parents : List (Option Nat)) : List (Option Nat) :=
  (List.range parents.length).foldl breakCycle parents

def threadParents (messages : List ThreadMessage) : List (Option Nat) :=
  breakCycles (namedParents messages)

/-! ### Order -/

/-- By date and then by number. -/
def notAfter (messages : List ThreadMessage) (a b : Nat) : Bool :=
  match messages[a]?, messages[b]? with
  | some a, some b => a.date < b.date || (a.date = b.date && a.number ≤ b.number)
  | _, _ => true

/-- The messages that have the parent, or have none, in their order. -/
def siblings (messages : List ThreadMessage) (parent : Option Nat) : List Nat :=
  ((List.range messages.length).filter fun index =>
    parentOf (threadParents messages) index = parent).mergeSort (notAfter messages)

def roots (messages : List ThreadMessage) : List Nat := siblings messages none

def children (messages : List ThreadMessage) (index : Nat) : List Nat :=
  siblings messages (some index)

/-! ### The text -/

def maxReferenceDepth : Nat := 512

def numberText (messages : List ThreadMessage) (index : Nat) : List Char :=
  (toString ((messages[index]?.map (·.number)).getD 0)).toList

/-- The text of a message and those below it. `room` is by how much the stack may still grow: at 0
it is longer than `maxReferenceDepth`. -/
def renderReferenceNode (messages : List ThreadMessage) : Nat → List Nat → Nat → List Char
  | 0, _, index => '(' :: numberText messages index ++ [')']
  | room + 1, stack, index =>
    if index ∈ stack then '(' :: numberText messages index ++ [')']
    else
      '(' :: numberText messages index ++
        (children messages index).flatMap (fun child =>
          ' ' ::
            if (children messages child).isEmpty then numberText messages child
            else renderReferenceNode messages room (index :: stack) child) ++ [')']

def renderReferences (messages : List ThreadMessage) : String :=
  String.ofList ((roots messages).flatMap
    (renderReferenceNode messages (maxReferenceDepth + 1) []))

end MailStack.Imap

/-! The threads as a client reads them. The parents have no cycles, the text has each message that
is not too deep once, and reading it back gives the parents, where no leaf is written next to a
sibling. -/

namespace MailStack.Imap

open Lib

/-! ### No cycles -/

section Parents

variable {parents : List (Option Nat)} {start k index : Nat}

theorem parentOf_set (start index : Nat) :
    parentOf (parents.set start none) index =
      if start = index then none else parentOf parents index := by
  unfold parentOf
  rw [List.getElem?_set]
  split_ifs <;> rfl

theorem ancestor_set (h : ancestor (parentOf parents) k index = none) :
    ancestor (parentOf (parents.set start none)) k index = none := by
  induction k generalizing index with
  | zero => cases h
  | succ k ih =>
    rw [ancestor_succ] at h ⊢
    rw [parentOf_set]
    split_ifs
    · rfl
    · cases up : parentOf parents index with
      | none => rfl
      | some parent =>
        rw [up] at h
        exact ih h

theorem ends_of_not_comesBack {fuel current : Nat} {seen : List Nat}
    (h : comesBack parents fuel seen current = false) :
    ∃ k, ancestor (parentOf parents) k current = none := by
  induction fuel generalizing seen current with
  | zero => cases h
  | succ fuel ih =>
    rw [comesBack] at h
    split at h
    · cases h
    split at h
    · rename_i parent up
      obtain ⟨k, ends⟩ := ih h
      exact ⟨k + 1, by rw [ancestor_succ, up, Option.bind_some, ends]⟩
    · rename_i up
      exact ⟨1, by rw [ancestor_succ, up, Option.bind_none]⟩

theorem breakCycle_ends (start : Nat) :
    ∃ k, ancestor (parentOf (breakCycle parents start)) k start = none := by
  unfold breakCycle
  split
  · exact ⟨1, by rw [ancestor_succ, parentOf_set, if_pos rfl, Option.bind_none]⟩
  · rename_i goes
    exact ends_of_not_comesBack (by simpa using goes)

theorem breakCycle_keeps (h : ancestor (parentOf parents) k index = none) :
    ancestor (parentOf (breakCycle parents start)) k index = none := by
  unfold breakCycle
  split
  · exact ancestor_set h
  · exact h

/-- Every line of ancestors ends once all messages were looked at. -/
theorem breakCycles_ends (index : Nat) :
    ∃ k, ancestor (parentOf (breakCycles parents)) k index = none := by
  have keep : ∀ (starts : List Nat) (table : List (Option Nat)) {k i : Nat},
      ancestor (parentOf table) k i = none →
      ancestor (parentOf (starts.foldl breakCycle table)) k i = none := by
    intro starts
    induction starts with
    | nil => exact fun _ _ _ h => h
    | cons start rest ih => exact fun table _ _ h => ih _ (breakCycle_keeps h)
  have reached : ∀ (starts : List Nat) (table : List (Option Nat)), index ∈ starts →
      ∃ k, ancestor (parentOf (starts.foldl breakCycle table)) k index = none := by
    intro starts
    induction starts with
    | nil => exact fun _ mem => absurd mem List.not_mem_nil
    | cons start rest ih =>
      intro table mem
      rcases List.mem_cons.mp mem with rfl | mem
      · obtain ⟨k, ends⟩ := @breakCycle_ends table index
        exact ⟨k, keep rest _ ends⟩
      · exact ih _ mem
  by_cases inside : index < parents.length
  · exact reached _ parents (List.mem_range.mpr inside)
  · refine ⟨1, keep _ parents ?_⟩
    have out : parents[index]? = none := List.getElem?_eq_none (Nat.le_of_not_lt inside)
    rw [ancestor_succ, parentOf, out]
    rfl

end Parents

def threadParent (messages : List ThreadMessage) : Nat → Option Nat :=
  parentOf (threadParents messages)

theorem threadParent_acyclic (messages : List ThreadMessage) : Acyclic (threadParent messages) :=
  acyclic_of_ends breakCycles_ends

/-! ### Children and roots -/

section Family

variable (messages : List ThreadMessage)

theorem parentOf_breakCycles {parents : List (Option Nat)} {index parent : Nat}
    (h : parentOf (breakCycles parents) index = some parent) :
    parentOf parents index = some parent := by
  have back : ∀ (starts : List Nat) (table : List (Option Nat)),
      parentOf (starts.foldl breakCycle table) index = some parent →
      parentOf table index = some parent := by
    intro starts
    induction starts with
    | nil => exact fun _ h => h
    | cons start rest ih =>
      intro table h
      have here := ih _ h
      unfold breakCycle at here
      split at here
      · rw [parentOf_set] at here
        split_ifs at here
        exact here
      · exact here
  exact back _ parents h

theorem byId_lt {messages : List ThreadMessage} {id : String} {index : Nat}
    (h : byId messages id = some index) : index < messages.length :=
  (List.findIdx?_eq_some_iff_getElem.mp h).1

theorem threadParent_lt {messages : List ThreadMessage} {index parent : Nat}
    (h : threadParent messages index = some parent) :
    index < messages.length ∧ parent < messages.length := by
  have named : parentOf (namedParents messages) index = some parent := parentOf_breakCycles h
  rw [parentOf, namedParents, List.getElem?_map, List.getElem?_zipIdx] at named
  cases found : messages[index]? with
  | none =>
    rw [found] at named
    cases named
  | some message =>
    rw [found] at named
    have filtered : (parentId messages message).filter (fun parent => parent ≠ 0 + index) =
        some parent := named
    obtain ⟨named, -⟩ := Option.filter_eq_some_iff.mp filtered
    refine ⟨(List.getElem?_eq_some_iff.mp found).1, ?_⟩
    unfold parentId at named
    cases referred : message.references.reverse.findSome? (byId messages) with
    | some found =>
      rw [referred] at named
      cases named
      obtain ⟨id, -, here⟩ := List.exists_of_findSome?_eq_some referred
      exact byId_lt here
    | none =>
      rw [referred] at named
      obtain ⟨id, -, here⟩ := Option.bind_eq_some_iff.mp named
      exact byId_lt here

theorem mem_siblings {parent : Option Nat} {index : Nat} :
    index ∈ siblings messages parent ↔
      index < messages.length ∧ threadParent messages index = parent := by
  simp only [siblings, List.mem_mergeSort, List.mem_filter, List.mem_range, decide_eq_true_eq]
  rfl

theorem mem_children (parent index : Nat) :
    index ∈ children messages parent ↔ threadParent messages index = some parent :=
  (mem_siblings messages).trans ⟨fun h => h.2, fun h => ⟨(threadParent_lt h).1, h⟩⟩

theorem mem_roots (index : Nat) :
    index ∈ roots messages ↔ threadParent messages index = none ∧ index < messages.length :=
  (mem_siblings messages).trans And.comm

theorem siblings_nodup (parent : Option Nat) : (siblings messages parent).Nodup :=
  (List.mergeSort_perm _ _).nodup_iff.mpr (List.nodup_range.filter _)

/-- The messages of the threads, each before those below it. -/
def threaded : List Nat :=
  (roots messages).flatMap (below (children messages) (maxReferenceDepth + 1))

/-- A message has so many ancestors at most that it is in the answer. -/
def WithinDepth (index : Nat) : Prop :=
  ancestor (threadParent messages) (maxReferenceDepth + 2) index = none

instance : DecidablePred (WithinDepth messages) :=
  fun index => inferInstanceAs (Decidable (ancestor _ _ index = none))

theorem threaded_perm :
    (threaded messages).Perm
      ((List.range messages.length).filter fun index => WithinDepth messages index) := by
  have once : (threaded messages).Nodup :=
    below_roots_nodup (mem_children messages) (threadParent_acyclic messages)
      (fun parent => siblings_nodup messages (some parent))
      (fun root mem => ((mem_roots messages root).mp mem).1) (siblings_nodup messages none) _
  refine (List.perm_ext_iff_of_nodup once (List.nodup_range.filter _)).mpr fun index => ?_
  have closed : ∀ {a b}, threadParent messages a = some b →
      (a < messages.length ↔ b < messages.length) := by
    intro a b up
    have := threadParent_lt up
    omega
  rw [threaded, mem_below_roots (mem_children messages) closed (mem_roots messages)]
  simp only [List.mem_filter, List.mem_range, decide_eq_true_eq]
  rfl

end Family

/-! ### The text read back -/

inductive ThreadToken
  | opening
  | closing
  | number (n : Nat)

def ThreadToken.value : ThreadToken → Option Nat
  | .number n => some n
  | _ => none

def digitsToken (digits : List Char) : List ThreadToken :=
  if digits.isEmpty then [] else [.number (Nat.ofDigitChars 10 digits 0)]

/-- The parentheses and numbers of a text, after the digits of a number that has begun. -/
@[grind =] def lexThreads : List Char → List Char → Option (List ThreadToken)
  | digits, [] => some (digitsToken digits)
  | digits, c :: rest =>
    if c.isDigit then lexThreads (digits ++ [c]) rest
    else if c = '(' then
      (lexThreads [] rest).map fun tokens => digitsToken digits ++ .opening :: tokens
    else if c = ')' then
      (lexThreads [] rest).map fun tokens => digitsToken digits ++ .closing :: tokens
    else if c = ' ' then (lexThreads [] rest).map fun tokens => digitsToken digits ++ tokens
    else none

/-- Where a reader is in a group: at its beginning, after a number, or after a group. -/
inductive ThreadPosition
  | start
  | number
  | group
deriving DecidableEq

/-- `current` is the message that what comes next is a child of, `outer` what it was before each of
the groups that are open, and `read` the numbers so far, each with its parent's. -/
structure ThreadReading where
  current : Option Nat
  outer : List (Option Nat)
  position : ThreadPosition
  read : List (Nat × Option Nat)

namespace ThreadReading

def start : ThreadReading := { current := none, outer := [], position := .group, read := [] }

/-- Numbers in a row are each the child of the one before. A group is below the number that it
follows, and no number follows a group. -/
def token (r : ThreadReading) : ThreadToken → Option ThreadReading
  | .opening => some { r with outer := r.current :: r.outer, position := .start }
  | .number n =>
    if r.position = .group then none
    else some { r with current := some n, position := .number, read := r.read ++ [(n, r.current)] }
  | .closing =>
    match r.outer with
    | [] => none
    | outer :: rest =>
      if r.position = .start then none
      else some { r with current := outer, outer := rest, position := .group }

end ThreadReading

/-- The numbers of a text of threads, each with the number of its parent. -/
def readThreads (text : String) : Option (List (Nat × Option Nat)) :=
  (lexThreads [] text.toList).bind fun tokens =>
    (tokens.foldlM ThreadReading.token ThreadReading.start).bind fun r =>
      if r.outer.isEmpty then some r.read else none

theorem lexThreads_digits {digits : List Char} (h : ∀ c ∈ digits, c.isDigit = true)
    (before rest : List Char) :
    lexThreads before (digits ++ rest) = lexThreads (before ++ digits) rest := by
  induction digits generalizing before with
  | nil => simp
  | cons c cs ih =>
    rw [List.cons_append, lexThreads, if_pos (h c List.mem_cons_self),
      ih fun d mem => h d (List.mem_cons_of_mem _ mem), List.append_assoc]
    rfl

theorem lexThreads_number (n : Nat) {c : Char} (other : c.isDigit = false) (rest : List Char) :
    lexThreads [] ((toString n).toList ++ c :: rest) =
      (lexThreads [] (c :: rest)).map (.number n :: ·) := by
  have token : digitsToken (toString n).toList = [.number n] := by
    rw [digitsToken, if_neg (by simp), Nat.toString_eq_repr, Nat.toList_repr,
      Nat.ofDigitChars_ten_toDigits]
  rw [lexThreads_digits fun _ => isDigit_of_mem_toString, List.nil_append, lexThreads, lexThreads,
    token]
  simp only [other, Bool.false_eq_true, if_false]
  split_ifs
  · rw [Option.map_map]
    rfl
  · rw [Option.map_map]
    rfl
  · rw [Option.map_map]
    rfl
  · rfl

/-! ### The text of a message and those below it -/

section Rendering

variable (messages : List ThreadMessage)

def numberOf (index : Nat) : Nat := (messages[index]?.map (·.number)).getD 0

/-- The parentheses and numbers that are written for a message and those below it. -/
@[grind =] def nodeTokens : Nat → Nat → List ThreadToken
  | 0, index => [.opening, .number (numberOf messages index), .closing]
  | room + 1, index =>
    .opening :: .number (numberOf messages index) ::
      (children messages index).flatMap (fun child =>
        if (children messages child).isEmpty then [.number (numberOf messages child)]
        else nodeTokens room child) ++ [.closing]

theorem lexThreads_opening (rest : List Char) :
    lexThreads [] ('(' :: rest) = (lexThreads [] rest).map (.opening :: ·) := rfl

theorem lexThreads_closing (rest : List Char) :
    lexThreads [] (')' :: rest) = (lexThreads [] rest).map (.closing :: ·) := rfl

theorem lexThreads_blank (rest : List Char) :
    lexThreads [] (' ' :: rest) = lexThreads [] rest := by
  simp [lexThreads, digitsToken]

theorem lexThreads_single (index : Nat) (rest : List Char) :
    lexThreads [] ('(' :: numberText messages index ++ [')'] ++ rest) =
      (lexThreads [] rest).map
        ([.opening, .number (numberOf messages index), .closing] ++ ·) := by
  simp only [List.cons_append, List.append_assoc, List.nil_append]
  rw [lexThreads_opening, numberText, lexThreads_number _ rfl, lexThreads_closing, Option.map_map,
    Option.map_map]
  rfl

theorem begins_without_digit (text : Nat → List Char) (cs : List Nat) (rest : List Char) :
    ∃ c tail, cs.flatMap (fun child => ' ' :: text child) ++ ')' :: rest = c :: tail ∧
      c.isDigit = false := by
  cases cs with
  | nil => exact ⟨')', rest, rfl, rfl⟩
  | cons next others =>
    exact ⟨' ', _, by rw [List.flatMap_cons, List.cons_append, List.cons_append], rfl⟩

/-- The messages on the stack are above the one that is written, so that it is none of them. -/
theorem lexThreads_node {room index : Nat} {stack : List Nat}
    (above : ∀ s ∈ stack, ∃ k, 0 < k ∧ ancestor (threadParent messages) k index = some s)
    (rest : List Char) :
    lexThreads [] (renderReferenceNode messages room stack index ++ rest) =
      (lexThreads [] rest).map (nodeTokens messages room index ++ ·) := by
  induction room generalizing index stack rest with
  | zero => exact lexThreads_single messages index rest
  | succ room ih =>
    have fresh : index ∉ stack := by
      intro mem
      obtain ⟨k, positive, up⟩ := above index mem
      exact threadParent_acyclic messages index k positive up
    -- one child after another, and the parenthesis that ends them
    have family : ∀ cs : List Nat, (∀ c ∈ cs, c ∈ children messages index) →
        lexThreads [] (cs.flatMap (fun child => ' ' ::
            if (children messages child).isEmpty then numberText messages child
            else renderReferenceNode messages room (index :: stack) child) ++ ')' :: rest) =
          (lexThreads [] rest).map (cs.flatMap (fun child =>
            if (children messages child).isEmpty then [.number (numberOf messages child)]
            else nodeTokens messages room child) ++ .closing :: ·) := by
      intro cs
      induction cs with
      | nil => exact fun _ => lexThreads_closing rest
      | cons child more ihMore =>
        intro inside
        have later := ihMore fun c mem => inside c (List.mem_cons_of_mem _ mem)
        have up := (mem_children messages index child).mp (inside child List.mem_cons_self)
        rw [List.flatMap_cons, List.flatMap_cons, List.append_assoc, List.cons_append,
          lexThreads_blank]
        by_cases leaf : (children messages child).isEmpty
        · obtain ⟨c, tail, eq, other⟩ := begins_without_digit (fun child =>
            if (children messages child).isEmpty then numberText messages child
            else renderReferenceNode messages room (index :: stack) child) more rest
          rw [if_pos leaf, if_pos leaf, eq, numberText, lexThreads_number _ other, ← eq, later,
            Option.map_map]
          rfl
        · have above' : ∀ s ∈ index :: stack,
              ∃ k, 0 < k ∧ ancestor (threadParent messages) k child = some s := by
            intro s mem
            rcases List.mem_cons.mp mem with rfl | mem
            · exact ⟨1, Nat.one_pos, by rw [ancestor_succ, up, Option.bind_some, ancestor_zero]⟩
            · obtain ⟨k, -, reach⟩ := above s mem
              exact ⟨k + 1, Nat.succ_pos k, by rw [ancestor_succ, up, Option.bind_some, reach]⟩
          rw [if_neg leaf, if_neg leaf, ih above', later, Option.map_map]
          simp only [Function.comp_def, List.append_assoc]
    rw [renderReferenceNode, if_neg fresh, nodeTokens]
    simp only [List.cons_append, List.append_assoc, List.nil_append]
    obtain ⟨c, tail, eq, other⟩ := begins_without_digit (fun child =>
      if (children messages child).isEmpty then numberText messages child
      else renderReferenceNode messages room (index :: stack) child) (children messages index) rest
    rw [lexThreads_opening, eq, numberText, lexThreads_number _ other, ← eq,
      family _ fun _ mem => mem, Option.map_map, Option.map_map]
    rfl

theorem lexThreads_references :
    lexThreads [] (renderReferences messages).toList =
      some ((roots messages).flatMap (nodeTokens messages (maxReferenceDepth + 1))) := by
  rw [renderReferences, String.toList_ofList]
  induction roots messages with
  | nil => rfl
  | cons root more ih =>
    rw [List.flatMap_cons, List.flatMap_cons, lexThreads_node messages (by simp), ih]
    rfl

theorem nodeTokens_values (room index : Nat) :
    (nodeTokens messages room index).filterMap ThreadToken.value =
      (below (children messages) room index).map (numberOf messages) := by
  induction room generalizing index with
  | zero => rfl
  | succ room ih =>
    have each : ∀ child, ((if (children messages child).isEmpty then
          [.number (numberOf messages child)] else nodeTokens messages room child)).filterMap
        ThreadToken.value = (below (children messages) room child).map (numberOf messages) := by
      intro child
      split_ifs with leaf
      · rw [below_leaf (List.isEmpty_iff.mp leaf)]
        rfl
      · exact ih child
    simp only [nodeTokens, below, List.cons_append, List.filterMap_cons, ThreadToken.value,
      List.filterMap_append, List.filterMap_flatMap, each, List.filterMap_nil, List.append_nil,
      List.map_cons, List.map_flatMap]

/-! ### Reading it back -/

def numbered (index : Nat) : Nat × Option Nat :=
  (numberOf messages index, (threadParent messages index).map (numberOf messages))

/-- A child that has no children is written as a number. That is read as what it is only if the
message has no other child. -/
def LeafAlone (index : Nat) : Prop :=
  ∀ child ∈ children messages index, children messages child = [] →
    children messages index = [child]

theorem read_groups {cs : List Nat} {n : Nat} {groups : Nat → List ThreadToken}
    {pairs : Nat → List (Nat × Option Nat)}
    (each : ∀ c ∈ cs, ∀ r : ThreadReading, r.current = some n →
      (groups c).foldlM ThreadReading.token r =
        some { r with position := .group, read := r.read ++ pairs c })
    {r : ThreadReading} (current : r.current = some n) (inside : r.position ≠ .start) :
    ∃ position, position ≠ .start ∧ (cs.flatMap groups).foldlM ThreadReading.token r =
      some { r with position, read := r.read ++ cs.flatMap pairs } := by
  induction cs generalizing r with
  | nil => exact ⟨r.position, inside, by simp⟩
  | cons c more ih =>
    obtain ⟨position, ok, run⟩ := ih (fun c' mem => each c' (List.mem_cons_of_mem _ mem))
      (r := { r with position := .group, read := r.read ++ pairs c }) current nofun
    refine ⟨position, ok, ?_⟩
    rw [List.flatMap_cons, List.foldlM_append, each c List.mem_cons_self r current]
    simp only [Option.bind_eq_bind, Option.bind_some, run, List.flatMap_cons, List.append_assoc]

theorem read_node {room index : Nat} {r : ThreadReading}
    (alone : ∀ index, ancestor (threadParent messages) (maxReferenceDepth + 1) index = none →
      LeafAlone messages index)
    (depth : ancestor (threadParent messages) (maxReferenceDepth + 2 - room) index = none)
    (current : r.current = (threadParent messages index).map (numberOf messages)) :
    (nodeTokens messages room index).foldlM ThreadReading.token r =
      some
        { r with
          position := .group
          read := r.read ++ (below (children messages) room index).map (numbered messages) } := by
  induction room generalizing index r with
  | zero => simp [nodeTokens, ThreadReading.token, below, numbered, current]
  | succ room ih =>
    have shallow := alone index (ancestor_none_of_le (by omega) depth)
    -- after the parenthesis and the number
    obtain ⟨r', hr'⟩ : ∃ r' : ThreadReading, r' =
        { current := some (numberOf messages index)
          outer := r.current :: r.outer
          position := .number
          read := r.read ++ [numbered messages index] } := ⟨_, rfl⟩
    have enter : ∀ tokens, (.opening :: .number (numberOf messages index) :: tokens).foldlM
        ThreadReading.token r = tokens.foldlM ThreadReading.token r' := by
      intro tokens
      simp [hr', ThreadReading.token, numbered, current]
    -- and before the parenthesis that closes the group
    suffices h : ∃ current position, position ≠ .start ∧
        ((children messages index).flatMap (fun child =>
          if (children messages child).isEmpty then [.number (numberOf messages child)]
          else nodeTokens messages room child)).foldlM ThreadReading.token r' =
            some
              { r' with
                current
                position
                read := r'.read ++ (children messages index).flatMap fun child =>
                  (below (children messages) room child).map (numbered messages) } by
      obtain ⟨last, position, inside, run⟩ := h
      rw [nodeTokens, List.cons_append, List.cons_append, enter, List.foldlM_append, run, hr']
      simp [ThreadReading.token, inside, below, List.map_flatMap]
    have parent : ∀ child ∈ children messages index,
        threadParent messages child = some index :=
      fun child mem => (mem_children messages index child).mp mem
    by_cases leaves : ∃ child ∈ children messages index, children messages child = []
    · obtain ⟨child, mem, leaf⟩ := leaves
      refine ⟨some (numberOf messages child), .number, by decide, ?_⟩
      rw [shallow child mem leaf]
      simp [leaf, ThreadReading.token, below_leaf leaf, numbered, parent child mem, hr']
    · have each : ∀ child ∈ children messages index, ∀ r'' : ThreadReading,
          r''.current = some (numberOf messages index) →
          (if (children messages child).isEmpty then [.number (numberOf messages child)]
            else nodeTokens messages room child).foldlM ThreadReading.token r'' =
              some
                { r'' with
                  position := .group
                  read := r''.read ++
                    (below (children messages) room child).map (numbered messages) } := by
        intro child mem r'' current'
        have notLeaf : ¬(children messages child).isEmpty = true :=
          fun empty => leaves ⟨child, mem, List.isEmpty_iff.mp empty⟩
        rw [if_neg notLeaf]
        refine ih ?_ (by rw [current', parent child mem, Option.map_some])
        have positive : maxReferenceDepth + 2 - (room + 1) ≠ 0 := by
          intro zero
          rw [zero] at depth
          cases depth
        have step : maxReferenceDepth + 2 - room = maxReferenceDepth + 2 - (room + 1) +
            1 := by omega
        rw [step, ancestor_succ, parent child mem, Option.bind_some, depth]
      obtain ⟨position, inside, run⟩ := read_groups each (r := r') (by rw [hr']) (by simp [hr'])
      exact ⟨r'.current, position, inside, run⟩

/-- The whole answer is read back. -/
theorem readThreads_references
    (alone : ∀ index, ancestor (threadParent messages) (maxReferenceDepth + 1) index = none →
      LeafAlone messages index) :
    readThreads (renderReferences messages) =
      some ((threaded messages).map (numbered messages)) := by
  have groups : ∀ rs : List Nat, (∀ root ∈ rs, threadParent messages root = none) →
      ∀ r : ThreadReading, r.current = none → r.position = .group →
      (rs.flatMap (nodeTokens messages (maxReferenceDepth + 1))).foldlM ThreadReading.token r =
        some
          { r with
            read := r.read ++ (rs.flatMap
              (below (children messages) (maxReferenceDepth + 1))).map (numbered messages) } := by
    intro rs
    induction rs with
    | nil =>
      rintro - r - -
      simp
    | cons root more ih =>
      intro top r current position
      have rootless := top root List.mem_cons_self
      have first := @read_node messages (maxReferenceDepth + 1) root r alone
        (by rw [show maxReferenceDepth + 2 - (maxReferenceDepth + 1) = 1 from rfl, ancestor_succ,
          rootless, Option.bind_none])
        (by rw [current, rootless, Option.map_none])
      rw [List.flatMap_cons, List.foldlM_append, first]
      simp only [Option.bind_eq_bind, Option.bind_some]
      rw [ih (fun root' mem => top root' (List.mem_cons_of_mem _ mem))
        { r with
          position := .group
          read := r.read ++ (below (children messages) (maxReferenceDepth + 1) root).map
            (numbered messages) } current rfl]
      simp [List.flatMap_cons, position]
  have read := groups (roots messages) (fun root mem => ((mem_roots messages root).mp mem).1)
    ThreadReading.start rfl rfl
  rw [readThreads, lexThreads_references, Option.bind_some, read, Option.bind_some, threaded]
  rfl

end Rendering

/-! ### The answer -/

theorem references_values (messages : List ThreadMessage) :
    ∃ tokens, lexThreads [] (renderReferences messages).toList = some tokens ∧
      (tokens.filterMap ThreadToken.value).Perm
        (((List.range messages.length).filter fun index => WithinDepth messages index).map
          (numberOf messages)) := by
  refine ⟨_, lexThreads_references messages, ?_⟩
  simp only [List.filterMap_flatMap, nodeTokens_values, ← List.map_flatMap]
  exact (threaded_perm messages).map _

section Replies

/-- Messages that each reply to the one before. -/
def replies (n : Nat) : List ThreadMessage :=
  (List.range n).map fun i =>
    { number := i + 1
      date := i
      messageId := some (toString i)
      references := if i = 0 then [] else [toString (i - 1)]
      inReplyTo := none }

variable {n : Nat}

theorem byId_replies {i : Nat} (inside : i < n) : byId (replies n) (toString i) = some i := by
  rw [byId, List.findIdx?_eq_some_iff_getElem]
  refine ⟨by simpa [replies] using inside, by simp [replies], fun j less => ?_⟩
  have other : toString j ≠ toString i := by
    intro same
    have parsed := parseUnsigned_toString (Nat.le_of_lt less)
    rw [same, parseUnsigned_toString (Nat.le_refl i)] at parsed
    cases parsed
    omega
  simpa [replies] using other

theorem parentOf_replies (i : Nat) :
    parentOf (namedParents (replies n)) i = if 0 < i ∧ i < n then some (i - 1) else none := by
  rw [parentOf, namedParents, List.getElem?_map, List.getElem?_zipIdx]
  by_cases inside : i < n
  · have found : (replies n)[i]? = some
        { number := i + 1
          date := i
          messageId := some (toString i)
          references := if i = 0 then [] else [toString (i - 1)]
          inReplyTo := none } := by
      simp [replies, inside]
    rw [found]
    by_cases first : i = 0
    · simp [first, parentId]
    · have before : byId (replies n) (toString (i - 1)) = some (i - 1) := byId_replies (by omega)
      have earlier : i - 1 ≠ i := by omega
      have next : 0 < i ∧ i < n := ⟨Nat.pos_of_ne_zero first, inside⟩
      rw [if_pos next]
      simpa [parentId, first, earlier] using before
  · have out : (replies n)[i]? = none := by
      simpa [replies] using inside
    rw [out, if_neg (by omega)]
    rfl

theorem comesBack_replies {fuel i : Nat} {seen : List Nat} (enough : i < fuel)
    (later : ∀ s ∈ seen, i < s) :
    comesBack (namedParents (replies n)) fuel seen i = false := by
  induction fuel generalizing i seen with
  | zero => omega
  | succ fuel ih =>
    have new : i ∉ seen := fun mem => Nat.lt_irrefl i (later i mem)
    rw [comesBack, if_neg new, parentOf_replies]
    split_ifs with next
    · refine ih (by omega) fun s mem => ?_
      rcases List.mem_cons.mp mem with rfl | mem
      · omega
      · have := later s mem
        omega
    · rfl

theorem threadParent_replies (i : Nat) :
    threadParent (replies n) i = if 0 < i ∧ i < n then some (i - 1) else none := by
  have length : (namedParents (replies n)).length = n := by simp [namedParents, replies]
  have same : ∀ starts : List Nat, (∀ s ∈ starts, s < n) →
      starts.foldl breakCycle (namedParents (replies n)) = namedParents (replies n) := by
    intro starts
    induction starts with
    | nil => exact fun _ => rfl
    | cons start rest ih =>
      intro inside
      have := inside start List.mem_cons_self
      rw [List.foldl_cons, breakCycle, comesBack_replies (by omega) (by simp)]
      exact ih fun s mem => inside s (List.mem_cons_of_mem _ mem)
  rw [threadParent, threadParents, breakCycles, length, same _ fun s mem => List.mem_range.mp mem,
    parentOf_replies]

theorem ancestor_replies {k i : Nat} (le : k ≤ i) (inside : i < n) :
    ancestor (threadParent (replies n)) k i = some (i - k) := by
  induction k generalizing i with
  | zero => rfl
  | succ k ih =>
    rw [ancestor_succ, threadParent_replies, if_pos (by omega), Option.bind_some,
      ih (by omega) (by omega)]
    congr 1
    omega

theorem leafAlone_replies (index : Nat) : LeafAlone (replies n) index := by
  intro child mem _
  have only : ∀ c ∈ children (replies n) index, c = index + 1 := by
    intro c inside
    have up := (mem_children (replies n) index c).mp inside
    rw [threadParent_replies] at up
    split_ifs at up with cond
    cases up
    omega
  have once := siblings_nodup (replies n) (some index)
  rw [← children] at once
  obtain ⟨count, all⟩ : ∃ count, children (replies n) index = List.replicate count (index + 1) :=
    ⟨_, List.eq_replicate_of_mem only⟩
  rw [all] at once mem ⊢
  have some : count ≠ 0 := (List.mem_replicate.mp mem).1
  have most : count ≤ 1 := List.nodup_replicate.mp once
  obtain rfl : count = 1 := by omega
  rw [(List.mem_replicate.mp mem).2]
  rfl

end Replies

end MailStack.Imap
