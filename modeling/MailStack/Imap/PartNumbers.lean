import MailStack.Imap.Sections

/-! The numbers of the parts of a message: those that the structure of the message gives to its
parts, and the parts that are fetched under them. -/

namespace MailStack.Imap

open Lib Mime

/-- The parts of a message of the structure: a message that is no multipart is its only part. -/
def ownParts : Structure → List Structure
  | .multipart parts _ => parts
  | other => [other]

def partsBelow : Structure → List Structure
  | .multipart parts _ => parts
  | .message _ _ embedded _ => ownParts embedded
  | .leaf _ _ => []

def partNumbered (parts : List Structure) (index : Nat) : Option Structure :=
  if index = 0 then none else parts[index - 1]?

/-- The part that a path names among the parts. -/
@[grind =] def named (parts : List Structure) : List Nat → Option Structure
  | [] => none
  | [index] => partNumbered parts index
  | index :: rest => (partNumbered parts index).bind fun part => named (partsBelow part) rest

/-- What is fetched agrees with the parts: under the path of a leaf its body, which has the size
that is written for it, and nothing under a path that names no part. -/
structure Agrees (parts : List Structure) (fetch : List Nat → Option (List UInt8)) : Prop where
  leaf : ∀ path fields lines, named parts path = some (.leaf fields lines) →
    ∃ body, fetch path = some body ∧ body.length = fields.size
  absent : ∀ path, path ≠ [] → named parts path = none → fetch path = none

/-- The number paths of the structure of a message lead to the parts that they name. -/
def Addressed (message : List UInt8) : Prop :=
  Agrees (ownParts (structureAt maxDepth message)) fun path => extractSection message (.part path)

/-- Neither a multipart with parts nor an embedded message is deeper than so many levels. -/
@[grind =] def NestedAtMost : Nat → List UInt8 → Prop
  | 0, message => usableParts message = none ∧ ¬(leafContent message).isMessage
  | levels + 1, message =>
    match usableParts message with
    | some parts => ∀ part ∈ parts, NestedAtMost levels part
    | none => (leafContent message).isMessage → NestedAtMost levels (splitHeadersBody message).2

/-- In so many levels there is no embedded message and no multipart with more parts than are
shown. -/
@[grind =] def Plain : Nat → List UInt8 → Prop
  | 0, _ => True
  | levels + 1, message =>
    match usableParts message with
    | some parts => parts.length ≤ maxParts ∧ ∀ part ∈ parts, Plain levels part
    | none => ¬(leafContent message).isMessage

instance NestedAtMost.decide : (levels : Nat) → (message : List UInt8) →
    Decidable (NestedAtMost levels message)
  | 0, _ => inferInstanceAs (Decidable (_ ∧ _))
  | levels + 1, message =>
    match usable : usableParts message with
    | some parts =>
      have : DecidablePred (NestedAtMost levels) := decide levels
      decidable_of_iff (∀ part ∈ parts, NestedAtMost levels part) (by simp [NestedAtMost, usable])
    | none =>
      have := decide levels (splitHeadersBody message).2
      decidable_of_iff
        ((leafContent message).isMessage → NestedAtMost levels (splitHeadersBody message).2)
        (by simp [NestedAtMost, usable])

instance Plain.decide : (levels : Nat) → (message : List UInt8) → Decidable (Plain levels message)
  | 0, _ => .isTrue trivial
  | levels + 1, message =>
    match usable : usableParts message with
    | some parts =>
      have : DecidablePred (Plain levels) := decide levels
      decidable_of_iff (parts.length ≤ maxParts ∧ ∀ part ∈ parts, Plain levels part)
        (by simp [Plain, usable])
    | none => decidable_of_iff (¬(leafContent message).isMessage) (by simp [Plain, usable])

def reached (part : Structure) (rest : List Nat) : Option Structure :=
  if rest = [] then some part else named (partsBelow part) rest

theorem named_cons (parts : List Structure) (index : Nat) (rest : List Nat) :
    named parts (index :: rest) =
      (partNumbered parts index).bind fun part => reached part rest := by
  cases rest with
  | nil =>
    show partNumbered parts index = _
    simp [reached]
  | cons next rest => simp [named, reached]

@[simp] theorem partNumbered_nil (index : Nat) : partNumbered [] index = none := by
  simp [partNumbered]

@[simp] theorem partNumbered_succ (parts : List Structure) (index : Nat) :
    partNumbered parts (index + 1) = parts[index]? := by
  simp [partNumbered]

@[simp] theorem partNumbered_zero (parts : List Structure) : partNumbered parts 0 = none := by
  simp [partNumbered]

@[simp] theorem named_nil (path : List Nat) : named [] path = none := by
  cases path with
  | nil => rfl
  | cons index rest => simp [named_cons]

variable {rest : List Nat} {depth index : Nat}

theorem reached_of_ne_nil (part : Structure) (ne : rest ≠ []) :
    reached part rest = named (partsBelow part) rest := if_neg ne

theorem named_own {s : Structure} (path : List Nat) (single : ownParts s = [s]) :
    named (ownParts s) (1 :: path) = reached s path := by
  simp [single, named_cons]

variable {message : List UInt8} {parts : List (List UInt8)} {levels : Nat}

theorem structureAt_usable (usable : usableParts message = some parts) :
    structureAt (levels + 1) message =
      .multipart ((parts.take maxParts).map (structureAt levels))
        (contentType (parseHeaders message)).subtype := by
  simp only [structureAt, usable]

theorem isText_of_isMessage {content : ContentType} (message : content.isMessage) :
    content.isText = false := by
  have kind : toAsciiLowercase content.mimeType = toAsciiLowercase "message" := by
    simp only [ContentType.isMessage, eqIgnoreAsciiCase, Bool.and_eq_true, beq_iff_eq] at message
    exact message.1
  have ne : (toAsciiLowercase "message" == toAsciiLowercase "text") = false := by decide
  rw [ContentType.isText, eqIgnoreAsciiCase, kind, ne]

theorem structureAt_message (usable : usableParts message = none)
    (embedded : (leafContent message).isMessage) :
    structureAt (levels + 1) message =
      .message (partFields message (leafContent message)) (parseHeaders (splitHeadersBody message).2)
        (structureAt levels (splitHeadersBody message).2) (lineCount (splitHeadersBody message).2) := by
  have text := isText_of_isMessage embedded
  simp [structureAt, usable, embedded, text]

theorem structureAt_leaf (levels : Nat) (usable : usableParts message = none)
    (embedded : ¬(leafContent message).isMessage) :
    ∃ lines, structureAt (levels + 1) message =
      .leaf (partFields message (leafContent message)) lines := by
  simp only [structureAt, usable, embedded]
  split
  · exact ⟨_, rfl⟩
  · exact ⟨_, rfl⟩

theorem size_of_leaf {fields : PartFields} {lines : Option Nat}
    (leaf : structureAt levels message = .leaf fields lines) :
    fields.size = (splitHeadersBody message).2.length := by
  cases levels with
  | zero =>
    cases leaf
    rfl
  | succ levels =>
    cases usable : usableParts message with
    | some parts =>
      rw [structureAt_usable usable] at leaf
      exact absurd leaf (by simp)
    | none =>
      by_cases embedded : (leafContent message).isMessage
      · rw [structureAt_message usable embedded] at leaf
        exact absurd leaf (by simp)
      · obtain ⟨own, shown⟩ := structureAt_leaf levels usable embedded
        rw [shown, Structure.leaf.injEq] at leaf
        rw [← leaf.1]
        rfl

theorem usableParts_ne_nil (usable : usableParts message = some parts) : parts ≠ [] := by
  simp only [usableParts] at usable
  split at usable
  · split at usable
    · cases usable
    · split at usable
      · cases usable
      · next nonempty =>
        cases usable
        simpa using nonempty
  · cases usable

/-- From every part a leaf is reached. -/
theorem exists_leaf (levels : Nat) (message : List UInt8) :
    ∃ path fields lines, reached (structureAt levels message) path = some (.leaf fields lines) := by
  induction levels generalizing message with
  | zero => exact ⟨[], _, _, rfl⟩
  | succ levels ih =>
    cases usable : usableParts message with
    | some parts =>
      obtain ⟨part, rest, rfl⟩ := List.exists_cons_of_ne_nil (usableParts_ne_nil usable)
      obtain ⟨path, fields, lines, leaf⟩ := ih part
      refine ⟨1 :: path, fields, lines, ?_⟩
      have first : (List.take maxParts (part :: rest)).map (structureAt levels) =
          structureAt levels part :: (rest.take (maxParts - 1)).map (structureAt levels) := rfl
      rw [structureAt_usable usable, reached_of_ne_nil _ (by simp), partsBelow, first, named_cons]
      exact leaf
    | none =>
      by_cases embedded : (leafContent message).isMessage
      · obtain ⟨path, fields, lines, leaf⟩ := ih (splitHeadersBody message).2
        rw [structureAt_message usable embedded]
        -- the parts of an embedded multipart are numbered without a number for the multipart
        cases own : structureAt levels (splitHeadersBody message).2 with
        | multipart parts subtype =>
          rw [own] at leaf
          have below : path ≠ [] := by
            rintro rfl
            cases leaf
          exact ⟨path, fields, lines, by rw [reached_of_ne_nil _ below] at leaf ⊢; exact leaf⟩
        | leaf ownFields ownLines =>
          rw [own] at leaf
          refine ⟨1 :: path, fields, lines, ?_⟩
          rw [reached_of_ne_nil _ (by simp), partsBelow, named_own path rfl, leaf]
        | message ownFields headers inner count =>
          rw [own] at leaf
          refine ⟨1 :: path, fields, lines, ?_⟩
          rw [reached_of_ne_nil _ (by simp), partsBelow, named_own path rfl, leaf]
      · obtain ⟨lines, leaf⟩ := structureAt_leaf levels usable embedded
        exact ⟨[], _, lines, by rw [leaf]; rfl⟩

def fetchBelow (part : List UInt8) (path : List Nat) : Option (List UInt8) :=
  (resolveFrom 1 part path).map fun found => (splitHeadersBody found).2

theorem resolveFrom_usable (usable : usableParts message = some parts) :
    resolveFrom depth message (index :: rest) =
      if index = 0 then none
      else parts[index - 1]?.bind fun part => resolveFrom (depth + 1) part rest := by
  simp only [usableParts] at usable
  split at usable
  · next multipart =>
    split at usable
    · cases usable
    · next boundary found =>
      split at usable
      · cases usable
      · cases usable
        simp only [resolveFrom, multipart, found, if_true]
        split
        · rfl
        · split
          · next gone => rw [gone]; rfl
          · next part there => rw [there]; rfl
  · cases usable

theorem resolveFrom_unusable (usable : usableParts message = none)
    (inner : depth ≠ 0 ∨ (contentType (parseHeaders message)).isMultipart) :
    resolveFrom depth message (index :: rest) = none := by
  simp only [usableParts] at usable
  simp only [resolveFrom]
  split
  · next multipart =>
    rw [if_pos multipart] at usable
    split
    · rfl
    · next boundary found =>
      rw [found] at usable
      have none_there : multipartParts (splitHeadersBody message).2 boundary = [] := by
        simpa using usable
      simp [none_there]
  · next single =>
    have deep : depth ≠ 0 := by simpa [single] using inner
    simp [deep]

theorem resolveFrom_succ (depth : Nat) (message : List UInt8) (path : List Nat) :
    resolveFrom (depth + 1) message path = resolveFrom 1 message path := by
  induction path generalizing depth message with
  | nil => rfl
  | cons index rest ih =>
    cases usable : usableParts message with
    | none =>
      rw [resolveFrom_unusable usable (.inl (by omega)),
        resolveFrom_unusable usable (.inl (by omega))]
    | some parts =>
      have same : (fun part => resolveFrom (depth + 1 + 1) part rest) =
          fun part => resolveFrom (1 + 1) part rest := by
        funext part
        rw [ih (depth + 1), ih 1]
      rw [resolveFrom_usable usable, resolveFrom_usable usable, same]

theorem fetchBelow_usable {index : Nat} (usable : usableParts message = some parts) :
    fetchBelow message (index :: rest) =
      if index = 0 then none else parts[index - 1]?.bind fun part => fetchBelow part rest := by
  rw [fetchBelow, resolveFrom_usable usable]
  split
  · rfl
  · cases parts[index - 1]? with
    | none => rfl
    | some part =>
      show (resolveFrom 2 part rest).map _ = _
      rw [resolveFrom_succ 1]
      rfl

theorem fetchBelow_unusable {path : List Nat}
    (usable : usableParts message = none) (ne : path ≠ []) : fetchBelow message path = none := by
  obtain ⟨index, rest, rfl⟩ := List.exists_cons_of_ne_nil ne
  rw [fetchBelow, resolveFrom_unusable usable (.inl (by omega))]
  rfl

theorem Agrees.of_nil {fetch : List Nat → Option (List UInt8)}
    (nothing : ∀ path, path ≠ [] → fetch path = none) : Agrees [] fetch where
  leaf path fields lines there := by simp at there
  absent path ne _ := nothing path ne

/-- A multipart agrees if its parts do and all of them are shown. -/
theorem agrees_multipart_iff (levels : Nat) (usable : usableParts message = some parts) :
    Agrees ((parts.take maxParts).map (structureAt levels)) (fetchBelow message) ↔
      parts.length ≤ maxParts ∧
        ∀ part ∈ parts, Agrees (partsBelow (structureAt levels part)) (fetchBelow part) := by
  constructor
  · intro agrees
    have shown : parts.length ≤ maxParts := by
      by_contra more
      have unnamed : named ((parts.take maxParts).map (structureAt levels)) [maxParts + 1] =
          none := by
        simp [named_cons]
      have nothing := agrees.absent _ (by simp) unnamed
      rw [fetchBelow_usable usable, if_neg (by omega), Nat.add_sub_cancel,
        List.getElem?_eq_getElem (by omega)] at nothing
      cases nothing
    refine ⟨shown, fun part mem => ?_⟩
    obtain ⟨index, bound, rfl⟩ := List.getElem_of_mem mem
    have at_index : ∀ rest, rest ≠ [] →
        named ((parts.take maxParts).map (structureAt levels)) ((index + 1) :: rest) =
          named (partsBelow (structureAt levels parts[index])) rest := by
      intro rest ne
      rw [List.take_of_length_le shown, named_cons, partNumbered_succ, List.getElem?_map,
        List.getElem?_eq_getElem bound]
      exact reached_of_ne_nil _ ne
    have fetched : ∀ rest,
        fetchBelow message ((index + 1) :: rest) = fetchBelow parts[index] rest := by
      intro rest
      rw [fetchBelow_usable usable, if_neg (by omega), Nat.add_sub_cancel,
        List.getElem?_eq_getElem bound]
      rfl
    exact
      { leaf := by
          intro path fields lines there
          have ne : path ≠ [] := by
            rintro rfl
            cases there
          rw [← at_index path ne] at there
          rw [← fetched]
          exact agrees.leaf _ fields lines there
        absent := by
          intro path ne unnamed
          rw [← at_index path ne] at unnamed
          rw [← fetched]
          exact agrees.absent _ (by simp) unnamed }
  · rintro ⟨shown, all⟩
    rw [List.take_of_length_le shown]
    -- a path that does not begin with the number of a part names nothing and finds nothing
    have step : ∀ index rest,
        (named (parts.map (structureAt levels)) (index :: rest) = none ∧
            fetchBelow message (index :: rest) = none) ∨
          ∃ part ∈ parts, named (parts.map (structureAt levels)) (index :: rest) =
              reached (structureAt levels part) rest ∧
            fetchBelow message (index :: rest) = fetchBelow part rest := by
      intro index rest
      cases index with
      | zero => exact .inl ⟨by simp [named_cons], by simp [fetchBelow_usable usable]⟩
      | succ index =>
        rw [named_cons, partNumbered_succ, List.getElem?_map, fetchBelow_usable usable,
          if_neg (by omega), Nat.add_sub_cancel]
        cases there : parts[index]? with
        | none => exact .inl ⟨rfl, rfl⟩
        | some part => exact .inr ⟨part, List.mem_of_getElem? there, rfl, rfl⟩
    exact
      { leaf := by
          intro path fields lines there
          cases path with
          | nil => cases there
          | cons index rest =>
            obtain ⟨gone, -⟩ | ⟨part, mem, name, fetched⟩ := step index rest
            · rw [gone] at there
              cases there
            · rw [name] at there
              rw [fetched]
              by_cases ends : rest = []
              · subst ends
                have own : structureAt levels part = .leaf fields lines := by
                  simpa [reached] using there
                exact ⟨_, rfl, (size_of_leaf own).symm⟩
              · rw [reached_of_ne_nil _ ends] at there
                exact (all part mem).leaf rest fields lines there
        absent := by
          intro path ne unnamed
          obtain ⟨index, rest, rfl⟩ := List.exists_cons_of_ne_nil ne
          obtain ⟨-, gone⟩ | ⟨part, mem, name, fetched⟩ := step index rest
          · exact gone
          · rw [name] at unnamed
            rw [fetched]
            have ends : rest ≠ [] := by
              rintro rfl
              cases unnamed
            rw [reached_of_ne_nil _ ends] at unnamed
            exact (all part mem).absent rest ends unnamed }

/-- Below a part, what is fetched agrees with the structure if there is no message in it and no
multipart with too many parts. -/
theorem agrees_below_iff (nested : NestedAtMost levels message) :
    Agrees (partsBelow (structureAt levels message)) (fetchBelow message) ↔
      Plain levels message := by
  induction levels generalizing message with
  | zero =>
    refine ⟨fun _ => trivial, fun _ => ?_⟩
    exact Agrees.of_nil fun path ne => fetchBelow_unusable nested.1 ne
  | succ levels ih =>
    cases usable : usableParts message with
    | some parts =>
      simp only [NestedAtMost, usable] at nested
      simp only [Plain, usable]
      rw [structureAt_usable usable, partsBelow, agrees_multipart_iff levels usable]
      constructor
      · rintro ⟨shown, all⟩
        exact ⟨shown, fun part mem => (ih (nested part mem)).mp (all part mem)⟩
      · rintro ⟨shown, all⟩
        exact ⟨shown, fun part mem => (ih (nested part mem)).mpr (all part mem)⟩
    | none =>
      simp only [Plain, usable]
      have nothing : ∀ path, path ≠ [] → fetchBelow message path = none :=
        fun path ne => fetchBelow_unusable usable ne
      constructor
      · intro agrees embedded
        -- the embedded message has a leaf, whose number finds nothing
        obtain ⟨path, fields, lines, leaf⟩ := exists_leaf (levels + 1) message
        have below : path ≠ [] := by
          rintro rfl
          rw [structureAt_message usable embedded] at leaf
          cases leaf
        rw [reached_of_ne_nil _ below] at leaf
        obtain ⟨body, fetched, -⟩ := agrees.leaf path fields lines leaf
        rw [nothing path below] at fetched
        cases fetched
      · intro single
        obtain ⟨lines, leaf⟩ := structureAt_leaf levels usable single
        rw [leaf]
        exact Agrees.of_nil nothing

theorem addressed_usable_iff (usable : usableParts message = some parts) :
    Addressed message ↔
      Agrees (partsBelow (structureAt maxDepth message)) (fetchBelow message) := by
  have own : ownParts (structureAt maxDepth message) =
      partsBelow (structureAt maxDepth message) := by
    rw [maxDepth, structureAt_usable usable]
    rfl
  have fetched : (fun path => extractSection message (.part path)) = fetchBelow message := by
    funext path
    cases path with
    | nil => rfl
    | cons index rest =>
      rw [extractSection, resolvePart, fetchBelow, resolveFrom_usable usable,
        resolveFrom_usable usable]
      simp only [resolveFrom_succ]
  rw [Addressed, own, fetched]

theorem ownParts_unusable (usable : usableParts message = none) :
    ownParts (structureAt (levels + 1) message) = [structureAt (levels + 1) message] := by
  by_cases embedded : (leafContent message).isMessage
  · rw [structureAt_message usable embedded]
    rfl
  · obtain ⟨lines, leaf⟩ := structureAt_leaf levels usable embedded
    rw [leaf]
    rfl

/-- Without parts, a message is never addressed right: a multipart is not found under the number 1,
and any other message under every path that begins with it. -/
theorem not_addressed_unusable (usable : usableParts message = none) :
    ¬Addressed message := by
  intro addressed
  have own : ownParts (structureAt maxDepth message) = [structureAt maxDepth message] :=
    ownParts_unusable usable
  by_cases multipart : (contentType (parseHeaders message)).isMultipart
  · have content : ¬(leafContent message).isMessage := by
      have plain : ContentType.octetStream.isMessage = false := by decide
      simp [leafContent, multipart, plain]
    obtain ⟨lines, leaf⟩ := structureAt_leaf 15 usable content
    have first : named (ownParts (structureAt maxDepth message)) [1] =
        some (.leaf (partFields message (leafContent message)) lines) := by
      rw [named_own [] own]
      exact congrArg some leaf
    obtain ⟨body, fetched, -⟩ := addressed.leaf _ _ lines first
    have gone : resolvePart message [1] = none := resolveFrom_unusable usable (.inr multipart)
    simp [extractSection, gone] at fetched
  · -- one number more than there are parts below
    have unnamed : named (ownParts (structureAt maxDepth message))
        [1, (partsBelow (structureAt maxDepth message)).length + 1] = none := by
      rw [named_own _ own, reached_of_ne_nil _ (by simp), named_cons]
      simp
    have nothing := addressed.absent _ (by simp) unnamed
    simp [extractSection, resolvePart, resolveFrom, multipart] at nothing

/-- Of a message that is not nested too deep, the part numbers lead to the parts of its structure
exactly if it is a multipart that gives parts, in which no message is embedded and no multipart has
more parts than are shown. -/
theorem part_numbers_agree_iff {message : List UInt8} (nested : NestedAtMost maxDepth message) :
    Addressed message ↔ (usableParts message).isSome ∧ Plain maxDepth message := by
  cases usable : usableParts message with
  | none => simpa using not_addressed_unusable usable
  | some parts =>
    rw [addressed_usable_iff usable, agrees_below_iff nested]
    simp

def twoParts : List UInt8 := bytes
  ("Content-Type: multipart/a; boundary=b\n\n--b\nX: y\n\none\n--b\n" ++
    "Content-Type: multipart/a; boundary=c\n\n--c\nX: y\n\ntwo\n--c--\n--b--\n")

theorem part_numbers_agree_two_parts :
    Addressed twoParts ∧ extractSection twoParts (.part [2, 1]) = some (bytes "two") := by
  constructor
  · apply (part_numbers_agree_iff ?_).mpr
    · decide +kernel
    · show NestedAtMost maxDepth twoParts
      decide +kernel
  · decide +kernel

def shortText : List UInt8 := bytes "X: y\n\nhi"

/-- Nothing is below the only part of a text, and yet something is fetched there. -/
theorem text_found_below_itself :
    NestedAtMost maxDepth shortText ∧
      (named (ownParts (structureAt maxDepth shortText)) [1, 1]).isNone ∧
      extractSection shortText (.part [1, 1]) = some (bytes "hi") ∧ ¬Addressed shortText := by
  have unnamed :
      (named (ownParts (structureAt maxDepth shortText)) [1, 1]).isNone := by decide +kernel
  have found : extractSection shortText (.part [1, 1]) = some (bytes "hi") := by decide +kernel
  refine ⟨by decide +kernel, unnamed, found, fun addressed => ?_⟩
  have nothing : extractSection shortText (.part [1, 1]) = none :=
    addressed.absent _ (by simp) (Option.isNone_iff_eq_none.mp unnamed)
  rw [found] at nothing
  cases nothing

end MailStack.Imap
