import MailStack.Webmail.Sanitize

/-! Texts as they are written: a character that begins no reference stands for itself, and a
reference is written as it was. -/

namespace MailStack.Webmail.Sanitize

open Lib

def size (text : List Char) : Nat := (text.flatMap String.utf8EncodeChar).length

theorem len_eq (s : String) : len s = size s.toList := rfl

@[simp] theorem size_nil : size [] = 0 := rfl

@[simp] theorem size_cons (c : Char)
    (text : List Char) : size (c :: text) = c.utf8Size + size text := by
  simp [size]

@[simp] theorem size_append
    (text more : List Char) : size (text ++ more) = size text + size more := by
  simp [size]

theorem length_le_size (text : List Char) : text.length ≤ size text := by
  induction text with
  | nil => exact Nat.zero_le _
  | cons c text ih =>
    have one := Char.utf8Size_pos c
    rw [List.length_cons, size_cons]
    omega

variable {text : List Char} {a b : List Char}

theorem truncateOnCharBoundary_eq {limit : Nat} (fits : size text ≤ limit) :
    truncateOnCharBoundary limit text = text := by
  induction text generalizing limit with
  | nil => cases limit <;> rfl
  | cons c text ih =>
    rw [size_cons] at fits
    rw [truncateOnCharBoundary, if_pos (by omega), ih (by omega)]

/-- A reference that is left as it is. -/
structure IsReference (entity : List Char) : Prop where
  plain : ';' ∉ entity
  short : len (String.ofList entity) ≤ 10
  known : isEntity (String.ofList entity) = true

/-- A text that is written as it is. -/
inductive Settled : List Char → Prop
  | nil : Settled []
  | char {c : Char} {text : List Char} (opens : c ≠ '<') (closes : c ≠ '>') (refers : c ≠ '&')
      (settled : Settled text) : Settled (c :: text)
  | reference {entity text : List Char} (isReference : IsReference entity)
      (settled : Settled text) : Settled ('&' :: entity ++ ';' :: text)

theorem Settled.append {text more : List Char} (settled : Settled text) (others : Settled more) :
    Settled (text ++ more) := by
  induction settled with
  | nil => exact others
  | char opens closes refers settled ih => exact .char opens closes refers ih
  | reference isReference settled ih =>
    rw [List.append_assoc, List.cons_append]
    exact .reference isReference ih

variable {entity : List Char}

theorem entityLength_reference (isReference : IsReference entity)
    (rest : List Char) : entityLength (entity ++ ';' :: rest) = some (entity.length + 2) := by
  have found : entityBefore (entity ++ ';' :: rest) = some (String.ofList entity) := by
    rw [entityBefore, splitOnceChars_append isReference.plain, Option.bind_some]
    exact if_pos isReference.short
  rw [entityLength, found, Option.bind_some, if_pos isReference.known, String.length_ofList]

theorem entityLength_eq_some {rest : List Char} {length : Nat}
    (found : entityLength rest = some length) :
    ∃ entity after, rest = entity ++ ';' :: after ∧ IsReference entity ∧
      length = entity.length + 2 := by
  obtain ⟨entity, before, known⟩ := Option.bind_eq_some_iff.mp found
  obtain ⟨⟨text, after⟩, split, short⟩ := Option.bind_eq_some_iff.mp before
  obtain ⟨rfl, plain⟩ := splitOnceChars_eq_some split
  simp only at short
  split at short
  next limit =>
    obtain rfl := Option.some.inj short
    split at known
    next isEntity =>
      obtain rfl := Option.some.inj known
      exact ⟨text, after, rfl, ⟨plain, limit, isEntity⟩, by rw [String.length_ofList]⟩
    · cases known
  · cases short

theorem pushTextFrom_copy (before rest : List Char) :
    pushTextFrom before.length (before ++ rest) = before ++ pushTextFrom 0 rest := by
  induction before with
  | nil => rfl
  | cons c before ih => exact congrArg (c :: ·) ih

theorem pushTextFrom_reference (isReference : IsReference entity)
    (rest : List Char) : pushTextFrom 0 ('&' :: entity ++ ';' :: rest) =
      '&' :: entity ++ ';' :: pushTextFrom 0 rest := by
  have copied := pushTextFrom_copy (entity ++ [';']) rest
  rw [List.length_append, List.length_singleton, List.append_assoc, List.append_assoc] at copied
  rw [List.cons_append, pushTextFrom, if_neg (by decide), if_neg (by decide), if_pos rfl,
    entityLength_reference isReference]
  exact congrArg ('&' :: ·) copied

theorem pushTextFrom_settled (settled : Settled text) :
    pushTextFrom 0 text = text := by
  induction settled with
  | nil => rfl
  | char opens closes refers settled ih =>
    rw [pushTextFrom, if_neg opens, if_neg closes, if_neg refers, ih]
  | reference isReference settled ih => rw [pushTextFrom_reference isReference, ih]

theorem isReference_special : ∀ entity ∈ ["lt".toList, "gt".toList, "amp".toList],
    IsReference entity := by
  intro entity mem
  simp only [List.mem_cons, List.not_mem_nil, or_false] at mem
  rcases mem with rfl | rfl | rfl <;> exact ⟨by decide, by decide, by decide⟩

theorem settled_pushTextFrom (text : List Char) : Settled (pushTextFrom 0 text) := by
  induction size : text.length using Nat.strong_induction_on generalizing text with
  | h n ih =>
    subst size
    cases text with
    | nil => exact .nil
    | cons c rest =>
      have later : Settled (pushTextFrom 0 rest) := ih _ (Nat.lt_succ_self _) rest rfl
      obtain ⟨lt, gt, amp⟩ : IsReference "lt".toList ∧ IsReference "gt".toList ∧
          IsReference "amp".toList := by
        simpa using isReference_special
      rw [pushTextFrom]
      split_ifs with opens closes refers
      · exact .reference lt later
      · exact .reference gt later
      · subst refers
        cases found : entityLength rest with
        | none => exact .reference amp later
        | some length =>
          obtain ⟨entity, after, rfl, isReference, rfl⟩ := entityLength_eq_some found
          have copied := pushTextFrom_copy (entity ++ [';']) after
          rw [List.length_append, List.length_singleton, List.append_assoc,
            List.append_assoc] at copied
          have rest : Settled (pushTextFrom 0 after) := by
            refine ih _ ?_ after rfl
            simp only [List.length_append, List.length_cons]
            omega
          have text := Settled.reference isReference rest
          show Settled ('&' :: pushTextFrom (entity.length + 1) (entity ++ ([';'] ++ after)))
          rw [copied]
          exact text
      · exact .char opens closes refers later

theorem pushText_settled (text : List Char) : Settled (pushText text).toList := by
  rw [pushText, String.toList_ofList]
  exact settled_pushTextFrom text

def isSpecial (c : Char) : Bool := c = '<' || c = '>' || c = '&'

theorem isEntity_plain {entity : String} (known : isEntity entity = true) :
    ∀ c ∈ entity.toList, isSpecial c = false := by
  unfold isEntity at known
  split at known
  next named =>
    have all : ∀ name ∈ ["amp", "lt", "gt", "quot", "apos", "nbsp"],
        ∀ c ∈ name.toList, isSpecial c = false := by
      decide
    exact all entity (by simpa using named)
  · split at known
    · cases known
    next number numeric =>
      have after {mark text rest : String} (strips : stripPrefix mark text = some rest)
          (plainMark : ∀ c ∈ mark.toList, isSpecial c = false)
          (plainRest : ∀ c ∈ rest.toList, isSpecial c = false) :
          ∀ c ∈ text.toList, isSpecial c = false := by
        unfold stripPrefix at strips
        split at strips
        next starts =>
          obtain rfl := Option.some.inj strips
          obtain ⟨more, eq⟩ := starts
          rw [← eq, List.drop_left, String.toList_ofList] at plainRest
          rw [← eq]
          exact List.forall_mem_append.mpr ⟨plainMark, plainRest⟩
        · cases strips
      have digits {text : String} (all : text.toList.all isHexDigit = true) :
          ∀ c ∈ text.toList, isSpecial c = false := by
        intro c mem
        have digit := List.all_eq_true.mp all c mem
        by_contra special
        simp only [isSpecial, Bool.not_eq_false, Bool.or_eq_true, decide_eq_true_eq] at special
        rcases special with (rfl | rfl) | rfl <;> exact absurd digit (by decide)
      refine after numeric (by decide) ?_
      have all := (Bool.and_eq_true_iff.mp known).2
      cases lower : stripPrefix "x" number with
      | some hex =>
        rw [lower] at all
        exact after lower (by decide) (digits all)
      | none =>
        rw [lower, Option.none_or] at all
        cases upper : stripPrefix "X" number with
        | some hex =>
          rw [upper] at all
          exact after upper (by decide) (digits all)
        | none =>
          rw [upper] at all
          exact digits all

theorem IsReference.noSpecial (isReference : IsReference entity) :
    ∀ c ∈ entity, isSpecial c = false := by
  have plain := isEntity_plain isReference.known
  rwa [String.toList_ofList] at plain

theorem Settled.no_tag (settled : Settled text) : '<' ∉ text := by
  induction settled with
  | nil => exact List.not_mem_nil
  | char opens closes refers settled ih => exact List.not_mem_cons_of_ne_of_not_mem opens.symm ih
  | reference isReference settled ih =>
    have inside : '<' ∉ _ := fun mem => absurd (isReference.noSpecial _ mem) (by decide)
    simp [inside, ih]

/-- The second text ends a reference that the first one begins. -/
def Straddles (a b : List Char) : Prop :=
  ∃ start x y more, a = start ++ '&' :: x ∧ b = y ++ ';' :: more ∧ IsReference (x ++ y)

theorem entityLength_append {c : Char} (none_ : entityLength a = none)
    (apart : ¬ Straddles (c :: a) b) (ampersand : c = '&') : entityLength (a ++ b) = none := by
  cases found : entityLength (a ++ b) with
  | none => rfl
  | some length =>
    obtain ⟨entity, after, text, isReference, -⟩ := entityLength_eq_some found
    rcases List.append_eq_append_iff.mp text with ⟨y, rfl, rest⟩ | ⟨inside, rfl, rest⟩
    · exact absurd ⟨[], a, y, after, by rw [ampersand]; rfl, rest, isReference⟩ apart
    · cases inside with
      | nil =>
        rw [List.nil_append] at rest
        refine absurd ⟨[], _, [], after, by rw [ampersand]; rfl, rest.symm, ?_⟩ apart
        rwa [List.append_nil, List.append_nil]
      | cons d inside =>
        rw [List.cons_append] at rest
        obtain ⟨rfl, -⟩ := List.cons.inj rest
        rw [entityLength_reference isReference] at none_
        cases none_

theorem pushTextFrom_append (apart : ¬ Straddles a b) :
    pushTextFrom 0 (a ++ b) = pushTextFrom 0 a ++ pushTextFrom 0 b := by
  induction size : a.length using Nat.strong_induction_on generalizing a with
  | h n ih =>
    subst size
    cases a with
    | nil => rfl
    | cons c rest =>
      have shorter (before rest : List Char) (apart : ¬ Straddles (before ++ rest) b) :
          ¬ Straddles rest b := by
        rintro ⟨start, x, y, more, rfl, straddles⟩
        exact apart ⟨before ++ start, x, y, more, by simp, straddles⟩
      have later : pushTextFrom 0 (rest ++ b) = pushTextFrom 0 rest ++ pushTextFrom 0 b :=
        ih _ (Nat.lt_succ_self _) (shorter [c] rest apart) rfl
      rw [List.cons_append, pushTextFrom, pushTextFrom]
      by_cases opens : c = '<'
      · rw [if_pos opens, if_pos opens, later, List.append_assoc]
      rw [if_neg opens, if_neg opens]
      by_cases closes : c = '>'
      · rw [if_pos closes, if_pos closes, later, List.append_assoc]
      rw [if_neg closes, if_neg closes]
      by_cases refers : c = '&'
      · rw [if_pos refers, if_pos refers]
        cases found : entityLength rest with
        | none =>
          rw [entityLength_append found apart refers, later, List.append_assoc]
        | some length =>
          obtain ⟨entity, after, rfl, isReference, rfl⟩ := entityLength_eq_some found
          have copied (rest : List Char) := pushTextFrom_copy (entity ++ [';']) rest
          simp only [List.length_append, List.length_singleton, List.append_assoc,
            List.singleton_append] at copied
          have inner := ih after.length (by simp only [List.length_cons, List.length_append]; omega)
            (shorter ('&' :: entity ++ [';']) after (by simpa [refers] using apart)) rfl
          rw [List.append_assoc, List.cons_append, entityLength_reference isReference]
          show '&' :: pushTextFrom (entity.length + 1) _ =
            '&' :: pushTextFrom (entity.length + 1) _ ++ pushTextFrom 0 b
          rw [copied, copied, inner]
          simp
      · rw [if_neg refers, if_neg refers, later, List.cons_append]

theorem settled_plain (plain : ∀ c ∈ text, isSpecial c = false) : Settled text := by
  induction text with
  | nil => exact .nil
  | cons c text ih =>
    obtain ⟨here, later⟩ := List.forall_mem_cons.mp plain
    simp only [isSpecial, Bool.or_eq_false_iff, decide_eq_false_iff_not] at here
    exact .char here.1.1 here.1.2 here.2 (ih later)

theorem pushTextFrom_plain (plain : '&' ∉ pushTextFrom 0 text) :
    pushTextFrom 0 text = text := by
  induction text with
  | nil => rfl
  | cons c text ih =>
    rw [pushTextFrom] at plain ⊢
    split_ifs at plain ⊢
    · exact absurd (List.mem_append_left _ (by decide)) plain
    · exact absurd (List.mem_append_left _ (by decide)) plain
    · split at plain
      · exact absurd List.mem_cons_self plain
      · exact absurd (List.mem_append_left _ (by decide)) plain
    · rw [ih fun mem => plain (List.mem_cons_of_mem _ mem)]

/-- What is written of two texts where the second ends a reference that the first begins. -/
theorem pushTextFrom_straddles {start x y more : List Char} (isReference : IsReference (x ++ y)) :
    pushTextFrom 0 (start ++ '&' :: x) = pushTextFrom 0 start ++ ("&amp;".toList ++ x) ∧
      pushTextFrom 0 (start ++ '&' :: x ++ (y ++ ';' :: more)) =
        pushTextFrom 0 start ++ ('&' :: (x ++ y) ++ ';' :: pushTextFrom 0 more) ∧
      pushTextFrom 0 (y ++ ';' :: more) = y ++ ';' :: pushTextFrom 0 more := by
  obtain ⟨plainX, plainY⟩ := List.forall_mem_append.mp isReference.noSpecial
  have apart (z : List Char) : ¬ Straddles start ('&' :: z) := by
    rintro ⟨before, x', y', after, rfl, text, reference⟩
    cases y' with
    | nil => cases text
    | cons c y' =>
      obtain rfl : '&' = c := (List.cons.inj text).1
      exact absurd (reference.noSpecial '&' (by simp)) (by decide)
  have noSemicolon : ';' ∉ x := fun mem => isReference.plain (List.mem_append_left _ mem)
  have noEntity : entityLength x = none := by
    cases found : entityLength x with
    | none => rfl
    | some length =>
      obtain ⟨entity, after, rfl, -⟩ := entityLength_eq_some found
      exact absurd (by simp) noSemicolon
  refine ⟨?_, ?_, ?_⟩
  · rw [pushTextFrom_append (apart x), pushTextFrom, if_neg (by decide), if_neg (by decide),
      if_pos rfl, noEntity, pushTextFrom_settled (settled_plain plainX)]
  · have text : start ++ '&' :: x ++ (y ++ ';' :: more) =
        start ++ ('&' :: (x ++ y) ++ ';' :: more) := by simp
    rw [text, List.cons_append, pushTextFrom_append (apart _), ← List.cons_append,
      pushTextFrom_reference isReference]
  · have plain : ¬ Straddles y (';' :: more) := by
      rintro ⟨before, x', y', after, rfl, -⟩
      exact absurd (plainY '&' (by simp)) (by decide)
    rw [pushTextFrom_append plain, pushTextFrom_settled (settled_plain plainY), pushTextFrom,
      if_neg (by decide), if_neg (by decide), if_neg (by decide)]

theorem pushTextFrom_append_iff (a b : List Char) :
    pushTextFrom 0 (a ++ b) = pushTextFrom 0 a ++ pushTextFrom 0 b ↔ ¬ Straddles a b := by
  refine ⟨?_, pushTextFrom_append⟩
  rintro same ⟨start, x, y, more, rfl, rfl, isReference⟩
  obtain ⟨first, both, second⟩ := @pushTextFrom_straddles start x y more isReference
  rw [first, both, second] at same
  have lengths := congrArg List.length same
  have five : "&amp;".toList.length = 5 := by decide
  simp only [List.length_append, List.length_cons, five] at lengths
  omega

/-- A reference to an ampersand, begun by the first text, and what the first text has of it behind
it. -/
def SameAmpersand (a b : List Char) : Prop :=
  ∃ start x y, a = start ++ '&' :: x ∧ x ++ y = "amp".toList ∧ b = y ++ ';' :: x

theorem pushTextFrom_eq_nil : pushTextFrom 0 text = [] ↔ text = [] := by
  refine ⟨fun nothing => ?_, fun nil => by rw [nil]; rfl⟩
  have plain : '&' ∉ pushTextFrom 0 text := nothing ▸ List.not_mem_nil
  exact (pushTextFrom_plain plain).symm.trans nothing

/-- The second text adds nothing if there is none, or if it adds what is written for a lone `&`. -/
theorem pushTextFrom_append_self (a b : List Char) :
    pushTextFrom 0 (a ++ b) = pushTextFrom 0 a ↔ b = [] ∨ SameAmpersand a b := by
  have amp : IsReference "amp".toList := isReference_special _ (by simp)
  constructor
  · intro same
    by_cases straddles : Straddles a b
    · obtain ⟨start, x, y, more, rfl, rfl, isReference⟩ := straddles
      obtain ⟨first, both, -⟩ := @pushTextFrom_straddles start x y more isReference
      rw [first, both] at same
      have written := (List.cons.inj (List.append_cancel_left same)).2
      -- the semicolon is the first one on both sides
      have left := splitOnceChars_append isReference.plain (pushTextFrom 0 more)
      have right := splitOnceChars_append amp.plain x
      have both : splitOnceChars ';' (x ++ y ++ ';' :: pushTextFrom 0 more) =
          splitOnceChars ';' ("amp".toList ++ ';' :: x) := congrArg _ written
      rw [left, right] at both
      obtain ⟨name, rest⟩ := Prod.mk.inj (Option.some.inj both)
      have plain : '&' ∉ pushTextFrom 0 more := by
        rw [rest]
        exact fun mem => absurd (isReference.noSpecial '&' (List.mem_append_left _ mem)) (by decide)
      rw [pushTextFrom_plain plain] at rest
      exact .inr ⟨start, x, y, rfl, name, rest ▸ rfl⟩
    · rw [pushTextFrom_append straddles, List.append_right_eq_self] at same
      exact .inl (pushTextFrom_eq_nil.mp same)
  · rintro (rfl | ⟨start, x, y, rfl, name, rfl⟩)
    · rw [List.append_nil]
    · obtain ⟨first, both, -⟩ := @pushTextFrom_straddles start x y x (name ▸ amp)
      have plain : ∀ c ∈ x, isSpecial c = false := by
        intro c mem
        exact amp.noSpecial c (name ▸ List.mem_append_left _ mem)
      rw [first, both, name, pushTextFrom_settled (settled_plain plain)]
      rfl

end MailStack.Webmail.Sanitize
