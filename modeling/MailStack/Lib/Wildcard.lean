import Mathlib.Data.List.Basic

/-! Patterns with wildcards, and the texts that they stand for. -/

namespace MailStack.Lib.Wildcard

variable {β : Type*}

/-- A place of a pattern stands for one symbol, or for any number of symbols, that are allowed. -/
inductive Token (β : Type*)
  | one (allowed : β → Bool)
  | many (allowed : β → Bool)

/-- The text can be split into what each place of the pattern stands for. -/
inductive Matches : List (Token β) → List β → Prop
  | nil : Matches [] []
  | one {allowed : β → Bool} {b : β} {pattern : List (Token β)} {text : List β}
      (here : allowed b = true) (rest : Matches pattern text) :
      Matches (.one allowed :: pattern) (b :: text)
  | many {allowed : β → Bool} {taken : List β} {pattern : List (Token β)} {text : List β}
      (all : ∀ b ∈ taken, allowed b = true) (rest : Matches pattern text) :
      Matches (.many allowed :: pattern) (taken ++ text)

variable {allowed : β → Bool} {pattern : List (Token β)} {text : List β} {b : β} {token : Token β}

/-- A token that any text of any length can stand for. -/
def any : Token β := .many fun _ => true

@[simp] theorem matches_nil : Matches [] text ↔ text = [] := by
  constructor
  · intro h
    cases h
    rfl
  · rintro rfl
    exact .nil

@[simp] theorem not_matches_one_nil : ¬Matches (.one allowed :: pattern) [] := by
  intro h
  cases h

theorem matches_one_cons :
    Matches (.one allowed :: pattern) (b :: text) ↔ allowed b = true ∧ Matches pattern text := by
  constructor
  · intro h
    cases h with
    | one here rest => exact ⟨here, rest⟩
  · rintro ⟨here, rest⟩
    exact .one here rest

theorem matches_many : Matches (.many allowed :: pattern) text ↔
    ∃ taken rest, text = taken ++ rest ∧ (∀ b ∈ taken, allowed b = true) ∧
      Matches pattern rest := by
  constructor
  · intro h
    generalize eq : Token.many allowed :: pattern = whole at h
    cases h with
    | nil => cases eq
    | one here rest => cases eq
    | @many allowed' taken pattern' text' all rest =>
      cases eq
      exact ⟨taken, text', rfl, all, rest⟩
  · rintro ⟨taken, rest, rfl, all, later⟩
    exact .many all later

theorem matches_any :
    Matches (any :: pattern) text ↔ ∃ rest, rest <:+ text ∧ Matches pattern rest := by
  rw [any, matches_many]
  constructor
  · rintro ⟨taken, rest, rfl, -, later⟩
    exact ⟨rest, List.suffix_append _ _, later⟩
  · rintro ⟨rest, ⟨taken, rfl⟩, later⟩
    exact ⟨taken, rest, rfl, fun _ _ => rfl, later⟩

/-- Nothing more is taken, or one more symbol. -/
theorem matches_many_cons : Matches (.many allowed :: pattern) (b :: text) ↔
    Matches pattern (b :: text) ∨ allowed b = true ∧ Matches (.many allowed :: pattern) text := by
  rw [matches_many]
  constructor
  · rintro ⟨taken, rest, eq, all, later⟩
    cases taken with
    | nil =>
      rw [List.nil_append] at eq
      rw [eq]
      exact .inl later
    | cons first taken =>
      rw [List.cons_append, List.cons.injEq] at eq
      obtain ⟨rfl, rfl⟩ := eq
      exact .inr ⟨all b List.mem_cons_self,
        .many (fun c mem => all c (List.mem_cons_of_mem _ mem)) later⟩
  · rintro (later | ⟨here, later⟩)
    · exact ⟨[], b :: text, rfl, by simp, later⟩
    · obtain ⟨taken, rest, rfl, all, later⟩ := matches_many.mp later
      exact ⟨b :: taken, rest, rfl, by simpa [here] using all, later⟩

theorem matches_many_nil :
    Matches (.many allowed :: pattern) [] ↔ Matches pattern [] := by
  rw [matches_many]
  constructor
  · rintro ⟨taken, rest, eq, -, later⟩
    obtain ⟨rfl, rfl⟩ := List.append_eq_nil_iff.mp eq.symm
    exact later
  · exact fun later => ⟨[], [], rfl, by simp, later⟩

/-- What is left of a text that a token was taken from is an end of it. -/
theorem exists_suffix (h : Matches (token :: pattern) text) :
    ∃ rest, rest <:+ text ∧ Matches pattern rest := by
  cases h with
  | one here rest => exact ⟨_, List.suffix_cons _ _, rest⟩
  | many all rest => exact ⟨_, List.suffix_append _ _, rest⟩

/-- More symbols that are allowed can be taken. -/
theorem Matches.more {more : List β} (h : Matches (.many allowed :: pattern) text)
    (all : ∀ b ∈ more, allowed b = true) : Matches (.many allowed :: pattern) (more ++ text) := by
  obtain ⟨taken, rest, rfl, taken_all, later⟩ := matches_many.mp h
  rw [← List.append_assoc]
  refine .many (fun b mem => ?_) later
  rcases List.mem_append.mp mem with mem | mem
  · exact all b mem
  · exact taken_all b mem

/-- What a wildcard for everything takes from an end of a text, it takes from the text. -/
theorem Matches.of_suffix {rest : List β} (h : Matches (any :: pattern) rest)
    (ends : rest <:+ text) :
    Matches (any :: pattern) text := by
  obtain ⟨taken, rfl⟩ := ends
  exact h.more fun _ _ => rfl

section Literal

variable [DecidableEq β]

/-- A symbol that stands for itself. -/
def literal (b : β) : Token β := .one (· = b)

theorem matches_literals {word : List β} :
    Matches (word.map literal ++ pattern) text ↔
      ∃ rest, text = word ++ rest ∧ Matches pattern rest := by
  induction word generalizing text with
  | nil => exact ⟨fun h => ⟨text, rfl, h⟩, fun ⟨rest, eq, h⟩ => eq ▸ h⟩
  | cons b word ih =>
    rw [List.map_cons, List.cons_append, literal]
    cases text with
    | nil => exact ⟨fun h => absurd h not_matches_one_nil, fun ⟨rest, eq, h⟩ => by cases eq⟩
    | cons c text =>
      rw [matches_one_cons, decide_eq_true_eq, ih]
      constructor
      · rintro ⟨rfl, rest, rfl, later⟩
        exact ⟨rest, rfl, later⟩
      · rintro ⟨rest, eq, later⟩
        obtain ⟨rfl, rfl⟩ := List.cons.inj eq
        exact ⟨rfl, rest, rfl, later⟩

end Literal

/-- A word that is repeated after some symbols consists of these. -/
theorem all_of_prefix {p : β → Prop} {front word : List β} (some : front ≠ [])
    (all : ∀ b ∈ front, p b) (again : word <+: front ++ word) : ∀ b ∈ word, p b := by
  generalize bound : word.length = n
  induction n using Nat.strongRecOn generalizing word with
  | ind n ih =>
    rcases List.prefix_or_prefix_of_prefix again (List.prefix_append front word) with short | long
    · exact fun b mem => all b (short.subset mem)
    · obtain ⟨tail, rfl⟩ := long
      have fewer : tail.length < n := by
        have := List.length_pos_iff.mpr some
        rw [List.length_append] at bound
        omega
      have inner := ih tail.length fewer ((List.prefix_append_right_inj front).mp again) rfl
      intro b mem
      rcases List.mem_append.mp mem with mem | mem
      · exact all b mem
      · exact inner b mem

section Skip

variable [DecidableEq β] {first : β} {word rest : List β}

/-- A word that is found again later in the text leaves less of it than where it was found first. -/
theorem Matches.after_word
    (h : Matches (token :: (word.map literal ++ pattern)) rest)
    (eq : first :: rest = word ++ text) :
    ∃ later, later <:+ text ∧ Matches pattern later := by
  obtain ⟨tail, ends, inTail⟩ := exists_suffix h
  obtain ⟨later, rfl, found⟩ := matches_literals.mp inTail
  refine ⟨later, ?_, found⟩
  have whole : later <:+ word ++ text := by
    rw [← eq]
    exact ((List.suffix_append word later).trans ends).trans (List.suffix_cons first rest)
  refine List.suffix_of_suffix_length_le whole (List.suffix_append word text) ?_
  have fits := ends.length_le
  have size := congrArg List.length eq
  rw [List.length_append] at fits
  rw [List.length_cons, List.length_append] at size
  omega

/-- Where a word that stands between two equal wildcards is found, the second of them can take what
both have taken. -/
theorem Matches.skip
    (h : Matches (.many allowed :: (word.map literal ++ .many allowed :: pattern)) rest)
    (here : allowed first = true) (eq : first :: rest = word ++ text) :
    Matches (.many allowed :: pattern) text := by
  obtain ⟨taken, tail, rfl, all, inTail⟩ := matches_many.mp h
  obtain ⟨later, rfl, found⟩ := matches_literals.mp inTail
  have front : ∀ b ∈ first :: taken, allowed b = true := by simpa [here] using all
  have eq' : ((first :: taken) ++ word) ++ later = word ++ text := by
    rw [← eq, List.append_assoc, List.cons_append]
  -- the word is at the beginning of itself after what the first wildcard took
  have again : word <+: (first :: taken) ++ word := by
    refine List.prefix_of_prefix_length_le (List.prefix_append word text) ?_ ?_
    · exact eq' ▸ List.prefix_append _ later
    · rw [List.length_append]
      exact Nat.le_add_left _ _
  have inWord := all_of_prefix (List.cons_ne_nil first taken) front again
  obtain ⟨more, split⟩ := again
  have text_eq : more ++ later = text := by
    rw [← split, List.append_assoc] at eq'
    exact List.append_cancel_left eq'
  rw [← text_eq]
  refine found.more fun b mem => ?_
  have inFront : b ∈ (first :: taken) ++ word := split ▸ List.mem_append_right word mem
  rcases List.mem_append.mp inFront with inFront | inFront
  · exact front b inFront
  · exact inWord b inFront

end Skip

end MailStack.Lib.Wildcard
