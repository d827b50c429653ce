import MailStack.Lib.Loop
import MailStack.Lib.Wildcard
import MailStack.Maildir.Store

/-! Which names of mailboxes a pattern of the command LIST stands for. -/

namespace MailStack.Imap.ListPattern

open Lib Maildir

def asterisk : UInt8 := 42

def percentSign : UInt8 := 37

def delimiterByte : UInt8 := 46

def isWild (byte : UInt8) : Bool := byte = asterisk || byte = percentSign

/-! ### The loop -/

/-- The variables of `matches_pattern`: two positions, and the last wildcard of each kind with the
place of the name that it was passed at. -/
structure Place where
  star : Option (Nat × Nat)
  percent : Option (Nat × Nat)
  i : Nat
  j : Nat

def rest (pattern : List UInt8) (i : Nat) : Bool := (pattern.drop i).all isWild

/-- The branches that go back to a wildcard. -/
def goBack (name : List UInt8) (s : Place) : Place ⊕ Bool :=
  match s.percent with
  | some (index, mark) =>
    if mark < name.length ∧ name[mark]? ≠ some delimiterByte then
      .inl { s with percent := some (index, mark + 1), i := index + 1, j := mark + 1 }
    else .inl { s with percent := none }
  | none =>
    match s.star with
    | some (index, mark) =>
      if mark < name.length then
        .inl { star := some (index, mark + 1), percent := none, i := index + 1, j := mark + 1 }
      else .inr false
    | none => .inr false

/-- The body of the loop over the name. -/
def step (pattern name : List UInt8) (s : Place) : Place ⊕ Bool :=
  if s.j < name.length then
    if s.i < pattern.length ∧
        (pattern[s.i]? = some asterisk ∨ pattern[s.i]? = some percentSign) then
      if pattern[s.i]? = some asterisk then
        .inl { star := some (s.i, s.j), percent := none, i := s.i + 1, j := s.j }
      else .inl { s with percent := some (s.i, s.j), i := s.i + 1 }
    else if s.i < pattern.length ∧ pattern[s.i]? = name[s.j]? then
      .inl { s with i := s.i + 1, j := s.j + 1 }
    else goBack name s
  else .inr (rest pattern s.i)

/-- The position is passed without going back. -/
def goesOn (pattern name : List UInt8) (s : Place) : Bool :=
  s.i < pattern.length &&
    ((pattern[s.i]?.map isWild).getD false || decide (pattern[s.i]? = name[s.j]?))

def starsLeft (pattern : List UInt8) (s : Place) : Nat :=
  match s.star with
  | some (index, _) => pattern.length - index
  | none => pattern.length + 1

/-- The places of the name that the last wildcard can still be moved to. -/
def placesLeft (name : List UInt8) (wildcard : Option (Nat × Nat)) : Nat :=
  match wildcard with
  | some (_, mark) => name.length - mark
  | none => 0

def percentsLeft (pattern name : List UInt8) (s : Place) : Nat :=
  match s.percent with
  | some (index, _) => pattern.length + 1 - index
  | none => if goesOn pattern name s then pattern.length + 2 else 0

def bytesLeft (pattern name : List UInt8) (s : Place) : Nat :=
  (pattern.length - s.i) + (name.length - s.j)

/-- An asterisk is passed at most once. Between two of them the mark of the last one only grows,
between two marks a percent sign is passed at most once, and so on. -/
def measure (pattern name : List UInt8) (s : Place) : Nat :=
  (((starsLeft pattern s * (name.length + 1) + placesLeft name s.star) * (pattern.length + 3) +
    percentsLeft pattern name s) * (name.length + 1) + placesLeft name s.percent) *
      (pattern.length + name.length + 1) + bytesLeft pattern name s

def start : Place := { star := none, percent := none, i := 0, j := 0 }

/-- A name without wildcards stands for itself, and the inbox is named in either case. -/
def matchesPattern (pattern name : String) : Bool :=
  if !pattern.toList.any fun c => c = '*' || c = '%' then
    if name = inbox then eqIgnoreAsciiCase pattern inbox else decide (pattern = name)
  else
    loop (step (bytes pattern) (bytes name)) false (measure (bytes pattern) (bytes name)) start

/-! ### What a pattern stands for -/

/-- What a byte of a pattern stands for. -/
def token (byte : UInt8) : Wildcard.Token UInt8 :=
  if byte = asterisk then Wildcard.any
  else if byte = percentSign then .many (· ≠ delimiterByte)
  else Wildcard.literal byte

/-- The meaning of a pattern, of which `%` stops at the delimiter. -/
def Matches (pattern name : List UInt8) : Prop :=
  Wildcard.Matches (pattern.map token) name

variable {pattern name text word : List UInt8} {byte b : UInt8} {index mark : Nat}

theorem token_percentSign : token percentSign = .many (· ≠ delimiterByte) := rfl

theorem token_literal (plain : isWild byte = false) : token byte = Wildcard.literal byte := by
  have neither : byte ≠ asterisk ∧ byte ≠ percentSign := by simpa [isWild] using plain
  rw [token, if_neg neither.1, if_neg neither.2]

@[simp] theorem matches_nil : Matches [] text ↔ text = [] := Wildcard.matches_nil

theorem matches_asterisk :
    Matches (asterisk :: pattern) text ↔ ∃ rest, rest <:+ text ∧ Matches pattern rest :=
  Wildcard.matches_any

theorem matches_literal (plain : isWild byte = false) :
    Matches (byte :: pattern) (b :: text) ↔ byte = b ∧ Matches pattern text := by
  unfold Matches
  rw [List.map_cons, token_literal plain, Wildcard.literal, Wildcard.matches_one_cons,
    decide_eq_true_eq, eq_comm]

theorem matches_percentSign_cons : Matches (percentSign :: pattern) (b :: text) ↔
    Matches pattern (b :: text) ∨
      b ≠ delimiterByte ∧ Matches (percentSign :: pattern) text := by
  refine Wildcard.matches_many_cons.trans (or_congr Iff.rfl (and_congr ?_ Iff.rfl))
  rw [decide_eq_true_eq]

theorem matches_percentSign_of_rest (h : Matches pattern text) :
    Matches (percentSign :: pattern) text :=
  Wildcard.matches_many.mpr ⟨[], text, rfl, by simp, h⟩

theorem matches_word (plain : ∀ byte ∈ word, isWild byte = false) :
    Matches (word ++ pattern) text ↔ ∃ rest, text = word ++ rest ∧ Matches pattern rest := by
  have tokens : word.map token = word.map Wildcard.literal :=
    List.map_congr_left fun byte mem => token_literal (plain byte mem)
  unfold Matches
  rw [List.map_append, tokens]
  exact Wildcard.matches_literals

theorem matches_end : Matches pattern [] ↔ pattern.all isWild = true := by
  induction pattern with
  | nil => exact ⟨fun _ => rfl, fun _ => .nil⟩
  | cons byte pattern ih =>
    rw [List.all_cons, Bool.and_eq_true, ← ih]
    by_cases isStar : byte = asterisk
    · subst isStar
      refine Wildcard.matches_many_nil.trans ?_
      exact ⟨fun later => ⟨rfl, later⟩, And.right⟩
    by_cases isPercent : byte = percentSign
    · subst isPercent
      refine Wildcard.matches_many_nil.trans ?_
      exact ⟨fun later => ⟨rfl, later⟩, And.right⟩
    · have plain : isWild byte = false := by simp [isWild, isStar, isPercent]
      constructor
      · intro h
        unfold Matches at h
        rw [List.map_cons, token_literal plain] at h
        exact absurd h Wildcard.not_matches_one_nil
      · intro h
        rw [plain] at h
        exact absurd h.1 (by decide)

theorem Matches.tail (h : Matches (byte :: pattern) text) :
    ∃ rest, rest <:+ text ∧ Matches pattern rest :=
  Wildcard.exists_suffix h

/-! ### One step -/

/-- The last percent sign can stand for more than to its mark. -/
def PercentGoesOn (pattern name : List UInt8) (s : Place) : Prop :=
  ∃ index mark, s.percent = some (index, mark) ∧ ∃ b, b ≠ delimiterByte ∧
    name.drop mark = b :: name.drop (mark + 1) ∧
    Matches (percentSign :: pattern.drop (index + 1)) (name.drop (mark + 1))

def StarGoesOn (pattern name : List UInt8) (s : Place) : Prop :=
  ∃ index mark, s.star = some (index, mark) ∧ ∃ rest, rest <:+ name.drop (mark + 1) ∧
    Matches (pattern.drop (index + 1)) rest

/-- What the loop answers from a state on. -/
def Accepts (pattern name : List UInt8) (s : Place) : Prop :=
  Matches (pattern.drop s.i) (name.drop s.j) ∨ PercentGoesOn pattern name s ∨
    StarGoesOn pattern name s

/-- Since the last percent sign only bytes that stand for themselves were passed. Where the last
asterisk can stand for more, what follows the position in the pattern is matched by an end of what
follows that in the name; so the wildcards before the last ones are not needed. -/
structure Fits (pattern name : List UInt8) (s : Place) : Prop where
  inPattern : s.i ≤ pattern.length
  inName : s.j ≤ name.length
  star : ∀ index mark, s.star = some (index, mark) → index < s.i ∧ mark ≤ s.j
  percent : ∀ index mark, s.percent = some (index, mark) → index < s.i ∧ mark ≤ s.j ∧
    ∃ word, (∀ byte ∈ word, isWild byte = false) ∧
      pattern.drop (index + 1) = word ++ pattern.drop s.i ∧
      name.drop mark = word ++ name.drop s.j
  order : ∀ index mark index' mark', s.star = some (index, mark) →
    s.percent = some (index', mark') → index < index' ∧ mark ≤ mark'
  kept : StarGoesOn pattern name s →
    ∃ rest, rest <:+ name.drop s.j ∧ Matches (pattern.drop s.i) rest
  keptPercent : StarGoesOn pattern name s → ∀ index mark, s.percent = some (index, mark) →
    ∃ rest, rest <:+ name.drop mark ∧ Matches (pattern.drop (index + 1)) rest

variable {s s' : Place}

/-- What one step does. -/
inductive Next (pattern name : List UInt8) (s : Place) : Place ⊕ Bool → Prop
  | many (inPattern : pattern.drop s.i = asterisk :: pattern.drop (s.i + 1))
      (more : s.j < name.length) :
      Next pattern name s
        (.inl { star := some (s.i, s.j), percent := none, i := s.i + 1, j := s.j })
  | segment (onward : goesOn pattern name s = true)
      (inPattern : pattern.drop s.i = percentSign :: pattern.drop (s.i + 1)) :
      Next pattern name s (.inl { s with percent := some (s.i, s.j), i := s.i + 1 })
  | one {byte : UInt8} (onward : goesOn pattern name s = true) (plain : isWild byte = false)
      (inPattern : pattern.drop s.i = byte :: pattern.drop (s.i + 1))
      (inName : name.drop s.j = byte :: name.drop (s.j + 1)) :
      Next pattern name s (.inl { s with i := s.i + 1, j := s.j + 1 })
  | longer {index mark : Nat} {b : UInt8}
      (apart : ¬Matches (pattern.drop s.i) (name.drop s.j))
        (passed : s.percent = some (index, mark))
      (here : b ≠ delimiterByte) (inName : name.drop mark = b :: name.drop (mark + 1)) :
      Next pattern name s
        (.inl { s with percent := some (index, mark + 1), i := index + 1, j := mark + 1 })
  | forget {index mark : Nat} (stuck : goesOn pattern name s = false)
      (passed : s.percent = some (index, mark)) (ends : ¬PercentGoesOn pattern name s) :
      Next pattern name s (.inl { s with percent := none })
  | back {index mark : Nat} (apart : ¬Matches (pattern.drop s.i) (name.drop s.j))
      (fresh : s.percent = none) (passed : s.star = some (index, mark))
      (more : mark < name.length) :
      Next pattern name s
        (.inl { star := some (index, mark + 1), percent := none, i := index + 1, j := mark + 1 })
  | stop (apart : ¬Matches (pattern.drop s.i) (name.drop s.j)) (fresh : s.percent = none)
      (ends : ∀ index mark, s.star = some (index, mark) → name.length ≤ mark)
      (more : s.j < name.length) : Next pattern name s (.inr false)
  | finish (all : name.length ≤ s.j) : Next pattern name s (.inr (rest pattern s.i))

theorem isWild_iff : isWild byte = true ↔ byte = asterisk ∨ byte = percentSign := by
  simp [isWild]

theorem step_next (pattern name : List UInt8) (s : Place) :
    Next pattern name s (step pattern name s) := by
  unfold step
  by_cases more : s.j < name.length
  · rw [if_pos more]
    have inName : name.drop s.j = name[s.j] :: name.drop (s.j + 1) :=
      List.drop_eq_getElem_cons more
    have atName : name[s.j]? = some name[s.j] := List.getElem?_eq_getElem more
    have turn (stuck : goesOn pattern name s = false)
        (apart : ¬Matches (pattern.drop s.i) (name.drop s.j)) :
        Next pattern name s (goBack name s) := by
      unfold goBack
      cases passed : s.percent with
      | some passedAt =>
        obtain ⟨index, mark⟩ := passedAt
        by_cases longer : mark < name.length ∧ name[mark]? ≠ some delimiterByte
        · simp only [if_pos longer]
          have inside := longer.1
          refine .longer apart passed (b := name[mark]) ?_
            (List.drop_eq_getElem_cons longer.1)
          intro eq
          exact longer.2 ((List.getElem?_eq_getElem longer.1).trans (congrArg some eq))
        · simp only [if_neg longer]
          refine .forget stuck passed ?_
          rintro ⟨index', mark', passed', b, here, inside, -⟩
          obtain ⟨-, rfl⟩ := Prod.mk.inj (Option.some.inj (passed.symm.trans passed'))
          have at_mark : name[mark]? = some b := by
            rw [← List.head?_drop, inside, List.head?_cons]
          refine longer ⟨(List.getElem?_eq_some_iff.mp at_mark).1, ?_⟩
          rw [at_mark]
          exact fun eq => here (Option.some.inj eq)
      | none =>
        cases star : s.star with
        | none =>
          refine .stop apart passed ?_ more
          intro index mark found
          rw [star] at found
          cases found
        | some starAt =>
          obtain ⟨index, mark⟩ := starAt
          by_cases longer : mark < name.length
          · simp only [if_pos longer]
            exact .back apart passed star longer
          · simp only [if_neg longer]
            refine .stop apart passed ?_ more
            intro index' mark' found
            obtain ⟨-, rfl⟩ := Prod.mk.inj (Option.some.inj (star.symm.trans found))
            exact Nat.not_lt.mp longer
    by_cases inside : s.i < pattern.length
    · have inPattern : pattern.drop s.i = pattern[s.i] :: pattern.drop (s.i + 1) :=
        List.drop_eq_getElem_cons inside
      have atPattern : pattern[s.i]? = some pattern[s.i] := List.getElem?_eq_getElem inside
      rw [atPattern]
      simp only [inside, true_and, Option.some.injEq]
      have onward_iff : goesOn pattern name s = true ↔
          isWild pattern[s.i] = true ∨ pattern[s.i] = name[s.j] := by
        rw [goesOn, atPattern, atName]
        simp [inside]
      by_cases wild : isWild pattern[s.i] = true
      · rw [if_pos (isWild_iff.mp wild)]
        by_cases isStar : pattern[s.i] = asterisk
        · rw [if_pos isStar]
          exact .many (isStar ▸ inPattern) more
        · rw [if_neg isStar]
          have isPercent := (isWild_iff.mp wild).resolve_left isStar
          exact .segment (onward_iff.mpr (.inl wild)) (isPercent ▸ inPattern)
      · rw [if_neg fun h => wild (isWild_iff.mpr h)]
        have plain : isWild pattern[s.i] = false := Bool.eq_false_iff.mpr wild
        rw [atName]
        by_cases same : pattern[s.i] = name[s.j]
        · rw [if_pos (congrArg some same)]
          exact .one (onward_iff.mpr (.inr same)) plain inPattern (same ▸ inName)
        · rw [if_neg fun eq => same (Option.some.inj eq)]
          refine turn (Bool.eq_false_iff.mpr fun onward => ?_) ?_
          · exact (onward_iff.mp onward).elim wild same
          · rw [inPattern, inName, matches_literal plain]
            exact fun h => same h.1
    · simp only [inside, false_and, if_false]
      refine turn ?_ ?_
      · simp [goesOn, inside]
      · rw [List.drop_eq_nil_of_le (Nat.not_lt.mp inside), inName]
        exact fun h => by cases matches_nil.mp h
  · rw [if_neg more]
    exact .finish (Nat.not_lt.mp more)

/-! ### The loop ends -/

theorem radix_lt {radix a a' b b' : Nat} (small : b' < radix) (less : a' < a ∨ a' = a ∧ b' < b) :
    a' * radix + b' < a * radix + b := by
  rcases less with less | ⟨rfl, less⟩
  · have whole : (a' + 1) * radix ≤ a * radix := Nat.mul_le_mul_right radix less
    rw [Nat.succ_mul] at whole
    omega
  · omega

theorem placesLeft_lt (name : List UInt8) (wildcard : Option (Nat × Nat)) :
    placesLeft name wildcard < name.length + 1 := by
  unfold placesLeft
  split <;> omega

theorem percentsLeft_lt (pattern name : List UInt8) (s : Place) :
    percentsLeft pattern name s < pattern.length + 3 := by
  unfold percentsLeft
  split
  · omega
  · split <;> omega

theorem bytesLeft_lt (pattern name : List UInt8) (s : Place) :
    bytesLeft pattern name s < pattern.length + name.length + 1 := by
  unfold bytesLeft
  omega

theorem lt_length_of_drop {bytes : List UInt8} {k : Nat} (at_k : bytes.drop k = b :: text) :
    k < bytes.length := by
  have size := congrArg List.length at_k
  rw [List.length_drop, List.length_cons] at size
  omega

theorem measure_lt_of_star (less : starsLeft pattern s' < starsLeft pattern s ∨
      starsLeft pattern s' = starsLeft pattern s ∧
        placesLeft name s'.star < placesLeft name s.star) :
    measure pattern name s' < measure pattern name s :=
  radix_lt (bytesLeft_lt pattern name s') <| .inl <| radix_lt (placesLeft_lt name s'.percent) <|
    .inl <| radix_lt (percentsLeft_lt pattern name s') <| .inl <|
      radix_lt (placesLeft_lt name s'.star) less

theorem measure_lt_of_percent (star : s'.star = s.star)
    (less : percentsLeft pattern name s' < percentsLeft pattern name s ∨
      percentsLeft pattern name s' = percentsLeft pattern name s ∧
        placesLeft name s'.percent < placesLeft name s.percent) :
    measure pattern name s' < measure pattern name s := by
  have same : starsLeft pattern s' = starsLeft pattern s := by
    unfold starsLeft
    rw [star]
  refine radix_lt (bytesLeft_lt pattern name s') <| .inl <|
    radix_lt (placesLeft_lt name s'.percent) ?_
  rw [same, star]
  rcases less with less | ⟨same', less⟩
  · exact .inl (radix_lt (percentsLeft_lt pattern name s') (.inr ⟨rfl, less⟩))
  · rw [same']
    exact .inr ⟨rfl, less⟩

theorem measure_lt (fits : Fits pattern name s) (next : Next pattern name s (.inl s')) :
    measure pattern name s' < measure pattern name s := by
  cases next with
  | many inPattern more =>
    refine measure_lt_of_star (.inl ?_)
    have inside := lt_length_of_drop inPattern
    unfold starsLeft
    cases star : s.star with
    | none =>
      show pattern.length - s.i < pattern.length + 1
      omega
    | some starAt =>
      have behind := fits.star _ _ star
      show pattern.length - s.i < pattern.length - starAt.1
      omega
  | segment onward inPattern =>
    refine measure_lt_of_percent rfl (.inl ?_)
    have inside := lt_length_of_drop inPattern
    unfold percentsLeft
    cases percent : s.percent with
    | none =>
      show pattern.length + 1 - s.i < if goesOn pattern name s then pattern.length + 2 else 0
      rw [if_pos onward]
      omega
    | some percentAt =>
      have behind := fits.percent _ _ percent
      show pattern.length + 1 - s.i < pattern.length + 1 - percentAt.1
      omega
  | one onward plain inPattern inName =>
    have inside := lt_length_of_drop inPattern
    have percents : percentsLeft pattern name { s with i := s.i + 1, j := s.j + 1 } ≤
        percentsLeft pattern name s := by
      unfold percentsLeft
      cases percent : s.percent with
      | none =>
        show (if goesOn pattern name { s with i := s.i + 1, j := s.j + 1 } then
            pattern.length + 2 else 0) ≤ if goesOn pattern name s then pattern.length + 2 else 0
        rw [if_pos onward]
        split
        · exact Nat.le_refl _
        · exact Nat.zero_le _
      | some percentAt => exact Nat.le_refl _
    rcases Nat.lt_or_eq_of_le percents with less | same
    · exact measure_lt_of_percent rfl (.inl less)
    · refine radix_lt (bytesLeft_lt pattern name _) (.inr ⟨?_, ?_⟩)
      · rw [same]
        rfl
      · show (pattern.length - (s.i + 1)) + (name.length - (s.j + 1)) <
          (pattern.length - s.i) + (name.length - s.j)
        omega
  | @longer index mark b apart passed here inName =>
    refine measure_lt_of_percent rfl (.inr ⟨?_, ?_⟩)
    · unfold percentsLeft
      rw [passed]
    · have inside := lt_length_of_drop inName
      rw [passed]
      show name.length - (mark + 1) < name.length - mark
      omega
  | @forget index mark stuck passed ends =>
    refine measure_lt_of_percent rfl (.inl ?_)
    have behind := fits.percent _ _ passed
    have inside := fits.inPattern
    unfold percentsLeft
    rw [passed]
    show (if goesOn pattern name { s with percent := none } then pattern.length + 2 else 0) <
      pattern.length + 1 - index
    have stuck' : goesOn pattern name { s with percent := none } = false := stuck
    rw [stuck', if_neg Bool.false_ne_true]
    omega
  | @back index mark apart fresh passed more =>
    refine measure_lt_of_star (.inr ⟨?_, ?_⟩)
    · unfold starsLeft
      rw [passed]
    · rw [passed]
      show name.length - (mark + 1) < name.length - mark
      omega

/-! ### What the loop accepts -/

theorem drop_succ_suffix (bytes : List UInt8) (k : Nat) : bytes.drop (k + 1) <:+ bytes.drop k := by
  rw [← List.drop_drop]
  exact List.drop_suffix 1 _

theorem map_token_word (plain : ∀ byte ∈ word, isWild byte = false) :
    (word ++ pattern).map token = word.map Wildcard.literal ++ pattern.map token := by
  rw [List.map_append]
  congr 1
  exact List.map_congr_left fun byte mem => token_literal (plain byte mem)

theorem Accepts.rest (fits : Fits pattern name s) (accepts : Accepts pattern name s) :
    ∃ rest, rest <:+ name.drop s.j ∧ Matches (pattern.drop s.i) rest := by
  rcases accepts with here | ⟨index, mark, passed, b, here, inName, longer⟩ | later
  · exact ⟨_, List.suffix_refl _, here⟩
  · obtain ⟨-, -, word, plain, inPattern, inWord⟩ := fits.percent index mark passed
    rw [inPattern] at longer
    unfold Matches at longer
    rw [List.map_cons, map_token_word plain] at longer
    exact longer.after_word (inName.symm.trans inWord)
  · exact fits.kept later

theorem StarGoesOn.of_eq (star : s'.star = s.star) (later : StarGoesOn pattern name s') :
    StarGoesOn pattern name s := by
  obtain ⟨index, mark, found, more⟩ := later
  exact ⟨index, mark, star ▸ found, more⟩

theorem rest_of_starGoesOn (star : s.star = some (index, mark))
    (later : StarGoesOn pattern name s) :
    ∃ rest, rest <:+ name.drop (mark + 1) ∧ Matches (pattern.drop (index + 1)) rest := by
  obtain ⟨index', mark', found, more⟩ := later
  obtain ⟨rfl, rfl⟩ := Prod.mk.inj (Option.some.inj (star.symm.trans found))
  exact more

theorem next_fits (fits : Fits pattern name s) (next : Next pattern name s (.inl s')) :
    Fits pattern name s' := by
  cases next with
  | many inPattern more =>
    refine ⟨lt_length_of_drop inPattern, fits.inName, ?_, (fun _ _ found => by cases found),
      (fun _ _ _ _ _ found => by cases found), ?_, (fun _ _ _ found => by cases found)⟩
    · intro index mark found
      obtain ⟨rfl, rfl⟩ := Prod.mk.inj (Option.some.inj found)
      exact ⟨Nat.lt_succ_self _, Nat.le_refl _⟩
    · intro later
      obtain ⟨rest, ends, found⟩ := rest_of_starGoesOn rfl later
      exact ⟨rest, ends.trans (drop_succ_suffix _ _), found⟩
  | segment onward inPattern =>
    have kept (later : StarGoesOn pattern name s) : ∃ rest, rest <:+ name.drop s.j ∧
        Matches (pattern.drop (s.i + 1)) rest := by
      obtain ⟨rest, ends, found⟩ := fits.kept later
      rw [inPattern] at found
      obtain ⟨tail, shorter, found⟩ := found.tail
      exact ⟨tail, shorter.trans ends, found⟩
    refine ⟨lt_length_of_drop inPattern, fits.inName, ?_, ?_, ?_,
      fun later => kept (later.of_eq rfl), ?_⟩
    · intro index mark found
      have behind := fits.star index mark found
      exact ⟨Nat.lt_succ_of_lt behind.1, behind.2⟩
    · intro index mark found
      obtain ⟨rfl, rfl⟩ := Prod.mk.inj (Option.some.inj found)
      exact ⟨Nat.lt_succ_self _, Nat.le_refl _, [], by simp, rfl, rfl⟩
    · intro index mark index' mark' star found
      obtain ⟨rfl, rfl⟩ := Prod.mk.inj (Option.some.inj found)
      exact fits.star index mark star
    · intro later index mark found
      obtain ⟨rfl, rfl⟩ := Prod.mk.inj (Option.some.inj found)
      exact kept (later.of_eq rfl)
  | @one byte onward plain inPattern inName =>
    refine ⟨lt_length_of_drop inPattern, lt_length_of_drop inName, ?_, ?_, fits.order, ?_,
      fun later => fits.keptPercent (later.of_eq rfl)⟩
    · intro index mark found
      have behind := fits.star index mark found
      exact ⟨Nat.lt_succ_of_lt behind.1, Nat.le_succ_of_le behind.2⟩
    · intro index mark found
      obtain ⟨before, behind, word, letters, wordInPattern, wordInName⟩ :=
        fits.percent index mark found
      refine ⟨Nat.lt_succ_of_lt before, Nat.le_succ_of_le behind, word ++ [byte], ?_, ?_, ?_⟩
      · intro b mem
        rcases List.mem_append.mp mem with mem | mem
        · exact letters b mem
        · rw [List.mem_singleton.mp mem]
          exact plain
      · rw [wordInPattern, inPattern, List.append_assoc, List.singleton_append]
      · rw [wordInName, inName, List.append_assoc, List.singleton_append]
    · intro later
      obtain ⟨rest, ends, found⟩ := fits.kept (later.of_eq rfl)
      rw [inPattern] at found
      cases rest with
      | nil =>
        rw [matches_end, List.all_cons, plain] at found
        exact absurd found (by simp)
      | cons b rest =>
        obtain ⟨rfl, matched⟩ := (matches_literal plain).mp found
        refine ⟨rest, ?_, matched⟩
        rw [inName] at ends
        rcases List.suffix_cons_iff.mp ends with whole | ends
        · rw [(List.cons.inj whole).2]
        · exact (List.suffix_cons _ _).trans ends
  | @longer index mark b apart passed here inName =>
    obtain ⟨before, behind, word, letters, wordInPattern, wordInName⟩ :=
      fits.percent index mark passed
    have inside := fits.inPattern
    -- to its mark the percent sign does not stand for enough
    have kept (later : StarGoesOn pattern name s) : ∃ rest, rest <:+ name.drop (mark + 1) ∧
        Matches (pattern.drop (index + 1)) rest := by
      obtain ⟨rest, ends, found⟩ := fits.keptPercent later index mark passed
      refine ⟨rest, ?_, found⟩
      rw [inName] at ends
      rcases List.suffix_cons_iff.mp ends with whole | ends
      · rw [whole, ← inName, wordInPattern, wordInName, matches_word letters] at found
        obtain ⟨rest', eq, found⟩ := found
        rw [List.append_cancel_left eq] at apart
        exact absurd found apart
      · exact ends
    refine ⟨?_, lt_length_of_drop inName, ?_, ?_, ?_, fun later => kept (later.of_eq rfl), ?_⟩
    · show index + 1 ≤ pattern.length
      omega
    · intro starIndex starMark star
      have order := fits.order starIndex starMark index mark star passed
      exact ⟨Nat.lt_succ_of_lt order.1, Nat.le_succ_of_le order.2⟩
    · intro index' mark' found
      obtain ⟨rfl, rfl⟩ := Prod.mk.inj (Option.some.inj found)
      exact ⟨Nat.lt_succ_self _, Nat.le_refl _, [], by simp, rfl, rfl⟩
    · intro starIndex starMark index' mark' star found
      obtain ⟨rfl, rfl⟩ := Prod.mk.inj (Option.some.inj found)
      have order := fits.order starIndex starMark index mark star passed
      exact ⟨order.1, Nat.le_succ_of_le order.2⟩
    · intro later index' mark' found
      obtain ⟨rfl, rfl⟩ := Prod.mk.inj (Option.some.inj found)
      exact kept (later.of_eq rfl)
  | forget stuck passed ends =>
    exact ⟨fits.inPattern, fits.inName, fits.star, (fun _ _ found => by cases found),
      (fun _ _ _ _ _ found => by cases found), fun later => fits.kept (later.of_eq rfl),
        (fun _ _ _ found => by cases found)⟩
  | @back index mark apart fresh passed more =>
    have behind := fits.star index mark passed
    have inside := fits.inPattern
    refine ⟨?_, more, ?_, (fun _ _ found => by cases found),
      (fun _ _ _ _ _ found => by cases found), ?_, (fun _ _ _ found => by cases found)⟩
    · show index + 1 ≤ pattern.length
      omega
    · intro index' mark' found
      obtain ⟨rfl, rfl⟩ := Prod.mk.inj (Option.some.inj found)
      exact ⟨Nat.lt_succ_self _, Nat.le_refl _⟩
    · intro later
      obtain ⟨rest, ends, found⟩ := rest_of_starGoesOn rfl later
      exact ⟨rest, ends.trans (drop_succ_suffix _ _), found⟩

theorem rest_or_more (star : s'.star = some (index, mark))
    (more : mark < name.length)
    (h : ∃ rest, rest <:+ name.drop mark ∧ Matches (pattern.drop (index + 1)) rest) :
    Matches (pattern.drop (index + 1)) (name.drop mark) ∨ StarGoesOn pattern name s' := by
  obtain ⟨rest, ends, found⟩ := h
  rw [List.drop_eq_getElem_cons more] at ends ⊢
  rcases List.suffix_cons_iff.mp ends with rfl | ends
  · exact .inl found
  · exact .inr ⟨index, mark, star, rest, ends, found⟩

theorem PercentGoesOn.skip (fits : Fits pattern name s)
    (inPattern : pattern.drop s.i = percentSign :: pattern.drop (s.i + 1))
    (later : PercentGoesOn pattern name s) :
    Matches (percentSign :: pattern.drop (s.i + 1)) (name.drop s.j) := by
  obtain ⟨index, mark, passed, b, here, inName, longer⟩ := later
  obtain ⟨-, -, word, plain, wordInPattern, wordInName⟩ := fits.percent index mark passed
  rw [wordInPattern, inPattern] at longer
  unfold Matches at longer
  rw [List.map_cons, map_token_word plain, List.map_cons, token_percentSign] at longer
  exact longer.skip (decide_eq_true here) (inName.symm.trans wordInName)

theorem next_accepts (fits : Fits pattern name s) (next : Next pattern name s (.inl s')) :
    Accepts pattern name s' ↔ Accepts pattern name s := by
  cases next with
  | many inPattern more =>
    have here : Matches (pattern.drop s.i) (name.drop s.j) ↔
        ∃ rest, rest <:+ name.drop s.j ∧ Matches (pattern.drop (s.i + 1)) rest := by
      rw [inPattern]
      exact matches_asterisk
    constructor
    · rintro (now | ⟨_, _, found, -⟩ | later)
      · exact .inl (here.mpr ⟨_, List.suffix_refl _, now⟩)
      · cases found
      · obtain ⟨rest, ends, found⟩ := rest_of_starGoesOn rfl later
        exact .inl (here.mpr ⟨rest, ends.trans (drop_succ_suffix _ _), found⟩)
    · intro accepts
      obtain ⟨rest, ends, found⟩ := accepts.rest fits
      rw [inPattern] at found
      have whole : Matches (asterisk :: pattern.drop (s.i + 1)) (name.drop s.j) :=
        Wildcard.Matches.of_suffix found ends
      exact (rest_or_more rfl more (matches_asterisk.mp whole)).imp id .inr
  | segment onward inPattern =>
    constructor
    · rintro (now | ⟨index, mark, found, b, here, inName, longer⟩ | later)
      · refine .inl ?_
        rw [inPattern]
        exact matches_percentSign_of_rest now
      · obtain ⟨rfl, rfl⟩ := Prod.mk.inj (Option.some.inj found)
        refine .inl ?_
        rw [inPattern, inName]
        exact matches_percentSign_cons.mpr (.inr ⟨here, longer⟩)
      · exact .inr (.inr (later.of_eq rfl))
    · intro accepts
      have split : Matches (percentSign :: pattern.drop (s.i + 1)) (name.drop s.j) ∨
          StarGoesOn pattern name s := by
        rcases accepts with now | longer | later
        · exact .inl (inPattern ▸ now)
        · exact .inl (longer.skip fits inPattern)
        · exact .inr later
      rcases split with now | later
      · by_cases more : s.j < name.length
        · have inName := List.drop_eq_getElem_cons more
          rw [inName] at now
          rcases matches_percentSign_cons.mp now with now | ⟨here, longer⟩
          · exact .inl (inName ▸ now)
          · exact .inr (.inl ⟨s.i, s.j, rfl, _, here, inName, longer⟩)
        · rw [List.drop_eq_nil_of_le (Nat.not_lt.mp more)] at now
          refine .inl ?_
          show Matches (pattern.drop (s.i + 1)) (name.drop s.j)
          rw [List.drop_eq_nil_of_le (Nat.not_lt.mp more)]
          exact Wildcard.matches_many_nil.mp now
      · exact .inr (.inr (later.of_eq rfl))
  | @one byte onward plain inPattern inName =>
    have here : Matches (pattern.drop s.i) (name.drop s.j) ↔
        Matches (pattern.drop (s.i + 1)) (name.drop (s.j + 1)) := by
      rw [inPattern, inName, matches_literal plain]
      exact and_iff_right rfl
    exact or_congr here.symm Iff.rfl
  | @longer index mark b apart passed here inName =>
    have percent : PercentGoesOn pattern name s ↔
        Matches (percentSign :: pattern.drop (index + 1)) (name.drop (mark + 1)) := by
      constructor
      · rintro ⟨index', mark', found, -, -, -, longer⟩
        obtain ⟨rfl, rfl⟩ := Prod.mk.inj (Option.some.inj (passed.symm.trans found))
        exact longer
      · exact fun longer => ⟨index, mark, passed, b, here, inName, longer⟩
    constructor
    · rintro (now | ⟨index', mark', found, b', here', inName', longer⟩ | later)
      · exact .inr (.inl (percent.mpr (matches_percentSign_of_rest now)))
      · obtain ⟨rfl, rfl⟩ := Prod.mk.inj (Option.some.inj found)
        refine .inr (.inl (percent.mpr ?_))
        rw [inName']
        exact matches_percentSign_cons.mpr (.inr ⟨here', longer⟩)
      · exact .inr (.inr (later.of_eq rfl))
    · rintro (now | longer | later)
      · exact absurd now apart
      · have longer := percent.mp longer
        by_cases more : mark + 1 < name.length
        · have inName' := List.drop_eq_getElem_cons more
          rw [inName'] at longer
          rcases matches_percentSign_cons.mp longer with now | ⟨here', longer⟩
          · exact .inl (inName' ▸ now)
          · exact .inr (.inl ⟨index, mark + 1, rfl, _, here', inName', longer⟩)
        · have used := List.drop_eq_nil_of_le (Nat.not_lt.mp more)
          rw [used] at longer
          refine .inl ?_
          show Matches (pattern.drop (index + 1)) (name.drop (mark + 1))
          rw [used]
          exact Wildcard.matches_many_nil.mp longer
      · exact .inr (.inr (later.of_eq rfl))
  | forget stuck passed ends =>
    constructor
    · rintro (now | ⟨_, _, found, -⟩ | later)
      · exact .inl now
      · cases found
      · exact .inr (.inr (later.of_eq rfl))
    · rintro (now | longer | later)
      · exact .inl now
      · exact absurd longer ends
      · exact .inr (.inr (later.of_eq rfl))
  | @back index mark apart fresh passed more =>
    constructor
    · rintro (now | ⟨_, _, found, -⟩ | later)
      · exact .inr (.inr ⟨index, mark, passed, _, List.suffix_refl _, now⟩)
      · cases found
      · obtain ⟨rest, ends, found⟩ := rest_of_starGoesOn rfl later
        exact .inr (.inr ⟨index, mark, passed, rest, ends.trans (drop_succ_suffix _ _), found⟩)
    · rintro (now | ⟨_, _, found, -⟩ | later)
      · exact absurd now apart
      · rw [fresh] at found
        cases found
      · have rest := rest_of_starGoesOn passed later
        by_cases more' : mark + 1 < name.length
        · exact (rest_or_more rfl more' rest).imp id .inr
        · obtain ⟨rest, ends, found⟩ := rest
          have used := List.drop_eq_nil_of_le (Nat.not_lt.mp more')
          rw [used, List.suffix_nil] at ends
          refine .inl ?_
          show Matches (pattern.drop (index + 1)) (name.drop (mark + 1))
          rw [used, ← ends]
          exact found

theorem accepts_of_ends {answer : Bool} (fits : Fits pattern name s)
    (next : Next pattern name s (.inr answer)) :
    answer = true ↔ Accepts pattern name s := by
  cases next with
  | stop apart fresh ends more =>
    refine ⟨(fun h => by cases h), ?_⟩
    rintro (now | ⟨_, _, found, -⟩ | ⟨index, mark, found, -⟩)
    · exact absurd now apart
    · rw [fresh] at found
      cases found
    · have behind := (fits.star index mark found).2
      have passed := ends index mark found
      omega
  | finish all =>
    have used : name.drop s.j = [] := List.drop_eq_nil_of_le all
    have here : rest pattern s.i = true ↔ Matches (pattern.drop s.i) (name.drop s.j) := by
      rw [used, matches_end]
      rfl
    refine here.trans ⟨.inl, fun accepts => ?_⟩
    obtain ⟨tail, ends, found⟩ := accepts.rest fits
    rw [used] at ends ⊢
    rwa [List.suffix_nil.mp ends] at found

theorem fits_start (pattern name : List UInt8) : Fits pattern name start := by
  refine ⟨Nat.zero_le _, Nat.zero_le _, (fun _ _ found => by cases found),
    (fun _ _ found => by cases found), (fun _ _ _ _ found => by cases found), ?_,
    (fun _ _ _ found => by cases found)⟩
  rintro ⟨_, _, found, -⟩
  cases found

theorem step_lowers (pattern name : List UInt8) :
    Lowers (step pattern name) (measure pattern name) (Fits pattern name) := by
  intro s s' fits goes
  have next := step_next pattern name s
  rw [goes] at next
  exact ⟨next_fits fits next, measure_lt fits next⟩

theorem loop_iff (pattern name : List UInt8) :
    loop (step pattern name) false (measure pattern name) start = true ↔ Matches pattern name := by
  have spec := @loop_spec _ _ _ _ _ false (step_lowers pattern name)
    (fun s answer => answer = true ↔ Accepts pattern name s)
    (fun s answer fits ends => ?_) (fun s s' answer fits goes later => ?_) _
    (fits_start pattern name)
  · refine spec.trans ⟨?_, .inl⟩
    rintro (now | ⟨_, _, found, -⟩ | ⟨_, _, found, -⟩)
    · exact now
    · cases found
    · cases found
  · have next := step_next pattern name s
    rw [ends] at next
    exact accepts_of_ends fits next
  · have next := step_next pattern name s
    rw [goes] at next
    exact later.trans (next_accepts fits next)

/-- The steps from the beginning of a pattern with a wildcard and a name end, and their answer says
whether the name is what the pattern stands for. -/
theorem matchesPattern_iff (pattern name : String)
    (wild : pattern.toList.any (fun c => c = '*' || c = '%') = true) :
    LoopRuns (step (bytes pattern) (bytes name)) start (matchesPattern pattern name) ∧
      (matchesPattern pattern name = true ↔ Matches (bytes pattern) (bytes name)) := by
  rw [matchesPattern, wild, Bool.not_true, if_neg Bool.false_ne_true]
  exact ⟨loop_runs false (step_lowers _ _) (fits_start _ _), loop_iff _ _⟩

/-- The percent sign is given up for the asterisk before it. -/
theorem matchesPattern_iff_mixed :
    "*.%.x".toList.any (fun c => c = '*' || c = '%') = true ∧
      matchesPattern "*.%.x" "a.b.c.x" = true ∧ Matches (bytes "*.%.x") (bytes "a.b.c.x") := by
  have wild : "*.%.x".toList.any (fun c => c = '*' || c = '%') = true := by decide +kernel
  have answer : matchesPattern "*.%.x" "a.b.c.x" = true := by decide +kernel
  exact ⟨wild, answer, (matchesPattern_iff "*.%.x" "a.b.c.x" wild).2.mp answer⟩

end MailStack.Imap.ListPattern
