import MailStack.Imap.Untagged

/-! What a set of message numbers stands for. The parser gives `*` the largest number there is, so
it cannot tell the two apart. -/

namespace MailStack.Imap.SequenceSet

open Lib Maildir

/-! ### Elements -/

/-- One of the two bounds of an element. -/
inductive Bound
  | number (n : Nat)
  | star

def Bound.value (largest : Nat) : Bound → Nat
  | .number n => n
  | .star => largest

def decimal (text : String) : Nat :=
  text.toList.foldl (fun n c => 10 * n + (c.toNat - '0'.toNat)) 0

def readBound (text : String) : Bound :=
  if trim text = "*" then .star else .number (decimal (trim text))

/-- The two bounds of an element, which are the same where it is no range. -/
def readElement (text : String) : Bound × Bound :=
  match splitOnce ':' (trim text) with
  | some (left, right) => (readBound left, readBound right)
  | none => (readBound text, readBound text)

def elements (text : String) : List (Bound × Bound) :=
  ((trim text).toList.splitOn ',').map fun element => readElement (String.ofList element)

/-- The element covers the value, in whichever order its bounds are written. -/
def Covers (element : Bound × Bound) (value largest : Nat) : Prop :=
  min (element.1.value largest) (element.2.value largest) ≤ value ∧
    value ≤ max (element.1.value largest) (element.2.value largest)

instance (element : Bound × Bound) (value largest : Nat) :
    Decidable (Covers element value largest) :=
  inferInstanceAs (Decidable (_ ∧ _))

/-- Numbers above the largest one of the mailbox, of which one is that to which `*` is parsed. -/
def Astray (element : Bound × Bound) (largest : Nat) : Prop :=
  ∃ a b, element = (.number a, .number b) ∧ largest < a ∧ largest < b ∧
    (a = Imap.star ∨ b = Imap.star)

/-! ### The parser -/

def Bound.parsed : Bound → Nat
  | .number n => n
  | .star => Imap.star

variable {text input : String} {range : SeqRange} {value largest n : Nat} {count : Nat}

theorem parseUnsigned_digits {top : Nat} (digits : text.toList.all Char.isDigit = true)
    (h : parseUnsigned top text = some n) : n = decimal text := by
  have noSign : text.toList.head? ≠ some '+' := by
    intro sign
    exact absurd (List.all_eq_true.mp digits '+' (List.mem_of_head? sign)) (by decide)
  simp only [parseUnsigned, if_neg noSign] at h
  split at h
  · cases h
  split at h
  · exact (Option.some.inj h).symm
  · cases h

theorem parseNumber_ok (h : parseNumber text = .ok n) :
    n = (readBound text).parsed ∧ 0 < n ∧ n ≤ u32Max := by
  unfold parseNumber readBound at *
  by_cases isStar : trim text = "*"
  · rw [if_pos isStar] at h ⊢
    obtain rfl := Except.ok.inj h
    exact ⟨rfl, by decide, Nat.le_refl _⟩
  rw [if_neg isStar] at h ⊢
  split at h
  · cases h
  · rename_i digits
    have all : (trim text).toList.all Char.isDigit = true := by
      cases eq : (trim text).toList.all Char.isDigit with
      | true => rfl
      | false => simp [eq] at digits
    split at h
    · cases h
    · cases h
    · rename_i nonzero parsed
      obtain rfl := Except.ok.inj h
      refine ⟨parseUnsigned_digits all parsed, Nat.pos_of_ne_zero ?_, parseUnsigned_le parsed⟩
      rintro rfl
      exact nonzero rfl

def ordered (a b : Nat) : SeqRange := if a ≤ b then ⟨a, b⟩ else ⟨b, a⟩

theorem parseElement_ok (h : parseElement (trim text) = .ok range) :
    range = ordered (readElement text).1.parsed (readElement text).2.parsed ∧
      (0 < (readElement text).1.parsed ∧ (readElement text).1.parsed ≤ u32Max) ∧
      (0 < (readElement text).2.parsed ∧ (readElement text).2.parsed ≤ u32Max) := by
  unfold parseElement readElement at *
  cases split : splitOnce ':' (trim text) with
  | some parts =>
    obtain ⟨left, right⟩ := parts
    simp only [split] at h ⊢
    cases first : parseNumber left with
    | error error => simp [first] at h
    | ok a =>
      cases second : parseNumber right with
      | error error => simp [first, second] at h
      | ok b =>
        obtain ⟨eqA, low, high⟩ := parseNumber_ok first
        obtain ⟨eqB, low', high'⟩ := parseNumber_ok second
        simp only [first, second] at h
        have eq := Except.ok.inj h
        rw [← eqA, ← eqB]
        refine ⟨?_, ⟨low, high⟩, low', high'⟩
        rw [ordered, eq]
  | none =>
    simp only [split] at h ⊢
    cases first : parseNumber (trim text) with
    | error error => simp [first] at h
    | ok a =>
      obtain ⟨eq, low, high⟩ := parseNumber_ok first
      have same : readBound (trim text) = readBound text := by
        unfold readBound
        rw [trim_trim]
      rw [same] at eq
      simp only [first] at h
      have both := Except.ok.inj h
      rw [← eq]
      refine ⟨?_, ⟨low, high⟩, low, high⟩
      rw [ordered, if_pos (Nat.le_refl _), both]

theorem parseElements_ok {texts : List String} {ranges : List SeqRange}
    (h : parseElements input count texts = .ok ranges) :
    List.Forall₂ (fun text range => parseElement (trim text) = .ok range) texts ranges := by
  induction texts generalizing count ranges with
  | nil =>
    obtain rfl := Except.ok.inj h
    exact .nil
  | cons text texts ih =>
    unfold parseElements at h
    split at h
    · cases h
    split at h
    · cases h
    rename_i range here
    split at h
    · cases h
    split at h
    · cases h
    rename_i ranges later
    obtain rfl := Except.ok.inj h
    exact .cons here (ih later)

variable {set : SequenceSet}

theorem parse_ok (h : parse text = .ok set) :
    List.Forall₂ (fun part range => parseElement (trim (String.ofList part)) = .ok range)
      ((trim text).toList.splitOn ',') set.ranges := by
  unfold parse at h
  dsimp only at h
  split at h
  · cases h
  split at h
  · cases h
  split at h
  · cases h
  rename_i ranges parsed
  obtain rfl := Except.ok.inj h
  exact List.forall₂_map_left_iff.mp (parseElements_ok parsed)

/-! ### What is contained -/

/-- The value is between the bounds of the range, once `*` is the largest number. -/
def Inside (range : SeqRange) (value largest : Nat) : Prop :=
  min (resolve range.first largest) (resolve range.last largest) ≤ value ∧
    value ≤ max (resolve range.first largest) (resolve range.last largest)

theorem contains_iff :
    contains set value largest = true ↔
      largest ≠ 0 ∧ ∃ range ∈ set.ranges, Inside range value largest := by
  unfold contains
  by_cases none : largest = 0
  · simp [none]
  · rw [if_neg none, List.any_eq_true]
    refine Iff.trans (exists_congr fun range => and_congr_right fun _ => ?_)
      (and_iff_right none).symm
    unfold Inside
    dsimp only
    split_ifs with order
    · rw [Bool.and_eq_true, decide_eq_true_eq, decide_eq_true_eq, min_eq_left order,
        max_eq_right order]
    · have order := (Nat.not_le.mp order).le
      rw [Bool.and_eq_true, decide_eq_true_eq, decide_eq_true_eq, min_eq_right order,
        max_eq_left order]

theorem resolve_number (n largest : Nat) :
    n = Imap.star ∧ resolve n largest = largest ∨ n ≠ Imap.star ∧ resolve n largest = n := by
  unfold resolve
  by_cases isStar : n = Imap.star
  · exact .inl ⟨isStar, if_pos isStar⟩
  · exact .inr ⟨isStar, if_neg isStar⟩

/-- What the parser keeps of an element stands for more than the element where this is astray, and
then for the largest number. -/
theorem inside_ordered {element : Bound × Bound} (inside : value ≤ largest)
    (most : largest ≤ u32Max) (first : element.1.parsed ≤ u32Max)
    (last : element.2.parsed ≤ u32Max) :
    Inside (ordered element.1.parsed element.2.parsed) value largest ↔
      Covers element value largest ∨ Astray element largest ∧ value = largest := by
  have order : Inside (ordered element.1.parsed element.2.parsed) value largest ↔
      min (resolve element.1.parsed largest) (resolve element.2.parsed largest) ≤ value ∧
        value ≤ max (resolve element.1.parsed largest) (resolve element.2.parsed largest) := by
    unfold Inside ordered
    split_ifs
    · exact Iff.rfl
    · rw [min_comm, max_comm]
  rw [order]
  clear order
  obtain ⟨a, b⟩ := element
  have top : Imap.star = u32Max := rfl
  have all : resolve Imap.star largest = largest := if_pos rfl
  cases a with
  | number a =>
    have first : a ≤ u32Max := first
    cases b with
    | number b =>
      have last : b ≤ u32Max := last
      have astray : Astray (.number a, .number b) largest ↔
          largest < a ∧ largest < b ∧ (a = Imap.star ∨ b = Imap.star) := by
        constructor
        · rintro ⟨a', b', eq, h⟩
          obtain ⟨eqA, eqB⟩ := Prod.mk.inj eq
          rw [Bound.number.inj eqA, Bound.number.inj eqB]
          exact h
        · exact fun h => ⟨a, b, rfl, h⟩
      rw [astray]
      show min (resolve a largest) (resolve b largest) ≤ value ∧
        value ≤ max (resolve a largest) (resolve b largest) ↔
        (min a b ≤ value ∧ value ≤ max a b) ∨ _
      rcases resolve_number a largest with ⟨eqA, same⟩ | ⟨neA, same⟩ <;>
        rcases resolve_number b largest with ⟨eqB, same'⟩ | ⟨neB, same'⟩ <;>
        · rw [same, same']
          omega
    | star =>
      show min (resolve a largest) (resolve Imap.star largest) ≤ value ∧
        value ≤ max (resolve a largest) (resolve Imap.star largest) ↔
        (min a largest ≤ value ∧ value ≤ max a largest) ∨ _
      rw [all]
      rcases resolve_number a largest with ⟨eqA, same⟩ | ⟨neA, same⟩ <;>
        · rw [same]
          omega
  | star =>
    cases b with
    | number b =>
      show min (resolve Imap.star largest) (resolve b largest) ≤ value ∧
        value ≤ max (resolve Imap.star largest) (resolve b largest) ↔
        (min largest b ≤ value ∧ value ≤ max largest b) ∨ _
      rw [all]
      rcases resolve_number b largest with ⟨eqB, same⟩ | ⟨neB, same⟩ <;>
        · rw [same]
          omega
    | star =>
      show min (resolve Imap.star largest) (resolve Imap.star largest) ≤ value ∧
        value ≤ max (resolve Imap.star largest) (resolve Imap.star largest) ↔
        (min largest largest ≤ value ∧ value ≤ max largest largest) ∨ _
      rw [all]
      omega

/-- A set contains what an element of its text covers, and the largest number where an element is
astray. -/
theorem contains_parse (parsed : parse text = .ok set) (positive : 1 ≤ value)
    (inside : value ≤ largest) (most : largest ≤ u32Max) :
    contains set value largest = true ↔
      ∃ element ∈ elements text, Covers element value largest ∨ Astray element largest ∧
        value = largest := by
  have one (part : List Char) (range : SeqRange)
      (h : parseElement (trim (String.ofList part)) = .ok range) :
      Inside range value largest ↔ Covers (readElement (String.ofList part)) value largest ∨
        Astray (readElement (String.ofList part)) largest ∧ value = largest := by
    obtain ⟨eq, first, last⟩ := parseElement_ok h
    rw [eq]
    exact inside_ordered inside most first.2 last.2
  have some : largest ≠ 0 := by omega
  rw [contains_iff, and_iff_right some, elements]
  have parts := parse_ok parsed
  generalize (trim text).toList.splitOn ',' = texts at parts
  generalize set.ranges = ranges at parts
  induction parts with
  | nil => simp
  | @cons part range texts ranges here later ih =>
    rw [List.map_cons, List.exists_mem_cons_iff, List.exists_mem_cons_iff, one part range here]
    exact or_congr Iff.rfl ih

/-! ### Sets that are written -/

def ofRun (run : Nat × Nat) : SeqRange := ⟨run.1, run.2⟩

variable {values : List Nat}

theorem run_ordered {start stop : Nat} {rest : List Nat} (le : start ≤ stop)
    (ascending : (stop :: rest).Pairwise (· < ·)) :
    ∀ run ∈ runs start stop rest, run.1 ≤ run.2 := by
  induction rest generalizing start stop with
  | nil =>
    intro run mem
    rw [List.mem_singleton.mp mem]
    exact le
  | cons next rest ih =>
    have less : stop < next := (List.pairwise_cons.mp ascending).1 next List.mem_cons_self
    have later := (List.pairwise_cons.mp ascending).2
    unfold runs
    split_ifs
    · exact ih (le.trans less.le) later
    · intro run mem
      rcases List.mem_cons.mp mem with rfl | mem
      · exact le
      · exact ih (Nat.le_refl next) later run mem

theorem rangesOf_ordered (values : List Nat) : ∀ run ∈ rangesOf values, run.1 ≤ run.2 := by
  have ascending := sorted_ascending values
  unfold rangesOf
  cases eq : sorted values with
  | nil => exact List.forall_mem_nil _
  | cons first rest =>
    rw [eq] at ascending
    exact run_ordered (Nat.le_refl first) ascending

variable {run : Nat × Nat}

theorem mem_of_rangesOf (mem : run ∈ rangesOf values) (low : run.1 ≤ n)
    (high : n ≤ run.2) : n ∈ values := by
  refine (covers_rangesOf values n).mp (List.any_eq_true.mpr ⟨run, mem, ?_⟩)
  rw [Bool.and_eq_true, decide_eq_true_eq, decide_eq_true_eq]
  exact ⟨low, high⟩

theorem exists_run (mem : n ∈ values) : ∃ run ∈ rangesOf values, run.1 ≤ n ∧ n ≤ run.2 := by
  obtain ⟨run, inside, here⟩ := List.any_eq_true.mp ((covers_rangesOf values n).mpr mem)
  rw [Bool.and_eq_true, decide_eq_true_eq, decide_eq_true_eq] at here
  exact ⟨run, inside, here⟩

/-- A number or a range as `fromValues` writes them. -/
def IsNumeral (text : String) : Prop := text.toList ≠ [] ∧ ∀ c ∈ text.toList, c.isDigit = true

theorem isNumeral_toString (n : Nat) : IsNumeral (toString n) :=
  ⟨by simp, fun _ => isDigit_of_mem_toString⟩

variable {c : Char}

theorem visible_of_isDigit (digit : c.isDigit = true) : isWhitespace c = false := by
  have range := isAlphanum_range (c := c) (by rw [Char.isAlphanum, digit, Bool.or_true])
  exact isWhitespace_eq_false ⟨by omega, by omega⟩

theorem IsNumeral.trim (h : IsNumeral text) : trim text = text :=
  trim_visible fun c mem => visible_of_isDigit (h.2 c mem)

theorem parseNumber_toString (positive : 0 < n) (most : n ≤ u32Max) :
    parseNumber (toString n) = .ok n := by
  have numeral := isNumeral_toString n
  have notStar : toString n ≠ "*" := by
    intro eq
    have digit := numeral.2 '*' (by rw [eq]; decide)
    cases digit
  have some : (toString n).isEmpty = false := by
    rw [← Bool.not_eq_true, String.isEmpty_iff]
    intro eq
    exact numeral.1 (by rw [eq]; rfl)
  have digits : (toString n).toList.all Char.isDigit = true := List.all_eq_true.mpr numeral.2
  unfold parseNumber
  rw [numeral.trim, if_neg notStar, some, digits, parseUnsigned_toString most]
  obtain ⟨m, rfl⟩ := Nat.exists_eq_succ_of_ne_zero positive.ne'
  rfl

theorem mem_renderRun (mem : c ∈ (renderRun run).toList) :
    c.isDigit = true ∨ c = ':' := by
  unfold renderRun at mem
  split at mem
  · exact .inl (isDigit_of_mem_toString mem)
  · rw [String.toList_append, String.toList_append] at mem
    rcases List.mem_append.mp mem with mem | mem
    · rcases List.mem_append.mp mem with mem | mem
      · exact .inl (isDigit_of_mem_toString mem)
      · exact .inr (List.mem_singleton.mp mem)
    · exact .inl (isDigit_of_mem_toString mem)

theorem visible_of_mem_renderRun (mem : c ∈ (renderRun run).toList) :
    isWhitespace c = false := by
  rcases mem_renderRun mem with digit | rfl
  · exact visible_of_isDigit digit
  · decide

theorem renderRun_ne_nil (run : Nat × Nat) : (renderRun run).toList ≠ [] := by
  unfold renderRun
  split
  · exact (isNumeral_toString _).1
  · rw [String.toList_append, String.toList_append]
    simp

theorem parseElement_renderRun (positive : 0 < run.1) (order : run.1 ≤ run.2)
    (most : run.2 ≤ u32Max) : parseElement (renderRun run) = .ok (ofRun run) := by
  have noColon (n : Nat) : ':' ∉ (toString n).toList := by
    intro mem
    have digit := isDigit_of_mem_toString mem
    cases digit
  unfold parseElement renderRun
  by_cases same : run.1 = run.2
  · have whole : splitOnce ':' (toString run.1) = none := by
      rw [Option.eq_none_iff_forall_not_mem]
      rintro ⟨before, after⟩ split
      have mem := (splitOnce_eq_some split).1
      refine noColon run.1 ?_
      rw [mem]
      simp
    rw [if_pos same, whole, parseNumber_toString positive (order.trans most), ofRun, ← same]
  · have split : splitOnce ':' (toString run.1 ++ ":" ++ toString run.2) =
        some (toString run.1, toString run.2) := by
      exact splitOnce_append (noColon run.1) (toString run.2)
    simp only [if_neg same, split, parseNumber_toString positive (order.trans most),
      parseNumber_toString (Nat.lt_of_lt_of_le positive order) most, if_pos order]
    rfl

theorem parseElements_renderRun {written : List (Nat × Nat)}
    (small : ∀ run ∈ written, 0 < run.1 ∧ run.1 ≤ run.2 ∧ run.2 ≤ u32Max)
    (below : count ≤ maxRanges) :
    parseElements input count (written.map renderRun) =
      if count + written.length ≤ maxRanges then .ok (written.map ofRun)
      else .error (.invalid "sequence set has too many ranges") := by
  induction written generalizing count with
  | nil => rw [List.length_nil, Nat.add_zero, if_pos below]; rfl
  | cons run written ih =>
    obtain ⟨positive, order, most⟩ := small run List.mem_cons_self
    have trimmed : trim (renderRun run) = renderRun run :=
      trim_visible fun c mem => visible_of_mem_renderRun mem
    have some : (renderRun run).isEmpty = false := by
      rw [← Bool.not_eq_true, String.isEmpty_iff]
      intro eq
      exact renderRun_ne_nil run (by rw [eq]; rfl)
    rw [List.map_cons, parseElements, trimmed, some, if_neg Bool.false_ne_true,
      parseElement_renderRun positive order most]
    by_cases full : count + 1 > maxRanges
    · have tooMany : ¬count + (run :: written).length ≤ maxRanges := by
        rw [List.length_cons]
        omega
      rw [if_neg tooMany]
      exact if_pos full
    · have ih := @ih (count + 1) (fun run mem => small run (List.mem_cons_of_mem _ mem)) (by omega)
      have shift : count + (run :: written).length = count + 1 + written.length := by
        rw [List.length_cons]
        omega
      dsimp only
      rw [if_neg full, ih, shift]
      by_cases fits : count + 1 + written.length ≤ maxRanges
      · rw [if_pos fits, if_pos fits]
        rfl
      · rw [if_neg fits, if_neg fits]

theorem rangesOf_small (small : ∀ n ∈ values, 0 < n ∧ n ≤ u32Max) :
    ∀ run ∈ rangesOf values, 0 < run.1 ∧ run.1 ≤ run.2 ∧ run.2 ≤ u32Max := by
  intro run mem
  have order := rangesOf_ordered values run mem
  have first := mem_of_rangesOf mem (Nat.le_refl _) order
  have last := mem_of_rangesOf mem order (Nat.le_refl _)
  exact ⟨(small _ first).1, order, (small _ last).2⟩

theorem rangesOf_eq_nil : rangesOf values = [] ↔ values = [] := by
  constructor
  · intro none
    refine List.eq_nil_iff_forall_not_mem.mpr fun n mem => ?_
    have covered := (covers_rangesOf values n).mpr mem
    rw [none] at covered
    cases covered
  · rintro rfl
    rw [rangesOf, sorted, List.dedup_nil, List.mergeSort_nil]

theorem parse_fromValues (small : ∀ n ∈ values, 0 < n ∧ n ≤ u32Max) :
    parse (fromValues values) =
      if values = [] then .error (.invalid "empty sequence set")
      else if (bytes (fromValues values)).length > maxInput then
        .error (.invalid "sequence set too long")
      else if (rangesOf values).length ≤ maxRanges then .ok ⟨(rangesOf values).map ofRun⟩
      else .error (.invalid "sequence set has too many ranges") := by
  have text := fromValues_eq values
  have chars : (fromValues values).toList =
      [','].intercalate ((rangesOf values).map fun run => (renderRun run).toList) := by
    rw [text, String.toList_intercalate, List.map_map]
    rfl
  have visible : ∀ c ∈ (fromValues values).toList, isWhitespace c = false := by
    intro c mem
    rw [chars] at mem
    rcases mem_intercalate mem with rfl | ⟨part, inside, mem⟩
    · decide
    · obtain ⟨run, -, rfl⟩ := List.mem_map.mp inside
      exact visible_of_mem_renderRun mem
  unfold parse
  rw [trim_visible visible]
  by_cases none : values = []
  · have nothing : fromValues [] = "" := by
      rw [fromValues, sorted, List.dedup_nil, List.mergeSort_nil]
    rw [if_pos none, none, nothing]
    rfl
  have runs_ne : (rangesOf values).map (fun run => (renderRun run).toList) ≠ [] := by
    rw [Ne, List.map_eq_nil_iff, rangesOf_eq_nil]
    exact none
  have noComma : ∀ part ∈ (rangesOf values).map (fun run => (renderRun run).toList),
      ',' ∉ part := by
    intro part mem comma
    obtain ⟨run, -, rfl⟩ := List.mem_map.mp mem
    rcases mem_renderRun comma with digit | colon
    · cases digit
    · cases colon
  have split : (fromValues values).toList.splitOn ',' =
      (rangesOf values).map fun run => (renderRun run).toList := by
    rw [chars, List.splitOn_intercalate ',' noComma runs_ne]
  have filled : (fromValues values).isEmpty = false := by
    rw [← Bool.not_eq_true, String.isEmpty_iff]
    intro nothing
    rw [nothing] at split
    have mem : ([] : List Char) ∈ (rangesOf values).map fun run => (renderRun run).toList := by
      rw [← split]
      exact List.mem_singleton.mpr rfl
    obtain ⟨run, -, eq⟩ := List.mem_map.mp mem
    exact renderRun_ne_nil run eq
  have parts : ((fromValues values).toList.splitOn ',').map String.ofList =
      (rangesOf values).map renderRun := by
    rw [split, List.map_map]
    refine List.map_congr_left fun run _ => ?_
    exact String.ofList_toList
  dsimp only
  rw [if_neg none, filled, if_neg Bool.false_ne_true, parts,
    parseElements_renderRun (rangesOf_small small) (Nat.zero_le _), Nat.zero_add]
  by_cases long : (bytes (fromValues values)).length > maxInput
  · rw [if_pos long, if_pos long]
  rw [if_neg long, if_neg long]
  by_cases fits : (rangesOf values).length ≤ maxRanges
  · rw [if_pos fits, if_pos fits]
  · rw [if_neg fits, if_neg fits]

theorem contains_ofRuns (small : ∀ n ∈ values, n < u32Max) :
    contains ⟨(rangesOf values).map ofRun⟩ value largest = true ↔ largest ≠ 0 ∧ value ∈ values := by
  rw [contains_iff]
  refine and_congr_right fun _ => Iff.trans ?_ (covers_rangesOf values value)
  have inside (run : Nat × Nat) (mem : run ∈ rangesOf values) :
      Inside (ofRun run) value largest ↔ (run.1 ≤ value && value ≤ run.2) = true := by
    have order := rangesOf_ordered values run mem
    have plain (n : Nat) (less : n < u32Max) : resolve n largest = n := if_neg (Nat.ne_of_lt less)
    have last := small _ (mem_of_rangesOf mem order (Nat.le_refl _))
    show min (resolve run.1 largest) (resolve run.2 largest) ≤ value ∧
      value ≤ max (resolve run.1 largest) (resolve run.2 largest) ↔ _
    rw [plain run.1 (Nat.lt_of_le_of_lt order last), plain run.2 last, min_eq_left order,
      max_eq_right order, Bool.and_eq_true, decide_eq_true_eq, decide_eq_true_eq]
  rw [covers, List.any_eq_true]
  constructor
  · rintro ⟨range, mapped, h⟩
    obtain ⟨run, mem, rfl⟩ := List.mem_map.mp mapped
    exact ⟨run, mem, (inside run mem).mp h⟩
  · rintro ⟨run, mem, h⟩
    exact ⟨ofRun run, List.mem_map_of_mem mem, (inside run mem).mpr h⟩

/-- A set that was written, with the largest number of all among its values, contains these and the
largest number of the mailbox. -/
theorem contains_ofRuns_star (small : ∀ n ∈ values, n ≤ u32Max) (inside : value ≤ largest)
    (most : largest ≤ u32Max) :
    contains ⟨(rangesOf values).map ofRun⟩ value largest = true ↔
      largest ≠ 0 ∧ (value ∈ values ∨ value = largest ∧ u32Max ∈ values) := by
  rw [contains_iff]
  refine and_congr_right fun _ => ?_
  have range (run : Nat × Nat) (mem : run ∈ rangesOf values) :
      Inside (ofRun run) value largest ↔ (run.1 ≤ value ∧ value ≤ run.2) ∨
        (largest < run.1 ∧ run.2 = u32Max) ∧ value = largest := by
    have order := rangesOf_ordered values run mem
    have last := small _ (mem_of_rangesOf mem order (Nat.le_refl _))
    have read := @inside_ordered value largest (.number run.1, .number run.2) inside most
      (order.trans last) last
    have same : ordered (Bound.number run.1).parsed (Bound.number run.2).parsed = ofRun run :=
      if_pos order
    rw [same] at read
    refine read.trans (or_congr ?_ (and_congr_left fun _ => ?_))
    · show min run.1 run.2 ≤ value ∧ value ≤ max run.1 run.2 ↔ _
      rw [min_eq_left order, max_eq_right order]
    · have top : Imap.star = u32Max := rfl
      constructor
      · rintro ⟨a, b, eq, low, high, isStar⟩
        obtain ⟨eqA, eqB⟩ := Prod.mk.inj eq
        obtain rfl := Bound.number.inj eqA
        obtain rfl := Bound.number.inj eqB
        omega
      · rintro ⟨low, isTop⟩
        exact ⟨run.1, run.2, rfl, low, Nat.lt_of_lt_of_le low order, .inr isTop⟩
  constructor
  · rintro ⟨_, mapped, h⟩
    obtain ⟨run, mem, rfl⟩ := List.mem_map.mp mapped
    rcases (range run mem).mp h with ⟨low, high⟩ | ⟨⟨-, isTop⟩, isLargest⟩
    · exact .inl (mem_of_rangesOf mem low high)
    · refine .inr ⟨isLargest, ?_⟩
      rw [← isTop]
      exact mem_of_rangesOf mem (rangesOf_ordered values run mem) (Nat.le_refl _)
  · rintro (mem | ⟨rfl, mem⟩)
    · obtain ⟨run, inRanges, here⟩ := exists_run mem
      exact ⟨ofRun run, List.mem_map_of_mem inRanges, (range run inRanges).mpr (.inl here)⟩
    · obtain ⟨run, inRanges, low, high⟩ := exists_run mem
      have last := small _
        (mem_of_rangesOf inRanges (rangesOf_ordered values run inRanges) (Nat.le_refl _))
      refine ⟨ofRun run, List.mem_map_of_mem inRanges, (range run inRanges).mpr ?_⟩
      by_cases before : run.1 ≤ value
      · exact .inl ⟨before, inside.trans (most.trans high)⟩
      · exact .inr ⟨⟨Nat.not_le.mp before, Nat.le_antisymm last high⟩, rfl⟩

theorem parse_fromValues_ok (small : ∀ n ∈ values, 0 < n ∧ n ≤ u32Max) :
    parse (fromValues values) = .ok set ↔
      set = ⟨(rangesOf values).map ofRun⟩ ∧ values ≠ [] ∧
        (bytes (fromValues values)).length ≤ maxInput ∧ (rangesOf values).length ≤ maxRanges := by
  rw [parse_fromValues small]
  split_ifs with none long fits
  · simp [none]
  · simp [Nat.not_le.mpr long]
  · rw [Except.ok.injEq, eq_comm]
    exact ⟨fun eq => ⟨eq, none, Nat.not_lt.mp long, fits⟩, And.left⟩
  · simp [fits]

/-- A set contains the largest number as the elements of its text do, unless one of them is astray
and none covers it; and it contains every other number as they do. A set that was written contains
its values. -/
theorem contains_as_written (largest : Nat) :
    (∀ (text : String) (set : SequenceSet) (value : Nat), parse text = .ok set →
      1 ≤ value → value ≤ largest → largest ≤ u32Max →
      ((contains set value largest = true ↔
          ∃ element ∈ elements text, Covers element value largest) ↔
        (value = largest → (∃ element ∈ elements text, Astray element largest) →
          ∃ element ∈ elements text, Covers element value largest))) ∧
    ∀ values : List Nat, (∀ n ∈ values, 0 < n ∧ n < u32Max) →
      ((∃ set, parse (fromValues values) = .ok set) ↔
        values ≠ [] ∧ (bytes (fromValues values)).length ≤ maxInput ∧
          (rangesOf values).length ≤ maxRanges) ∧
      ∀ set : SequenceSet, parse (fromValues values) = .ok set →
        ((∀ value, contains set value largest = true ↔ value ∈ values) ↔ largest ≠ 0) := by
  constructor
  · intro text set value parsed positive inside most
    rw [contains_parse parsed positive inside most]
    constructor
    · rintro same isLargest ⟨element, mem, astray⟩
      exact same.mp ⟨element, mem, .inr ⟨astray, isLargest⟩⟩
    · intro covered
      constructor
      · rintro ⟨element, mem, here | ⟨astray, isLargest⟩⟩
        · exact ⟨element, mem, here⟩
        · exact covered isLargest ⟨element, mem, astray⟩
      · rintro ⟨element, mem, here⟩
        exact ⟨element, mem, .inl here⟩
  · intro values small
    have small' : ∀ n ∈ values, 0 < n ∧ n ≤ u32Max := fun n mem =>
      ⟨(small n mem).1, (small n mem).2.le⟩
    refine ⟨⟨?_, ?_⟩, ?_⟩
    · rintro ⟨set, parsed⟩
      exact ((parse_fromValues_ok small').mp parsed).2
    · exact fun fits => ⟨_, (parse_fromValues_ok small').mpr ⟨rfl, fits⟩⟩
    · intro set parsed
      obtain ⟨rfl, filled, -⟩ := (parse_fromValues_ok small').mp parsed
      have written (value : Nat) :=
        @contains_ofRuns value largest values fun n mem => (small n mem).2
      constructor
      · intro same
        obtain ⟨n, mem⟩ := List.exists_mem_of_ne_nil values filled
        exact ((written n).mp ((same n).mpr mem)).1
      · intro some value
        rw [written value, and_iff_right some]

theorem sorted_of_ascending (ascending : values.Pairwise (· < ·)) :
    sorted values = values := by
  have nodup : values.Nodup := ascending.imp Nat.ne_of_lt
  rw [sorted, nodup.dedup, List.mergeSort_of_pairwise]
  exact ascending.imp fun less => decide_eq_true less.le

/-- An element that is astray does no harm beside a range to `*`. -/
theorem contains_as_written_star :
    (∃ set, parse "2:*,4294967295" = .ok set ∧ contains set 5 5 = true) ∧
      ∃ set, parse (fromValues [1, 2, 3, 5]) = .ok set ∧
        ∀ value, contains set value 9 = true ↔ value ∈ [1, 2, 3, 5] := by
  have covered : ∃ element ∈ elements "2:*,4294967295", Covers element 5 5 := by decide +kernel
  have small : ∀ n ∈ [1, 2, 3, 5], 0 < n ∧ n < u32Max := by decide
  have order : sorted [1, 2, 3, 5] = [1, 2, 3, 5] := sorted_of_ascending (by decide)
  have written : fromValues [1, 2, 3, 5] = "1:3,5" := by
    rw [fromValues, order]
    decide +kernel
  refine ⟨⟨⟨[⟨2, Imap.star⟩, ⟨Imap.star, Imap.star⟩]⟩, by decide +kernel, ?_⟩,
    ⟨⟨[⟨1, 3⟩, ⟨5, 5⟩]⟩, ?_, ?_⟩⟩
  · exact ((contains_as_written 5).1 "2:*,4294967295" _ 5 (by decide +kernel) (by decide) (by decide)
      (by decide)).mpr (fun _ _ => covered) |>.mpr covered
  · rw [written]
    decide +kernel
  · refine ((contains_as_written 9).2 [1, 2, 3, 5] small).2 _ ?_ |>.mpr (by decide)
    rw [written]
    decide +kernel

/-- The number to which `*` is parsed is taken for the last message of five. -/
theorem largest_taken_for_star :
    ∃ set, parse "4294967295" = .ok set ∧ contains set 5 5 = true ∧
      ¬∃ element ∈ elements "4294967295", Covers element 5 5 :=
  ⟨⟨[⟨Imap.star, Imap.star⟩]⟩, by decide +kernel, by decide +kernel, by decide +kernel⟩

end MailStack.Imap.SequenceSet
