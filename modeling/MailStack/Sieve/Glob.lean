import MailStack.Lib.Wildcard
import MailStack.Sieve.Match

/-! What the comparison `:matches` accepts. The loop takes a `*` of the pattern that meets a `*` of
the text to stand for this one byte, so it reads a pattern in fewer ways than there are. -/

namespace MailStack.Sieve

open Lib

/-- What a byte of a pattern stands for. -/
def globToken (byte : UInt8) : Wildcard.Token UInt8 :=
  if byte = star then .many fun _ => true
  else if byte = questionMark then .one fun _ => true
  else .one (· = byte)

/-- The meaning of a pattern. -/
def GlobMatches (pattern text : List UInt8) : Prop :=
  Wildcard.Matches (pattern.map globToken) text

/-- The text is what the pattern stands for when a `*` that meets a `*` stands for this one only. -/
inductive GlobReads : List UInt8 → List UInt8 → Prop
  | nil : GlobReads [] []
  | one {byte b : UInt8} {pattern text : List UInt8} (here : byte = questionMark ∨ byte = b)
      (rest : GlobReads pattern text) : GlobReads (byte :: pattern) (b :: text)
  | many {pattern text rest : List UInt8} (other : text.head? ≠ some star) (ends : rest <:+ text)
      (later : GlobReads pattern rest) : GlobReads (star :: pattern) text

variable {pattern text rest : List UInt8} {byte b : UInt8}

theorem questionMark_ne_star : questionMark ≠ star := by decide

theorem GlobReads.matches (reads : GlobReads pattern text) : GlobMatches pattern text := by
  induction reads with
  | nil => exact .nil
  | @one byte b pattern text here rest ih =>
    unfold GlobMatches at *
    rw [List.map_cons, globToken]
    by_cases isStar : byte = star
    · rw [if_pos isStar, Wildcard.matches_many_cons]
      exact .inr ⟨rfl, Wildcard.matches_any.mpr ⟨text, List.suffix_refl _, ih⟩⟩
    · rw [if_neg isStar]
      by_cases wild : byte = questionMark
      · rw [if_pos wild]
        exact .one rfl ih
      · rw [if_neg wild]
        refine .one ?_ ih
        exact decide_eq_true (here.resolve_left wild).symm
  | @many pattern text rest other ends later ih =>
    obtain ⟨taken, rfl⟩ := ends
    exact .many (fun _ _ => rfl) ih

/-- A text without stars is read in every way in which it matches. -/
theorem globReads_of_matches (free : star ∉ text) (matched : GlobMatches pattern text) :
    GlobReads pattern text := by
  induction pattern generalizing text with
  | nil =>
    obtain rfl := Wildcard.matches_nil.mp matched
    exact .nil
  | cons byte pattern ih =>
    rw [GlobMatches, List.map_cons, globToken] at matched
    by_cases isStar : byte = star
    · rw [if_pos isStar] at matched
      obtain ⟨rest, ends, later⟩ := Wildcard.matches_any.mp matched
      subst isStar
      exact .many (fun first => free (List.mem_of_head? first)) ends
        (ih (fun mem => free (ends.mem mem)) later)
    · rw [if_neg isStar] at matched
      cases text with
      | nil => split at matched <;> exact absurd matched Wildcard.not_matches_one_nil
      | cons b text =>
        rw [List.mem_cons, not_or] at free
        by_cases wild : byte = questionMark
        · rw [if_pos wild, Wildcard.matches_one_cons] at matched
          exact .one (.inl wild) (ih free.2 matched.2)
        · rw [if_neg wild, Wildcard.matches_one_cons, decide_eq_true_eq] at matched
          exact .one (.inr matched.1.symm) (ih free.2 matched.2)

theorem globReads_nil : GlobReads pattern [] ↔ pattern.all (· = star) = true := by
  induction pattern with
  | nil => exact ⟨fun _ => rfl, fun _ => .nil⟩
  | cons byte pattern ih =>
    rw [List.all_cons, Bool.and_eq_true, decide_eq_true_eq, ← ih]
    constructor
    · intro reads
      cases reads with
      | many other ends later =>
        rw [List.suffix_nil.mp ends] at later
        exact ⟨rfl, later⟩
    · rintro ⟨rfl, later⟩
      exact .many (by simp) (List.suffix_refl _) later

theorem not_globReads_nil_cons : ¬GlobReads [] (b :: text) := by
  intro reads
  cases reads

theorem globReads_one (here : byte = questionMark ∨ byte = b) :
    GlobReads (byte :: pattern) (b :: text) ↔ GlobReads pattern text := by
  constructor
  · intro reads
    cases reads with
    | one _ rest => exact rest
    | many other ends later =>
      rcases here with eq | rfl
      · exact absurd eq.symm questionMark_ne_star
      · exact absurd rfl other
  · exact .one here

theorem globReads_star (other : text.head? ≠ some star) :
    GlobReads (star :: pattern) text ↔ ∃ rest, rest <:+ text ∧ GlobReads pattern rest := by
  constructor
  · intro reads
    cases reads with
    | one here rest =>
      rcases here with eq | rfl
      · exact absurd eq.symm questionMark_ne_star
      · exact absurd rfl other
    | many _ ends later => exact ⟨_, ends, later⟩
  · rintro ⟨rest, ends, later⟩
    exact .many other ends later

theorem not_globReads (wild : byte ≠ questionMark) (literal : byte ≠ b) (plain : byte ≠ star) :
    ¬GlobReads (byte :: pattern) (b :: text) := by
  intro reads
  cases reads with
  | one here rest => exact here.elim wild literal
  | many => exact plain rfl

theorem GlobReads.tail (reads : GlobReads (byte :: pattern) text) :
    ∃ rest, rest <:+ text ∧ GlobReads pattern rest := by
  cases reads with
  | one here rest => exact ⟨_, List.suffix_cons _ _, rest⟩
  | many other ends later => exact ⟨_, ends, later⟩

/-- What the star that was passed last can still stand for: more than to the mark. -/
def Glob.Resumes (text pattern : List UInt8) (s : Glob) : Prop :=
  ∃ sp, s.star = some sp ∧
    ∃ rest, rest <:+ text.drop (s.mark + 1) ∧ GlobReads (pattern.drop (sp + 1)) rest

/-- What the loop answers from a state on. -/
def Glob.Accepts (text pattern : List UInt8) (s : Glob) : Prop :=
  GlobReads (pattern.drop s.p) (text.drop s.t) ∨ s.Resumes text pattern

/-- Where the last star can stand for more, what follows the position in the pattern can be read
from an end of what follows that in the text; so stars before the last one are not needed. -/
structure Glob.Fits (text pattern : List UInt8) (s : Glob) : Prop where
  behind : s.mark ≤ s.t
  inside : s.t ≤ text.length
  kept : s.Resumes text pattern →
    ∃ rest, rest <:+ text.drop s.t ∧ GlobReads (pattern.drop s.p) rest

variable {s s' : Glob}

/-- What one step does. -/
inductive GlobNext (text pattern : List UInt8) (s : Glob) : Glob ⊕ Bool → Prop
  | one {byte b : UInt8} (inText : text.drop s.t = b :: text.drop (s.t + 1))
      (inPattern : pattern.drop s.p = byte :: pattern.drop (s.p + 1))
      (here : byte = questionMark ∨ byte = b) :
      GlobNext text pattern s (.inl { s with t := s.t + 1, p := s.p + 1 })
  | many (more : s.t < text.length) (other : (text.drop s.t).head? ≠ some star)
      (inPattern : pattern.drop s.p = star :: pattern.drop (s.p + 1)) :
      GlobNext text pattern s (.inl { s with star := some s.p, mark := s.t, p := s.p + 1 })
  | back {sp : Nat} (more : s.t < text.length)
      (apart : ¬GlobReads (pattern.drop s.p) (text.drop s.t)) (passed : s.star = some sp) :
      GlobNext text pattern s
        (.inl { t := s.mark + 1, p := sp + 1, star := some sp, mark := s.mark + 1 })
  | stop (apart : ¬GlobReads (pattern.drop s.p) (text.drop s.t)) (fresh : s.star = none) :
      GlobNext text pattern s (.inr false)
  | finish (all : text.length ≤ s.t) : GlobNext text pattern s (.inr (globRest pattern s.p))

theorem globStep_next (text pattern : List UInt8) (s : Glob) :
    GlobNext text pattern s (globStep text pattern s) := by
  unfold globStep
  by_cases inside : s.t < text.length
  · rw [if_pos inside]
    have inText : text.drop s.t = text[s.t] :: text.drop (s.t + 1) :=
      List.drop_eq_getElem_cons inside
    have atText : text[s.t]? = some text[s.t] := List.getElem?_eq_getElem inside
    by_cases more : s.p < pattern.length
    · have inPattern : pattern.drop s.p = pattern[s.p] :: pattern.drop (s.p + 1) :=
        List.drop_eq_getElem_cons more
      have atPattern : pattern[s.p]? = some pattern[s.p] := List.getElem?_eq_getElem more
      rw [atText, atPattern]
      by_cases here : pattern[s.p] = questionMark ∨ pattern[s.p] = text[s.t]
      · rw [if_pos ⟨more, by simpa using here⟩]
        exact .one inText inPattern here
      · rw [if_neg fun h => here (by simpa using h.2)]
        rw [not_or] at here
        by_cases isStar : pattern[s.p] = star
        · rw [if_pos ⟨more, by rw [isStar]⟩]
          refine .many inside ?_ (by rw [inPattern, isStar])
          rw [inText, List.head?_cons]
          intro eq
          exact here.2 (isStar.trans (Option.some.inj eq).symm)
        · rw [if_neg fun h => isStar (Option.some.inj h.2)]
          have apart : ¬GlobReads (pattern.drop s.p) (text.drop s.t) := by
            rw [inPattern, inText]
            exact not_globReads here.1 here.2 isStar
          cases passed : s.star with
          | none => exact .stop apart passed
          | some sp => exact .back inside apart passed
    · rw [if_neg fun h => more h.1, if_neg fun h => more h.1]
      have apart : ¬GlobReads (pattern.drop s.p) (text.drop s.t) := by
        rw [List.drop_eq_nil_of_le (Nat.not_lt.mp more), inText]
        exact not_globReads_nil_cons
      cases passed : s.star with
      | none => exact .stop apart passed
      | some sp => exact .back inside apart passed
  · rw [if_neg inside]
    exact .finish (Nat.not_lt.mp inside)

theorem suffix_tail {rest : List UInt8} (ends : rest <:+ b :: text) (other : rest ≠ b :: text) :
    rest <:+ text :=
  (List.suffix_cons_iff.mp ends).resolve_left other

/-- One step keeps the invariant, and what is accepted. -/
theorem glob_step (fits : s.Fits text pattern) (next : GlobNext text pattern s (.inl s')) :
    s'.Fits text pattern ∧ (s'.Accepts text pattern → s.Accepts text pattern) ∧
      (s.Accepts text pattern → s'.Accepts text pattern) := by
  cases next with
  | @one byte b inText inPattern here =>
    have same : GlobReads (pattern.drop (s.p + 1)) (text.drop (s.t + 1)) ↔
        GlobReads (pattern.drop s.p) (text.drop s.t) := by
      rw [inText, inPattern, globReads_one here]
    have more : s.t + 1 ≤ text.length := by
      have := congrArg List.length inText
      rw [List.length_drop, List.length_cons, List.length_drop] at this
      omega
    have kept : s.Resumes text pattern → ∃ rest, rest <:+ text.drop (s.t + 1) ∧
        GlobReads (pattern.drop (s.p + 1)) rest := by
      intro resumes
      obtain ⟨rest, ends, reads⟩ := fits.kept resumes
      rw [inText] at ends
      rw [inPattern] at reads
      rcases List.suffix_cons_iff.mp ends with rfl | ends
      · exact ⟨_, List.suffix_refl _, (globReads_one here).mp reads⟩
      · obtain ⟨tail, shorter, later⟩ := reads.tail
        exact ⟨tail, shorter.trans ends, later⟩
    exact ⟨⟨fits.behind.trans (Nat.le_succ _), more, kept⟩, fun h => h.imp same.mp id,
      fun h => h.imp same.mpr id⟩
  | many more other inPattern =>
    have inText : text.drop s.t = text[s.t] :: text.drop (s.t + 1) := List.drop_eq_getElem_cons more
    have reads : GlobReads (pattern.drop s.p) (text.drop s.t) ↔
        ∃ rest, rest <:+ text.drop s.t ∧ GlobReads (pattern.drop (s.p + 1)) rest := by
      rw [inPattern]
      exact globReads_star other
    refine ⟨⟨Nat.le_refl _, fits.inside, ?_⟩, ?_, ?_⟩
    · rintro ⟨sp, found, rest, ends, later⟩
      obtain rfl := Option.some.inj found
      refine ⟨rest, ends.trans ?_, later⟩
      rw [inText]
      exact List.suffix_cons _ _
    · rintro (here | ⟨sp, found, rest, ends, later⟩)
      · exact .inl (reads.mpr ⟨_, List.suffix_refl _, here⟩)
      · obtain rfl := Option.some.inj found
        refine .inl (reads.mpr ⟨rest, ends.trans ?_, later⟩)
        rw [inText]
        exact List.suffix_cons _ _
    · intro accepts
      -- what an earlier star could stand for, this one can as well
      have here : ∃ rest, rest <:+ text.drop s.t ∧ GlobReads (pattern.drop (s.p + 1)) rest := by
        rcases accepts with here | resumes
        · exact reads.mp here
        · obtain ⟨rest, ends, later⟩ := fits.kept resumes
          rw [inPattern] at later
          obtain ⟨tail, shorter, later⟩ := later.tail
          exact ⟨tail, shorter.trans ends, later⟩
      obtain ⟨rest, ends, later⟩ := here
      by_cases whole : rest = text.drop s.t
      · exact .inl (whole ▸ later)
      · rw [inText] at ends whole
        exact .inr ⟨s.p, rfl, rest, suffix_tail ends whole, later⟩
  | @back sp more apart passed =>
    have low := fits.behind
    have short : s.mark + 1 ≤ text.length := by omega
    refine ⟨⟨Nat.le_refl _, short, ?_⟩, ?_, ?_⟩
    · rintro ⟨sp', found, rest, ends, later⟩
      obtain rfl := Option.some.inj found
      refine ⟨rest, ends.trans ?_, later⟩
      rw [← List.drop_drop]
      exact List.drop_suffix _ _
    · rintro (here | ⟨sp', found, rest, ends, later⟩)
      · exact .inr ⟨sp, passed, _, List.suffix_refl _, here⟩
      · obtain rfl := Option.some.inj found
        refine .inr ⟨sp, passed, rest, ends.trans ?_, later⟩
        rw [← List.drop_drop]
        exact List.drop_suffix _ _
    · rintro (here | ⟨sp', found, rest, ends, later⟩)
      · exact absurd here apart
      · obtain rfl : sp = sp' := Option.some.inj (passed.symm.trans found)
        by_cases whole : rest = text.drop (s.mark + 1)
        · exact .inl (whole ▸ later)
        · refine .inr ⟨sp, rfl, rest, ?_, later⟩
          by_cases last : s.mark + 1 < text.length
          · rw [List.drop_eq_getElem_cons last] at ends whole
            exact suffix_tail ends whole
          · rw [List.drop_eq_nil_of_le (by omega)] at ends whole
            exact absurd (List.suffix_nil.mp ends) whole

/-- The loop accepts what can be read so that a `*` which meets a `*` stands for it. -/
theorem globMatch_iff (text pattern : List UInt8) :
    globMatch text pattern = true ↔ GlobReads pattern text := by
  have lowers : Lowers (globStep text pattern) (globMeasure text pattern)
      fun s => s.Fits text pattern := by
    intro s s' fits next
    have did := globStep_next text pattern s
    rw [next] at did
    exact ⟨(glob_step fits did).1, (globStep_lowers text pattern s s' fits.behind next).2⟩
  have start : Glob.Fits text pattern { t := 0, p := 0, star := none, mark := 0 } := by
    refine ⟨Nat.le_refl _, Nat.zero_le _, ?_⟩
    rintro ⟨sp, found, -⟩
    cases found
  have spec := @loop_spec _ _ _ _ _ false lowers
    (fun s a => a = true ↔ Glob.Accepts text pattern s)
    (fun s a fits next => ?_) (fun s s' a fits next later => ?_) _ start
  · refine spec.trans ⟨fun accepts => ?_, .inl⟩
    rcases accepts with reads | ⟨sp, found, -⟩
    · exact reads
    · cases found
  · have did := globStep_next text pattern s
    rw [next] at did
    cases did with
    | stop apart fresh =>
      refine ⟨(fun h => by cases h), ?_⟩
      rintro (reads | ⟨sp, found, -⟩)
      · exact absurd reads apart
      · rw [fresh] at found
        cases found
    | finish all =>
      have used : text.drop s.t = [] := List.drop_eq_nil_of_le all
      have rest : globRest pattern s.p = true ↔ GlobReads (pattern.drop s.p) (text.drop s.t) := by
        rw [used, globReads_nil]
        rfl
      refine rest.trans ⟨.inl, ?_⟩
      rintro (reads | resumes)
      · exact reads
      · obtain ⟨tail, ends, reads⟩ := fits.kept resumes
        rw [used] at ends ⊢
        rwa [List.suffix_nil.mp ends] at reads
  · have did := globStep_next text pattern s
    rw [next] at did
    obtain ⟨-, back, forth⟩ := glob_step fits did
    exact later.trans ⟨back, forth⟩

/-- `:matches` is what its wildcards mean, exactly where a pattern that the text matches can be read
so that each `*` which meets a `*` of the text stands for this one. -/
theorem matchValue_matches_iff (haystack needle : String) :
    (matchValue .matches haystack needle = true ↔
        GlobMatches (bytes (toAsciiLowercase needle)) (bytes (toAsciiLowercase haystack))) ↔
      (GlobMatches (bytes (toAsciiLowercase needle)) (bytes (toAsciiLowercase haystack)) →
        GlobReads (bytes (toAsciiLowercase needle)) (bytes (toAsciiLowercase haystack))) := by
  have loops : matchValue .matches haystack needle = true ↔
      GlobReads (bytes (toAsciiLowercase needle)) (bytes (toAsciiLowercase haystack)) :=
    globMatch_iff _ _
  rw [loops]
  exact ⟨fun same => same.mpr, fun readable => ⟨GlobReads.matches, readable⟩⟩

/-- A star alone does not match a text that begins with one. -/
theorem star_misses_star :
    matchValue .matches "*a" "*" = false ∧
      GlobMatches (bytes (toAsciiLowercase "*")) (bytes (toAsciiLowercase "*a")) := by
  refine ⟨by decide +kernel, ?_⟩
  have pattern : bytes (toAsciiLowercase "*") = [star] := by decide +kernel
  rw [pattern]
  exact Wildcard.matches_any.mpr ⟨[], List.nil_suffix, .nil⟩

end MailStack.Sieve
