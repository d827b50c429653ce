import MailStack.Lib.Loop
import MailStack.Sieve.Parser

/-! How a value of a message is compared with the key of a test. -/

namespace MailStack.Sieve

open Lib

def questionMark : UInt8 := 63

def star : UInt8 := 42

/-- The variables of `glob_match`: two positions, and those to go back to. -/
structure Glob where
  t : Nat
  p : Nat
  star : Option Nat
  mark : Nat

def globRest (pattern : List UInt8) (p : Nat) : Bool := (pattern.drop p).all (· = star)

/-- The body of the loop over the text. -/
def globStep (text pattern : List UInt8) (s : Glob) : Glob ⊕ Bool :=
  if s.t < text.length then
    if s.p < pattern.length ∧ (pattern[s.p]? = some questionMark ∨ pattern[s.p]? = text[s.t]?) then
      .inl { s with t := s.t + 1, p := s.p + 1 }
    else if s.p < pattern.length ∧ pattern[s.p]? = some star then
      .inl { s with star := some s.p, mark := s.t, p := s.p + 1 }
    else
      match s.star with
      | some starPos => .inl { s with p := starPos + 1, mark := s.mark + 1, t := s.mark + 1 }
      | none => .inr false
  else .inr (globRest pattern s.p)

/-- A mark is passed at most once, and between two marks both positions only grow. -/
def globMeasure (text pattern : List UInt8) (s : Glob) : Nat :=
  (text.length - s.mark) * (text.length + pattern.length + 1) + (text.length - s.t) +
    (pattern.length - s.p)

def globMatch (text pattern : List UInt8) : Bool :=
  loop (globStep text pattern) false (globMeasure text pattern)
    { t := 0, p := 0, star := none, mark := 0 }

theorem globStep_lowers (text pattern : List UInt8) :
    Lowers (globStep text pattern) (globMeasure text pattern) fun s => s.mark ≤ s.t := by
  intro s s' behind next
  unfold globStep at next
  split at next
  · rename_i inside
    split at next
    · cases next
      simp only [globMeasure]
      exact ⟨by omega, by omega⟩
    split at next
    · cases next
      have fewer : (text.length - s.t) * (text.length + pattern.length + 1) ≤
          (text.length - s.mark) * (text.length + pattern.length + 1) :=
        Nat.mul_le_mul_right _ (by omega)
      simp only [globMeasure]
      exact ⟨Nat.le_refl _, by omega⟩
    split at next
    · cases next
      have one : text.length - s.mark = text.length - (s.mark + 1) + 1 := by omega
      simp only [globMeasure, one, Nat.succ_mul]
      exact ⟨Nat.le_refl _, by omega⟩
    · cases next
  · cases next

example : globMatch (bytes "totally spam here") (bytes "*spam*") = true := by decide

def matchValue (kind : MatchType) (haystack needle : String) : Bool :=
  match kind with
  | .is => eqIgnoreAsciiCase haystack needle
  | .contains => containsText (toAsciiLowercase haystack) (toAsciiLowercase needle)
  | .matches => globMatch (bytes (toAsciiLowercase haystack)) (bytes (toAsciiLowercase needle))

/-- The address in one part of a list: what stands between the last angle brackets, or the last
word. -/
def addressSpec (token : String) : Option String :=
  let token := trim token
  if token.isEmpty then none
  else
    match (rsplitOnce '<' token).bind fun p => rsplitOnce '>' p.2 with
    | some (inner, _) => some (trim inner)
    | none => some ((splitWhitespace token).getLast?.getD token)

def addressSpecs (value : String) : List String :=
  (((value.toList.splitOn ',').map String.ofList).filterMap addressSpec).filter fun spec =>
    !spec.isEmpty

def AddressPart.field (part : AddressPart) (spec : String) : String :=
  match part with
  | .all => spec
  | .localPart => ((splitOnce '@' spec).map Prod.fst).getD spec
  | .domain => ((splitOnce '@' spec).map Prod.snd).getD ""

end MailStack.Sieve
