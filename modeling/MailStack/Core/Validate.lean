import MailStack.Lib.Text

/-! The patterns that names, addresses and domains have to match. -/

namespace MailStack.Core

open Lib

/-- One character of the first class, and then so many of the second one. -/
def matchesClasses (first rest : Char → Bool) (low high : Nat) : List Char → Bool
  | [] => false
  | c :: cs => first c && cs.all rest && low ≤ cs.length && cs.length ≤ high

/-- `USER_RE`: `^[a-z_][a-z0-9_-]{0,30}$`. -/
def userRe (s : String) : Bool :=
  matchesClasses (fun c => c.isLower || c = '_')
    (fun c => c.isLower || c.isDigit || c = '_' || c = '-') 0 30 s.toList

def addressChar (c : Char) : Bool := c.isAlphanum || c = '.' || c = '_' || c = '+' || c = '-'

/-- `ADDRESS_RE`: `^[A-Za-z0-9][A-Za-z0-9._+-]{0,63}@[A-Za-z0-9.-]+$`. -/
def addressRe (s : String) : Bool :=
  match splitOnce '@' s with
  | some (localPart, domain) =>
    matchesClasses Char.isAlphanum addressChar 0 63 localPart.toList && !domain.isEmpty &&
      domain.toList.all fun c => c.isAlphanum || c = '.' || c = '-'
  | none => false

/-- `ADMIN_RE`: `^[A-Za-z][A-Za-z0-9_.-]{2,31}$`. -/
def adminRe (s : String) : Bool :=
  matchesClasses Char.isAlpha (fun c => c.isAlphanum || c = '_' || c = '.' || c = '-') 2 31 s.toList

/-- `[A-Za-z0-9](?:[A-Za-z0-9-]{0,61}[A-Za-z0-9])?`. -/
def isDomainLabel (label : List Char) : Bool :=
  label.head?.any Char.isAlphanum && label.getLast?.any Char.isAlphanum &&
    label.all (fun c => c.isAlphanum || c = '-') && label.length ≤ 63

/-- `DOMAIN_RE`: at least one such label and a dot after each, and then `[A-Za-z]{2,63}`. -/
def domainRe (s : String) : Bool :=
  let labels := s.toList.splitOn '.'
  labels.length ≥ 2 && labels.dropLast.all isDomainLabel &&
    labels.getLast?.any fun top => top.all Char.isAlpha && 2 ≤ top.length && top.length ≤ 63

variable {s : String} {c : Char}

theorem all_of_matchesClasses {first rest : Char → Bool} {low high : Nat} {cs : List Char}
    {p : Char → Prop} (h : matchesClasses first rest low high cs = true)
    (ofFirst : ∀ c, first c = true → p c) (ofRest : ∀ c, rest c = true → p c) : ∀ c ∈ cs, p c := by
  cases cs with
  | nil => simp
  | cons c cs =>
    simp only [matchesClasses, Bool.and_eq_true, List.all_eq_true] at h
    intro d mem
    rcases List.mem_cons.mp mem with rfl | mem
    · exact ofFirst d h.1.1.1
    · exact ofRest d (h.1.1.2 d mem)

theorem userRe_mem (h : userRe s = true) (mem : c ∈ s.toList) :
    c.isLower = true ∨ c.isDigit = true ∨ c = '_' ∨ c = '-' := by
  have chars : ∀ c ∈ s.toList, c.isLower = true ∨ c.isDigit = true ∨ c = '_' ∨ c = '-' := by
    refine all_of_matchesClasses h (fun c first => ?_) fun c rest => ?_
    · simp only [Bool.or_eq_true, decide_eq_true_eq] at first
      tauto
    · simp only [Bool.or_eq_true, decide_eq_true_eq] at rest
      tauto
  exact chars c mem

theorem addressRe_parts (h : addressRe s = true) : ∃ localPart domain,
    splitOnce '@' s = some (localPart, domain) ∧ localPart ≠ "" ∧
      (∀ c ∈ localPart.toList, addressChar c = true) ∧
      ∀ c ∈ domain.toList, c.isAlphanum = true ∨ c = '.' ∨ c = '-' := by
  unfold addressRe at h
  split at h
  case h_2 => cases h
  case h_1 localPart domain parts =>
    simp only [Bool.and_eq_true, List.all_eq_true] at h
    refine ⟨localPart, domain, parts, ?_, ?_, ?_⟩
    · rintro rfl
      exact absurd h.1.1 (by decide)
    · refine all_of_matchesClasses h.1.1 (fun c first => ?_) fun c rest => rest
      simp [addressChar, first]
    · intro c mem
      simpa [or_assoc] using h.2 c mem

theorem addressChar_range (h : addressChar c = true) : 33 ≤ c.toNat ∧ c.toNat ≤ 126 := by
  simp only [addressChar, Bool.or_eq_true, decide_eq_true_eq] at h
  rcases h with (((h | rfl) | rfl) | rfl) | rfl
  · have := isAlphanum_range h
    omega
  all_goals decide

theorem addressRe_mem (h : addressRe s = true) (mem : c ∈ s.toList) :
    33 ≤ c.toNat ∧ c.toNat ≤ 126 := by
  obtain ⟨localPart, domain, parts, -, inLocal, inDomain⟩ := addressRe_parts h
  rw [(splitOnce_eq_some parts).1, List.mem_append, List.mem_cons] at mem
  rcases mem with mem | rfl | mem
  · exact addressChar_range (inLocal c mem)
  · decide
  · refine addressChar_range ?_
    rcases inDomain c mem with h | rfl | rfl
    · simp [addressChar, h]
    · rfl
    · rfl

/-- All characters of a user name are visible ASCII, and none is a capital letter. -/
theorem userRe_visible (h : userRe s = true) (mem : c ∈ s.toList) :
    (33 ≤ c.toNat ∧ c.toNat ≤ 126) ∧ c.isUpper = false ∧ c ≠ '@' := by
  rcases userRe_mem h mem with lower | digit | rfl | rfl
  · have code : 97 ≤ c.val.toNat ∧ c.val.toNat ≤ 122 := by
      simpa [isLower_iff, UInt32.le_iff_toNat_le] using lower
    refine ⟨?_, ?_, ?_⟩
    · show 33 ≤ c.val.toNat ∧ c.val.toNat ≤ 126
      omega
    · have : c.toNat = c.val.toNat := rfl
      exact isUpper_eq_false (by omega)
    · rintro rfl
      exact absurd lower (by decide)
  · have code : 48 ≤ c.val.toNat ∧ c.val.toNat ≤ 57 := by
      simpa [Char.isDigit, UInt32.le_iff_toNat_le] using digit
    refine ⟨?_, ?_, ?_⟩
    · show 33 ≤ c.val.toNat ∧ c.val.toNat ≤ 126
      omega
    · have : c.toNat = c.val.toNat := rfl
      exact isUpper_eq_false (by omega)
    · rintro rfl
      exact absurd digit (by decide)
  · decide
  · decide

end MailStack.Core
