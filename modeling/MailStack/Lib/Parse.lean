import Mathlib.Data.List.Basic

/-! Readers of a list of tokens: what they leave unread, and a loop that goes on as long as its
body asks for it. -/

namespace MailStack.Lib

/-- A reader takes tokens from the front of a list and can fail. -/
abbrev Parse (τ ε α : Type) := StateT (List τ) (Except ε) α

namespace Parse

variable {τ ε α β : Type} {tokens : List τ}

def fail (error : ε) : Parse τ ε α := fun _ => .error error

/-- The next token, if there is one. -/
def next : Parse τ ε (Option τ)
  | [] => .ok (none, [])
  | token :: rest => .ok (some token, rest)

/-- The next token stays where it is. -/
def peek : Parse τ ε (Option τ) := fun tokens => .ok (tokens.head?, tokens)

/-- The next token, if it is one that `pick` takes. -/
def nextIf (pick : τ → Option α) : Parse τ ε (Option α)
  | [] => .ok (none, [])
  | token :: rest =>
    match pick token with
    | some a => .ok (some a, rest)
    | none => .ok (none, token :: rest)

/-- What a loop does with what its body gives: on the left it goes on, on the right it ends. -/
def goOn (again : β → Parse τ ε α) : β ⊕ α → Parse τ ε α
  | .inl b => again b
  | .inr a => pure a

/-- The body is run until it gives a result on the right, at most `fuel` times. -/
def iterate (body : β → Parse τ ε (β ⊕ α)) (stuck : ε) : Nat → β → Parse τ ε α
  | 0, _ => fail stuck
  | fuel + 1, b => body b >>= goOn (iterate body stuck fuel)

/-- A loop. There is a run of the body for each token and one more. -/
def loop (body : β → Parse τ ε (β ⊕ α)) (stuck : ε) (start : β) : Parse τ ε α :=
  fun tokens => iterate body stuck (tokens.length + 1) start tokens

/-- The reader leaves no more tokens than there were. -/
def Shrinks (p : Parse τ ε α) : Prop :=
  ∀ tokens a rest, p tokens = .ok (a, rest) → rest.length ≤ tokens.length

/-- The body of a loop takes at least one token before it asks to go on. -/
def Advances (body : β → Parse τ ε (β ⊕ α)) : Prop :=
  ∀ b tokens b' rest, body b tokens = .ok (.inl b', rest) → rest.length < tokens.length

theorem map_ok {p : Parse τ ε α} {f : α → β} {tokens rest : List τ} {b : β} :
    (f <$> p) tokens = .ok (b, rest) ↔ ∃ a, p tokens = .ok (a, rest) ∧ f a = b := by
  show (p tokens >>= fun r => pure (f r.1, r.2)) = .ok (b, rest) ↔ _
  cases read : p tokens with
  | error e =>
    constructor
    · intro h
      cases h
    · rintro ⟨a, h, -⟩
      cases h
  | ok r =>
    obtain ⟨a, middle⟩ := r
    constructor
    · intro h
      cases h
      exact ⟨a, rfl, rfl⟩
    · rintro ⟨a', h, rfl⟩
      cases h
      rfl

theorem iterate_succ (body : β → Parse τ ε (β ⊕ α)) (stuck : ε) (fuel : Nat) (b : β) :
    iterate body stuck (fuel + 1) b = body b >>= goOn (iterate body stuck fuel) := rfl

variable {body : β → Parse τ ε (β ⊕ α)}

/-- As long as there are more runs left than tokens, it does not matter how many there are. -/
theorem iterate_eq (stuck : ε) (advances : Advances body)
    {fuel fuel' : Nat} (enough : tokens.length < fuel)
    (enough' : tokens.length < fuel') (b : β) :
    iterate body stuck fuel b tokens = iterate body stuck fuel' b tokens := by
  induction fuel generalizing fuel' b tokens with
  | zero => omega
  | succ fuel ih =>
    cases fuel' with
    | zero => omega
    | succ fuel' =>
      rw [iterate_succ, iterate_succ]
      show (body b tokens >>= _) = (body b tokens >>= _)
      cases read : body b tokens with
      | error e => rfl
      | ok r =>
        obtain ⟨either, rest⟩ := r
        cases either with
        | inl b' =>
          have fewer := advances b tokens b' rest read
          exact ih (by omega) (by omega) b'
        | inr a => rfl

/-- An error of the loop is one of its body. -/
theorem iterate_error {P : ε → Prop} {stuck : ε}
    (inner : ∀ b tokens e, body b tokens = .error e → P e) (outer : P stuck) {fuel : Nat} {b : β}
    {e : ε} (h : iterate body stuck fuel b tokens = .error e) : P e := by
  induction fuel generalizing b tokens with
  | zero =>
    cases h
    exact outer
  | succ fuel ih =>
    have h : (body b tokens >>= fun r => goOn (iterate body stuck fuel) r.1 r.2) = .error e := h
    cases read : body b tokens with
    | error e' =>
      rw [read] at h
      cases h
      exact inner b tokens _ read
    | ok r =>
      obtain ⟨next, rest⟩ := r
      rw [read] at h
      cases next with
      | inl b' => exact ih h
      | inr a => cases h

/-- The loop is the loop of the source: it never stops because its runs are used up. -/
theorem loop_eq (stuck : ε) (advances : Advances body) (b : β) :
    loop body stuck b = body b >>= goOn (loop body stuck) := by
  funext tokens
  rw [loop, iterate_succ]
  show (body b tokens >>= _) = (body b tokens >>= _)
  cases read : body b tokens with
  | error e => rfl
  | ok r =>
    obtain ⟨either, rest⟩ := r
    cases either with
    | inl b' =>
      exact iterate_eq stuck advances (advances b tokens b' rest read) (Nat.lt_succ_self _) b'
    | inr a => rfl

end Parse

end MailStack.Lib
