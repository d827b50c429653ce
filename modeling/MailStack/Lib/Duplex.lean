import Mathlib.Logic.Relation

/-! Two machines that send messages to each other. A message waits until the other machine takes it,
and messages to one machine keep their order. The turns can be taken in any order; where the
messages run out, both machines are in states that do not depend on it. -/

namespace MailStack.Lib

open Relation

variable {σ τ α β : Type*}

/-- What a machine makes of messages that it takes one after the other: its last state, and all that
it sends. -/
def feed (receive : σ → α → σ × List β) : σ → List α → σ × List β
  | s, [] => (s, [])
  | s, m :: ms =>
    let next := receive s m
    let last := feed receive next.1 ms
    (last.1, next.2 ++ last.2)

@[simp] theorem feed_nil (receive : σ → α → σ × List β) (s : σ) : feed receive s [] = (s, []) := rfl

theorem feed_cons (receive : σ → α → σ × List β) (s : σ) (m : α) (ms : List α) :
    feed receive s (m :: ms) =
      ((feed receive (receive s m).1 ms).1, (receive s m).2 ++
        (feed receive (receive s m).1 ms).2) :=
  rfl

theorem feed_append (receive : σ → α → σ × List β) (s : σ) (ms more : List α) :
    feed receive s (ms ++ more) =
      ((feed receive (feed receive s ms).1 more).1,
        (feed receive s ms).2 ++ (feed receive (feed receive s ms).1 more).2) := by
  induction ms generalizing s with
  | nil => simp
  | cons m ms ih => simp [feed_cons, ih]

/-- A machine that answers nothing and stays where it is. -/
theorem feed_idle {receive : σ → α → σ × List β} {s : σ} (idle : ∀ m, receive s m = (s, []))
    (ms : List α) : feed receive s ms = (s, []) := by
  induction ms with
  | nil => rfl
  | cons m ms ih => simp [feed_cons, idle, ih]

/-- Both machines, and the messages on their way to each. -/
structure Duplex (σ τ α β : Type*) where
  left : σ
  right : τ
  toLeft : List β
  toRight : List α

namespace Duplex

/-- One of the machines takes its next message. -/
inductive Step (f : σ → β → σ × List α) (g : τ → α → τ × List β) :
    Duplex σ τ α β → Duplex σ τ α β → Prop
  | left (s : σ) (t : τ) (m : β) (ms : List β) (out : List α) :
      Step f g ⟨s, t, m :: ms, out⟩ ⟨(f s m).1, t, ms, out ++ (f s m).2⟩
  | right (s : σ) (t : τ) (m : α) (ms : List α) (out : List β) :
      Step f g ⟨s, t, out, m :: ms⟩ ⟨s, (g t m).1, out ++ (g t m).2, ms⟩

abbrev Steps (f : σ → β → σ × List α) (g : τ → α → τ × List β) :
    Duplex σ τ α β → Duplex σ τ α β → Prop :=
  ReflTransGen (Step f g)

/-- No message is on its way. -/
def AtRest (n : Duplex σ τ α β) : Prop := n.toLeft = [] ∧ n.toRight = []

variable {f : σ → β → σ × List α} {g : τ → α → τ × List β} {n m k : Duplex σ τ α β}

/-- The two machines do not get in each other's way: what is sent goes behind what is taken. -/
theorem step_diamond (first : Step f g n m) (second : Step f g n k) :
    m = k ∨ ∃ d, Step f g m d ∧ Step f g k d := by
  cases first with
  | left s t b ms out =>
    cases second with
    | left => exact .inl rfl
    | right _ _ a rest _ =>
      refine .inr ⟨⟨(f s b).1, (g t a).1, ms ++ (g t a).2, rest ++ (f s b).2⟩, ?_, ?_⟩
      · exact .right _ t a (rest ++ (f s b).2) ms
      · exact .left s _ b (ms ++ (g t a).2) rest
  | right s t a ms out =>
    cases second with
    | right => exact .inl rfl
    | left _ _ b rest _ =>
      refine .inr ⟨⟨(f s b).1, (g t a).1, rest ++ (g t a).2, ms ++ (f s b).2⟩, ?_, ?_⟩
      · exact .left s _ b (rest ++ (g t a).2) ms
      · exact .right _ t a (ms ++ (f s b).2) rest

theorem AtRest.eq_of_steps (rest : AtRest n) (steps : Steps f g n m) : m = n := by
  cases steps.cases_head with
  | inl eq => exact eq.symm
  | inr more =>
    obtain ⟨next, step, -⟩ := more
    cases step with
    | left => cases rest.1
    | right => cases rest.2

/-- If one order of turns ends at rest, every order of turns leads there. -/
theorem steps_to_rest (steps : Steps f g n k) (rest : AtRest k) (other : Steps f g n m) :
    Steps f g m k := by
  obtain ⟨joined, fromOther, fromRest⟩ :=
    church_rosser (fun a b c first second => by
      obtain rfl | ⟨d, left, right⟩ := step_diamond first second
      · exact ⟨b, .refl, .refl⟩
      · exact ⟨d, .single left, .single right⟩) other steps
  rw [rest.eq_of_steps fromRest] at fromOther
  exact fromOther

/-- The left machine takes the messages that are first. -/
theorem steps_left (s : σ) (t : τ) (ms rest : List β) (out : List α) :
    Steps f g ⟨s, t, ms ++ rest, out⟩ ⟨(feed f s ms).1, t, rest, out ++ (feed f s ms).2⟩ := by
  induction ms generalizing s out with
  | nil => simpa using ReflTransGen.refl
  | cons m ms ih =>
    have later := ih (f s m).1 (out ++ (f s m).2)
    rw [List.append_assoc] at later
    exact .head (.left s t m (ms ++ rest) out) later

theorem steps_right (s : σ) (t : τ) (ms rest : List α) (out : List β) :
    Steps f g ⟨s, t, out, ms ++ rest⟩ ⟨s, (feed g t ms).1, out ++ (feed g t ms).2, rest⟩ := by
  induction ms generalizing t out with
  | nil => simpa using ReflTransGen.refl
  | cons m ms ih =>
    have later := ih (g t m).1 (out ++ (g t m).2)
    rw [List.append_assoc] at later
    exact .head (.right s t m (ms ++ rest) out) later

/-- The right machine answers all messages, and the left machine takes the answers. -/
theorem steps_round (s : σ) (t : τ) (ms : List α) :
    Steps f g ⟨s, t, [], ms⟩
      ⟨(feed f s (feed g t ms).2).1, (feed g t ms).1, [], (feed f s (feed g t ms).2).2⟩ := by
  have answered := steps_right (f := f) (g := g) s t ms [] []
  have taken := steps_left (f := f) (g := g) s (feed g t ms).1 (feed g t ms).2 [] []
  simp only [List.append_nil, List.nil_append] at answered taken
  exact answered.trans taken

/-- Both machines take all that is on its way, the right one first, so many times. -/
def rounds (f : σ → β → σ × List α) (g : τ → α → τ × List β) :
    Nat → Duplex σ τ α β → Duplex σ τ α β
  | 0, n => n
  | k + 1, n =>
    let answered := feed g n.right n.toRight
    let taken := feed f n.left (n.toLeft ++ answered.2)
    rounds f g k ⟨taken.1, answered.1, [], taken.2⟩

theorem steps_rounds (f : σ → β → σ × List α) (g : τ → α → τ × List β) (k : Nat)
    (n : Duplex σ τ α β) : Steps f g n (rounds f g k n) := by
  induction k generalizing n with
  | zero => exact .refl
  | succ k ih =>
    have answered := steps_right (f := f) (g := g) n.left n.right n.toRight [] n.toLeft
    have taken := steps_left (f := f) (g := g) n.left (feed g n.right n.toRight).1
      (n.toLeft ++ (feed g n.right n.toRight).2) [] []
    simp only [List.append_nil, List.nil_append] at answered taken
    exact (answered.trans taken).trans (ih _)

end Duplex

end MailStack.Lib
