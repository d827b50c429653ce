import MailStack.Lib.Handler
import MailStack.Lib.Table

/-! Trees of files as tables of paths, the operations that change them, and what these leave
alone. -/

namespace MailStack.Lib

/-- The components of a path below the root of the tree, of which the first is the topmost. -/
abbrev Path := List String

/-- What stands under each path. -/
abbrev FileTree (ν : Type) := Table Path ν

namespace FileTree

variable {ν : Type}

/-- What stands under a path and below it, each with the rest of its path. -/
def below (p : Path) (t : FileTree ν) : List (Path × ν) :=
  t.entries.filterMap fun e => if p.isPrefixOf e.1 then some (e.1.drop p.length, e.2) else none

def removeBelow (p : Path) (t : FileTree ν) : FileTree ν := t.retain fun q _ => !p.isPrefixOf q

/-- What stands under `source` and below it moves to `target`. -/
def move (source target : Path) (t : FileTree ν) : FileTree ν :=
  (below source t).foldl (fun t e => t.put (target ++ e.1) e.2) (removeBelow source t)

/-- The names directly below a path. -/
def children (p : Path) (t : FileTree ν) : List String :=
  (below p t).filterMap fun e => if e.1.length = 1 then e.1.head? else none

/-- The trees agree but under the paths that are `touched`. -/
def Same (touched : Path → Prop) (t t' : FileTree ν) : Prop :=
  ∀ q, ¬touched q → t'.get q = t.get q

variable {touched touched' : Path → Prop} {t t' t'' : FileTree ν} {p q source target : Path} {a : ν}

namespace Same

theorem refl (touched : Path → Prop) (t : FileTree ν) : Same touched t t := fun _ _ => rfl

theorem put (same : Same touched t t') (inside : touched p) : Same touched t (t'.put p a) := by
  intro q free
  have other : q ≠ p := by
    rintro rfl
    exact free inside
  rw [Table.get_put_ne other]
  exact same q free

theorem removeBelow (same : Same touched t t') (inside : ∀ q, p <+: q → touched q) :
    Same touched t (removeBelow p t') := by
  intro q free
  have apart : ¬p <+: q := fun h => free (inside q h)
  rw [FileTree.removeBelow, Table.get_retain, same q free]
  cases t.get q with
  | none => rfl
  | some a =>
    rw [← List.isPrefixOf_iff_prefix] at apart
    simp [apart]

theorem foldl_put {entries : List (Path × ν)} (same : Same touched t t')
    (inside : ∀ q, target <+: q → touched q) :
    Same touched t (entries.foldl (fun t e => t.put (target ++ e.1) e.2) t') := by
  induction entries generalizing t' with
  | nil => exact same
  | cons e rest ih => exact ih (same.put (inside _ (List.prefix_append _ _)))

theorem move (same : Same touched t t') (fromHere : ∀ q, source <+: q → touched q)
    (toHere : ∀ q, target <+: q → touched q) : Same touched t (move source target t') :=
  (same.removeBelow fromHere).foldl_put toHere

end Same

/-- The names directly below a path are those of the entries there. -/
theorem mem_children {name : String} :
    name ∈ children p t ↔ (t.get (p ++ [name])).isSome = true := by
  constructor
  · intro mem
    obtain ⟨⟨rest, a⟩, inBelow, eq⟩ := List.mem_filterMap.mp mem
    obtain ⟨⟨path, b⟩, inTable, here⟩ := List.mem_filterMap.mp inBelow
    split at here
    · rename_i isPrefix
      obtain ⟨rfl, rfl⟩ := Prod.mk.inj (Option.some.inj here)
      obtain ⟨rest, rfl⟩ := List.isPrefixOf_iff_prefix.mp isPrefix
      split at eq
      · rename_i single
        rw [List.drop_left] at single eq
        obtain ⟨only, rfl⟩ := List.length_eq_one_iff.mp single
        obtain rfl := Option.some.inj eq
        rw [Table.get_eq_some_iff.mpr inTable]
        rfl
      · cases eq
    · cases here
  · intro here
    obtain ⟨a, found⟩ := Option.isSome_iff_exists.mp here
    refine List.mem_filterMap.mpr ⟨([name], a), ?_, rfl⟩
    refine List.mem_filterMap.mpr ⟨⟨p ++ [name], a⟩, Table.get_eq_some_iff.mp found, ?_⟩
    rw [if_pos (List.isPrefixOf_iff_prefix.mpr (List.prefix_append _ _)), List.drop_left]

end FileTree

section

variable {ε σ α : Type} {P : σ → Prop}

theorem Keeps.modify {f : σ → σ} (kept : ∀ s, P s → P (f s)) :
    Keeps P (modify f : EStateM ε σ Unit) := fun s good => kept s good

/-- A check that may stop the handler. -/
theorem Keeps.check {c : Prop} [Decidable c] {e : ε} {f : Unit → EStateM ε σ α}
    (next : Keeps P (f ())) : Keeps P (if c then MonadExcept.throw e >>= f else f ()) := by
  split
  · exact fun _ good => good
  · exact next

end

end MailStack.Lib
