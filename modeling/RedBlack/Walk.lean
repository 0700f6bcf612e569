import RedBlack.Cursor

/-! Entries in key order, ascending or descending, one at a time or all together. -/
namespace RedBlack

structure Walk (σ : Type) where
  cursor : Cursor σ
  side : Side

namespace Walk
variable {σ K V : Type} [Storage σ K V]

def start (t : Tree σ) (side : Side) : Traced (Walk σ) := do
  return ⟨← Cursor.atEnd t side.opposite, side⟩

def next (w : Walk σ) : Traced (Option (K × V) × Walk σ) := do
  match ← w.cursor.entry with
  | none => return (none, w)
  | some entry => return (some entry, ⟨← w.cursor.step w.side, w.side⟩)

def collect : Nat → Walk σ → Traced (List (K × V))
  | 0, _ => Traced.fail .endless
  | steps + 1, w => do
      match ← w.next with
      | (none, _) => return []
      | (some entry, w) => return entry :: (← collect steps w)

def toList (w : Walk σ) : Traced (List (K × V)) := collect (Nat.pow 2 (heightLimit + 2)) w

end Walk

def Tree.entries {σ K V : Type} [Storage σ K V] (t : Tree σ) (side : Side) : Traced (List (K × V)) := do
  (← Walk.start t side).toList

end RedBlack
