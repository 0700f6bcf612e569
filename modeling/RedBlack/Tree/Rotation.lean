import RedBlack.Tree.Basic

/-! Color flips and rotations. A rotation writes only the nodes it turns: the link above the subtree is
left to the caller, which gets the new top. -/
namespace RedBlack.Tree
variable {σ K V : Type} [Storage σ K V]

def require {α : Type} (fault : Fault) : Option α → Except Fault α
  | some a => .ok a
  | none => .error fault

def flip (store : σ) (id : NodeId) : Except Fault σ := do
  let store ← Storage.paint store id .red
  let store ← blacken store (← Storage.child store id .left)
  blacken store (← Storage.child store id .right)
where
  blacken (store : σ) : Option NodeId → Except Fault σ
    | none => .ok store
    | some kid => Storage.paint store kid .black

def single (store : σ) (top : NodeId) (side : Side) : Except Fault (NodeId × σ) := do
  let pivot ← require .missingPivot (← Storage.child store top side.opposite)
  let inner ← Storage.child store pivot side
  let store ← Storage.modify store top fun node => (node.setChild side.opposite inner).paint .red
  let store ← Storage.modify store pivot fun node => (node.setChild side (some top)).paint .black
  return (pivot, store)

/-- The child opposite `side` is first turned away from `side`, then `top` toward it: the inner
grandchild is lifted over both. -/
def double (store : σ) (top : NodeId) (side : Side) : Except Fault (NodeId × σ) := do
  let pivot ← require .missingPivot (← Storage.child store top side.opposite)
  let (lifted, store) ← single store pivot side.opposite
  let store ← Storage.setChild store top side.opposite (some lifted)
  single store top side

end RedBlack.Tree
