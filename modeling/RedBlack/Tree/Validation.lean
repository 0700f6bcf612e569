import RedBlack.Tree.Search

/-! The red-black invariants of a linked tree, checked in one walk: a black root, no red child under a
red node, keys that strictly increase from left to right, equally many black nodes on every way down,
and no node below the deepest level a cursor can reach. The first violation met ends the walk. -/
namespace RedBlack.Tree
variable {σ K V : Type} [Storage σ K V]

def checkColors (store : σ) (id : NodeId) (node : Node K V) : ExceptT Violation (Except Fault) Unit := do
  if node.isRed then
    checkKid node.left
    checkKid node.right
where
  checkKid : Option NodeId → ExceptT Violation (Except Fault) Unit
    | none => pure ()
    | some kid => do
        if ← Storage.isRed store (some kid) then throw (.redRed id.index kid.index)

def checkOrder (policy : Policy K) (store : σ) (before : Option NodeId) (id : NodeId) (node : Node K V) :
    ExceptT Violation (Except Fault) Unit := do
  if let some before := before then
    let earlier ← Storage.node store before
    if policy earlier.key node.key ≠ .lt then throw (.order id.index)

def checkBelow (policy : Policy K) (store : σ) : (levels depth : Nat) → Option NodeId → Option NodeId →
    ExceptT Violation (Except Fault) (Nat × Option NodeId)
  | _, _, none, before => return (0, before)
  | 0, depth, some _, _ => throw (.tooDeep depth heightLimit)
  | levels + 1, depth, some id, before => do
      let node ← Storage.node store id
      checkColors store id node
      let (left, before) ← checkBelow policy store levels (depth + 1) node.left before
      checkOrder policy store before id node
      let (right, before) ← checkBelow policy store levels (depth + 1) node.right (some id)
      if left ≠ right then throw (.blackHeight id.index left right)
      return (if node.isRed then left else left + 1, before)

def validate (policy : Policy K) (t : Tree σ) : Except Fault (Except Violation Nat) :=
  ExceptT.run do
    if ← Storage.isRed t.store t.root then throw .redRoot
    return (← checkBelow policy t.store heightLimit 1 t.root none).1

def assertInvariants (policy : Policy K) (t : Tree σ) : Except Fault Unit := do
  match ← t.validate policy with
  | .ok _ => return ()
  | .error violation => throw (.broken violation)

end RedBlack.Tree
