import RedBlack.Traced
import RedBlack.Tree.Rotation
import RedBlack.Tree.Search

/-! Erasure in one pass from the sentinel. Before the pass enters a black child of a black node it pushes
a red node down the path, so that the node unlinked at the bottom is red and no path loses a black
node. The pass goes on below the match to the successor, whose entry the matching node takes over. -/
namespace RedBlack.Tree
variable {σ K V : Type} [Storage σ K V]

/-- Where the pass stands: `current` hangs from `parent`, the pass leaves it on `side`, and `found` is
the last node that matched. `none` is the sentinel. -/
structure Descent (σ : Type) where
  tree : Tree σ
  parent : Option NodeId
  current : Option NodeId
  found : Option NodeId
  side : Side

namespace Descent

def start (t : Tree σ) : Descent σ := ⟨t, none, none, none, .right⟩

def lift (d : Descent σ) (lastSide : Side) (current : NodeId) : Traced (Descent σ) := do
  Traced.note (.eraseLift current)
  let (top, store) ← single d.tree.store current d.side
  let tree ← { d.tree with store }.setSlot d.parent lastSide (some top)
  return { d with tree, parent := some top }

def recolor (d : Descent σ) (parent sibling current : NodeId) : Traced (Descent σ) := do
  Traced.note (.eraseFlip parent)
  let store ← Storage.paint d.tree.store parent .black
  let store ← Storage.paint store sibling .red
  let store ← Storage.paint store current .red
  return { d with tree := { d.tree with store } }

def borrowRed (d : Descent σ) (grand : Option NodeId) (lastSide : Side) (parent sibling current : NodeId) :
    Traced (Descent σ) := do
  let side ← d.tree.sideOf grand parent
  let (top, store) ←
    if ← Storage.isRed d.tree.store (← Storage.child d.tree.store sibling lastSide) then do
      Traced.note (.eraseDouble parent)
      Traced.lift (double d.tree.store parent lastSide)
    else do
      Traced.note (.eraseSingle parent)
      Traced.lift (single d.tree.store parent lastSide)
  let tree ← { d.tree with store }.setSlot grand side (some top)
  let store ← Storage.paint tree.store current .red
  let store ← flip store top
  return { d with tree := { tree with store } }

def pushDown (d : Descent σ) (grand : Option NodeId) (lastSide : Side) (current : NodeId) :
    Traced (Descent σ) := do
  match ← d.tree.slot d.parent lastSide.opposite with
  | none => return d
  | some sibling =>
      let parent ← require .siblingOfRoot d.parent
      if ← Storage.isRed d.tree.store (← Storage.child d.tree.store sibling lastSide.opposite) then
        d.borrowRed grand lastSide parent sibling current
      else if ← Storage.isRed d.tree.store (← Storage.child d.tree.store sibling lastSide) then
        d.borrowRed grand lastSide parent sibling current
      else
        d.recolor parent sibling current

def round (policy : Policy K) (key : K) (d : Descent σ) :
    Traced (Traced.Turn (Descent σ) (Descent σ)) := do
  match ← d.tree.slot d.current d.side with
  | none => return .done d
  | some current =>
      let node ← Storage.node d.tree.store current
      let order := policy key node.key
      let next : Descent σ :=
        ⟨d.tree, d.current, some current, if order = .eq then some current else d.found, .toward order⟩
      if node.isRed then return .again next
      else if ← Storage.isRed d.tree.store (node.child next.side) then return .again next
      else if ← Storage.isRed d.tree.store (node.child next.side.opposite) then
        return .again (← next.lift d.side current)
      else
        return .again (← next.pushDown d.parent d.side current)

def unlink (d : Descent σ) : Except Fault (NodeId × Tree σ) := do
  let leaf ← require .emptyDescent d.current
  let target ← require .lostKey d.found
  let store ← if target = leaf then pure d.tree.store else Storage.swapEntries d.tree.store target leaf
  let t := { d.tree with store }
  let side ← t.sideOf d.parent leaf
  let left ← Storage.child t.store leaf .left
  let right ← Storage.child t.store leaf .right
  let t ← t.setSlot d.parent side (left <|> right)
  let store ← Storage.modify t.store leaf Node.reset
  return (leaf, ← { t with store }.paintRoot .black)

end Descent

def erase (policy : Policy K) (t : Tree σ) (key : K) : Traced (Except Refusal NodeId × Tree σ) := do
  match ← search policy t key with
  | none =>
      Traced.note .eraseMissed
      return (.error .notFound, t)
  | some _ =>
      let d ← Traced.loop (Descent.round policy key) (passLimit (Storage.slotCount t.store)) (.start t)
      let (leaf, t) ← d.unlink
      return (.ok leaf, t)

end RedBlack.Tree
