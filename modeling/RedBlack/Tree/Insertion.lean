import RedBlack.Traced
import RedBlack.Tree.Rotation
import RedBlack.Tree.Search

/-! Insertion in one pass from the root. Nodes with two red children are flipped on the way down; where
that leaves a red node under a red parent, the grandparent is rotated at once. The new node is linked
red at the first absent link, and the root is painted black at the end. -/
namespace RedBlack.Tree
variable {σ K V : Type} [Storage σ K V]

/-- The stretch of the path that the pass keeps in view. `current` hangs from `parent` on `side`, and
`parent` from `grand` on `lastSide`; `great` is above `grand`, where `none` is the sentinel. A rotation
leaves the upper names behind, and they come right again before the next one is due. -/
structure Window (σ : Type) where
  tree : Tree σ
  great : Option NodeId
  grand : Option NodeId
  parent : Option NodeId
  current : Option NodeId
  side : Side
  lastSide : Side

namespace Window

def start (t : Tree σ) : Window σ := ⟨t, none, none, none, t.root, .left, .left⟩

def arrive (w : Window σ) (id : NodeId) : Traced (Tree σ × NodeId) := do
  match w.current with
  | some current =>
      if ← Storage.isRed w.tree.store (← Storage.child w.tree.store current .left) then
        if ← Storage.isRed w.tree.store (← Storage.child w.tree.store current .right) then
          Traced.note (.insertFlip current)
          let store ← flip w.tree.store current
          return ({ w.tree with store }, current)
      return (w.tree, current)
  | none =>
      let parent ← require .parentlessLink w.parent
      let store ← Storage.setChild w.tree.store parent w.side (some id)
      return ({ w.tree with store }, id)

def settle (w : Window σ) (t : Tree σ) (current : NodeId) : Traced (Tree σ) := do
  match w.parent with
  | none => return t
  | some parent =>
      if ← Storage.isRed t.store (some parent) then
        if ← Storage.isRed t.store (some current) then
          let grand ← require .redRootParent w.grand
          let side ← t.sideOf w.great grand
          let (top, store) ←
            if (← Storage.child t.store parent w.lastSide) = some current then do
              Traced.note (.insertSingle grand)
              Traced.lift (single t.store grand w.lastSide.opposite)
            else do
              Traced.note (.insertDouble grand)
              Traced.lift (double t.store grand w.lastSide.opposite)
          return ← { t with store }.setSlot w.great side (some top)
      return t

def advance (policy : Policy K) (w : Window σ) (t : Tree σ) (id current : NodeId) :
    Except Fault (Window σ) := do
  let new ← Storage.node t.store id
  let node ← Storage.node t.store current
  let side := Side.toward (policy new.key node.key)
  return ⟨t, w.grand <|> w.great, w.parent, some current, node.child side, side, w.side⟩

def round (policy : Policy K) (id : NodeId) (w : Window σ) :
    Traced (Traced.Turn (Window σ) (Tree σ)) := do
  let (t, current) ← w.arrive id
  let t ← w.settle t current
  if current = id then return .done t
  return .again (← w.advance policy t id current)

end Window

def insert (policy : Policy K) (t : Tree σ) (id : NodeId) : Traced (Except Refusal Unit × Tree σ) := do
  let new ← Storage.node t.store id
  if let some holder ← search policy t new.key then
    Traced.note (.insertRefused id holder)
    return (.error .duplicateKey, t)
  let store ← Storage.modify t.store id Node.reset
  let t := { t with store }
  match t.root with
  | none => return (.ok (), ← { t with root := some id }.paintRoot .black)
  | some _ =>
      let t ← Traced.loop (Window.round policy id) (passLimit (Storage.slotCount t.store)) (.start t)
      return (.ok (), ← t.paintRoot .black)

end RedBlack.Tree
