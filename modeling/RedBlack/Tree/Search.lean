import RedBlack.Order
import RedBlack.Tree.Basic

/-! Walks that only read: the search for a key, which follows one way down, and the height and the number of linked
nodes, which keep the nodes still to be visited on a stack. -/
namespace RedBlack.Tree
variable {σ K V : Type} [Storage σ K V]

def searchFrom (policy : Policy K) (store : σ) (key : K) :
    Nat → Option NodeId → Except Fault (Option NodeId)
  | _, none => .ok none
  | 0, some _ => .error .endless
  | steps + 1, some id => do
      let node ← Storage.node store id
      match policy key node.key with
      | .eq => return some id
      | .lt => searchFrom policy store key steps node.left
      | .gt => searchFrom policy store key steps node.right

def search (policy : Policy K) (t : Tree σ) (key : K) : Except Fault (Option NodeId) :=
  searchFrom policy t.store key (Storage.slotCount t.store + 1) t.root

/-- More nodes than all ways down from a root pass over so many slots, if none of them meets a node twice. -/
def wayLimit (slots : Nat) : Nat := Nat.pow 2 slots

def heightLoop (store : σ) : Nat → List (NodeId × Nat) → Nat → Except Fault Nat
  | _, [], deepest => .ok deepest
  | 0, _ :: _, _ => .error .endless
  | steps + 1, (id, depth) :: stack, deepest => do
      let left ← Storage.child store id .left
      let right ← Storage.child store id .right
      let below := fun kid => (kid, depth + 1)
      heightLoop store steps ((right.map below).toList ++ ((left.map below).toList ++ stack)) (max deepest depth)

def height (t : Tree σ) : Except Fault Nat :=
  heightLoop t.store (wayLimit (Storage.slotCount t.store)) (t.root.map (·, 1)).toList 0

def sizeLoop (store : σ) : Nat → List NodeId → Nat → Except Fault Nat
  | _, [], count => .ok count
  | 0, _ :: _, _ => .error .endless
  | steps + 1, id :: stack, count => do
      let left ← Storage.child store id .left
      let right ← Storage.child store id .right
      sizeLoop store steps (right.toList ++ (left.toList ++ stack)) (count + 1)

def size (t : Tree σ) : Except Fault Nat :=
  sizeLoop t.store (wayLimit (Storage.slotCount t.store)) t.root.toList 0

end RedBlack.Tree
