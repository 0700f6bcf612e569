import RedBlack.Storage

/-! A tree is a root and the storage its links point into. The root hangs from a sentinel, so that the
link above any node can be read and written the same way: `none` names the sentinel, whose right link
is the root and which has no left link. -/
namespace RedBlack

structure Tree (σ : Type) where
  root : Option NodeId
  store : σ
  deriving DecidableEq, Repr

namespace Tree
variable {σ K V : Type}

def rootless (store : σ) : Tree σ := ⟨none, store⟩

def isEmpty (t : Tree σ) : Bool := t.root.isNone

def clear (t : Tree σ) : Tree σ := { t with root := none }

variable [Storage σ K V]

def slot (t : Tree σ) (parent : Option NodeId) (side : Side) : Except Fault (Option NodeId) :=
  match parent, side with
  | some id, side => Storage.child t.store id side
  | none, .right => .ok t.root
  | none, .left => .ok none

def setSlot (t : Tree σ) (parent : Option NodeId) (side : Side) (link : Option NodeId) :
    Except Fault (Tree σ) :=
  match parent, side with
  | some id, side => (Storage.setChild t.store id side link).map fun store => { t with store }
  | none, .right => .ok { t with root := link }
  | none, .left => .error .leftOfSentinel

def sideOf (t : Tree σ) (parent : Option NodeId) (id : NodeId) : Except Fault Side := do
  return if (← t.slot parent .right) = some id then .right else .left

def paintRoot (t : Tree σ) (color : Color) : Except Fault (Tree σ) :=
  match t.root with
  | none => .ok t
  | some root => (Storage.paint t.store root color).map fun store => { t with store }

/-- More rounds than there are states of a pass over this many slots. Nodes keep their keys while a
pass runs, so what changes is a color and two links per slot, the root, four places on the path and
two sides; every link takes one of the values that occur to begin with. A pass that runs longer has
been in one state twice and never ends. -/
def passLimit (slots : Nat) : Nat :=
  let links := 2 * slots + 3
  4 * Nat.pow links 5 * Nat.pow (2 * Nat.pow links 2) slots

end Tree

end RedBlack
