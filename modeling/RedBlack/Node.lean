/-! Nodes of a linked tree: a color, two child links and an entry. A link is the position of a slot
in whatever storage holds the nodes; nothing here says that the slot exists. -/
namespace RedBlack

structure NodeId where
  index : Nat
  deriving DecidableEq, Repr, Inhabited

def NodeId.label (id : NodeId) : String := s!"NodeId({id.index})"

inductive Color where
  | red
  | black
  deriving DecidableEq, Repr

inductive Side where
  | left
  | right
  deriving DecidableEq, Repr

namespace Side

def opposite : Side → Side
  | left => right
  | right => left

/-- The side on which a search goes on; past an equal key it goes toward the successor. -/
def toward : Ordering → Side
  | .lt => left
  | .eq | .gt => right

@[simp] theorem oppositeOpposite (side : Side) : side.opposite.opposite = side := by
  cases side <;> rfl

theorem eqOpposite {side other : Side} (apart : side ≠ other) : side = other.opposite := by
  cases side <;> cases other <;> first | rfl | exact absurd rfl apart

end Side

structure Node (K V : Type) where
  color : Color
  left : Option NodeId
  right : Option NodeId
  key : K
  value : V
  deriving DecidableEq, Repr

namespace Node
variable {K V : Type}

def fresh (key : K) (value : V) : Node K V := ⟨.red, none, none, key, value⟩

def entry (node : Node K V) : K × V := (node.key, node.value)

def isRed (node : Node K V) : Bool := node.color = .red

def child (node : Node K V) : Side → Option NodeId
  | .left => node.left
  | .right => node.right

def setChild (node : Node K V) (side : Side) (link : Option NodeId) : Node K V :=
  match side with
  | .left => { node with left := link }
  | .right => { node with right := link }

def paint (node : Node K V) (color : Color) : Node K V := { node with color }

def reset (node : Node K V) : Node K V := fresh node.key node.value

def takeEntry (node other : Node K V) : Node K V := { node with key := other.key, value := other.value }

end Node

end RedBlack
