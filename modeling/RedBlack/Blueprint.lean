import RedBlack.Tree.Basic

/-! A colored tree written down as data, and its storage node by node. Nothing is balanced or checked: an
invalid tree is stored as it is described. -/
namespace RedBlack

inductive Blueprint where
  | absent
  | node (color : Color) (key : Int) (left right : Blueprint)
  deriving DecidableEq, Repr

namespace Blueprint

def size : Blueprint → Nat
  | absent => 0
  | node _ _ left right => left.size + right.size + 1

def valueOf (key : Int) : Int := key * 10

def layOut (nodes : Array (Node Int Int)) : Blueprint → Option NodeId × Array (Node Int Int)
  | absent => (none, nodes)
  | node color key left right =>
      let id : NodeId := ⟨nodes.size⟩
      let (leftLink, nodes) := layOut (nodes.push (.fresh key (valueOf key))) left
      let (rightLink, nodes) := layOut nodes right
      (some id, nodes.modify id.index fun n => { n with color, left := leftLink, right := rightLink })

def build (b : Blueprint) : Tree (Array (Node Int Int)) :=
  let (root, store) := layOut #[] b
  ⟨root, store⟩

end Blueprint

end RedBlack
