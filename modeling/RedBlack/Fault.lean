import RedBlack.Node

/-! What an operation can answer besides its result: a refusal leaves everything as it was, a violation
is a finding of validation, and a fault ends the operation because the stored links make no sense to it. -/
namespace RedBlack

/-- The longest list of ancestors a cursor records, and the deepest level validation accepts. -/
def heightLimit : Nat := 64

inductive Refusal where
  | duplicateKey
  | notFound
  | capacityExceeded (limit : Nat)
  deriving DecidableEq, Repr

def Refusal.message : Refusal → String
  | duplicateKey => "key is already present in the tree"
  | notFound => "key is not present in the tree"
  | capacityExceeded limit => s!"tree height exceeds the cursor path capacity of {limit}"

inductive Violation where
  | redRoot
  | redRed (parent child : Nat)
  | blackHeight (node left right : Nat)
  | order (node : Nat)
  | tooDeep (depth limit : Nat)
  deriving DecidableEq, Repr

def Violation.message : Violation → String
  | redRoot => "root is red"
  | redRed parent child => s!"red node at index {parent} has a red child at index {child}"
  | blackHeight node left right =>
      s!"black height mismatch below index {node}: {left} on the left, {right} on the right"
  | order node => s!"keys out of order at index {node}"
  | tooDeep depth limit => s!"tree depth {depth} exceeds the path capacity of {limit}"

inductive Fault where
  | absent (id : NodeId)
  | outOfRange
  | sameNode
  | exchangeAbsent (a b : NodeId)
  | missingPivot
  | redRootParent
  | parentlessLink
  | leftOfSentinel
  | siblingOfRoot
  | emptyDescent
  | lostKey
  | unlinkedVanished
  | broken (violation : Violation)
  | strayNodes (linked live : Nat)
  | pathOverflow (limit : Nat)
  | endless
  deriving DecidableEq, Repr

def Fault.message : Fault → String
  | absent id => s!"{id.label} does not name a live node"
  | outOfRange => "bounds"
  | sameNode => "same node"
  | exchangeAbsent a b => s!"cannot swap entries of {a.label} and {b.label}: slot is not live"
  | missingPivot => "rotation pivot must exist"
  | redRootParent => "a red node is never the root"
  | parentlessLink => "an absent link always has a parent"
  | leftOfSentinel =>
      "assertion `left == right` failed: the sentinel only links forward\n  left: Reverse\n right: Forward"
  | siblingOfRoot => "the sentinel has no sibling links"
  | emptyDescent => "a non-empty tree yields at least one step"
  | lostKey => "the key was found before descending"
  | unlinkedVanished => "an unlinked node is still live in the arena"
  | broken violation => s!"red-black invariant violated: {violation.message}"
  | strayNodes linked live =>
      s!"assertion `left == right` failed: every live node must be linked\n  left: {linked}\n right: {live}"
  | pathOverflow limit => (Refusal.capacityExceeded limit).message
  | endless => "the links lead in a circle"

end RedBlack
