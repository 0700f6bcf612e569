/-! Ordering policies. A policy is any total function on two keys: the tree's shape is kept in order
under every policy, and only statements about sorted keys ask it to be a total preorder. -/
namespace RedBlack

abbrev Policy (K : Type) := K → K → Ordering

namespace Policy
variable {K : Type}

def natural [Ord K] : Policy K := compare

def reversed (policy : Policy K) : Policy K := fun a b => policy b a

def byMeasure (measure : K → Nat) : Policy K := fun a b => compare (measure a) (measure b)

def thenBy (first second : Policy K) : Policy K := fun a b => (first a b).then (second a b)

def constantly (answer : Ordering) : Policy K := fun _ _ => answer

end Policy

end RedBlack
