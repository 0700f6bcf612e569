import RedBlack.Storage

/-! A slab of nodes that hands out slots, takes them back and hands them out again, the most recently
freed first. -/
namespace RedBlack

structure Slab (K V : Type) where
  slots : Array (Option (Node K V))
  free : List NodeId
  live : Nat
  deriving DecidableEq, Repr

namespace Slab
variable {K V : Type}

def empty : Slab K V := ⟨#[], [], 0⟩

def ofNodes (nodes : Array (Node K V)) : Slab K V := ⟨nodes.map some, [], nodes.size⟩

def get? (slab : Slab K V) (id : NodeId) : Option (Node K V) := slab.slots[id.index]?.join

def put (slab : Slab K V) (id : NodeId) (node : Node K V) : Slab K V :=
  if (slab.get? id).isSome then { slab with slots := slab.slots.setIfInBounds id.index (some node) }
  else slab

def slotCount (slab : Slab K V) : Nat := slab.slots.size

def isEmpty (slab : Slab K V) : Bool := slab.live = 0

def alloc (slab : Slab K V) (key : K) (value : V) : NodeId × Slab K V :=
  let node := some (Node.fresh key value)
  match slab.free with
  | id :: rest => (id, ⟨slab.slots.setIfInBounds id.index node, rest, slab.live + 1⟩)
  | [] => (⟨slab.slots.size⟩, ⟨slab.slots.push node, [], slab.live + 1⟩)

def remove (slab : Slab K V) (id : NodeId) : Option (K × V) × Slab K V :=
  match slab.get? id with
  | some node =>
      (some node.entry, ⟨slab.slots.setIfInBounds id.index none, id :: slab.free, slab.live - 1⟩)
  | none => (none, slab)

theorem getEqSome {slab : Slab K V} {id : NodeId} {node : Node K V} :
    slab.get? id = some node ↔ slab.slots[id.index]? = some (some node) := by
  simp [get?, Option.join_eq_some_iff]

theorem getLt {slab : Slab K V} {id : NodeId} {node : Node K V} (h : slab.get? id = some node) :
    id.index < slab.slots.size := (Array.getElem?_eq_some_iff.mp (getEqSome.mp h)).1

theorem putOfNone {slab : Slab K V} {id : NodeId} (h : slab.get? id = none) (node : Node K V) :
    slab.put id node = slab := by simp [put, h]

theorem putOfSome {slab : Slab K V} {id : NodeId} {old : Node K V} (h : slab.get? id = some old)
    (node : Node K V) :
    slab.put id node = { slab with slots := slab.slots.setIfInBounds id.index (some node) } := by
  simp [put, h]

theorem getPut (slab : Slab K V) (id : NodeId) (node : Node K V) :
    (slab.put id node).get? id = (slab.get? id).map fun _ => node := by
  cases h : slab.get? id with
  | none => simp [putOfNone h, h]
  | some old =>
      rw [putOfSome h]
      simp [get?, getLt h]

theorem getPutOther (slab : Slab K V) {id other : NodeId} (node : Node K V) (distinct : other ≠ id) :
    (slab.put id node).get? other = slab.get? other := by
  have apart : id.index ≠ other.index := fun e => distinct (by cases id; cases other; simp_all)
  cases h : slab.get? id with
  | none => simp [putOfNone h]
  | some old =>
      rw [putOfSome h]
      simp [get?, apart]

theorem slotCountPut (slab : Slab K V) (id : NodeId) (node : Node K V) :
    (slab.put id node).slotCount = slab.slotCount := by
  unfold put slotCount
  split <;> simp

end Slab

instance slabStorage {K V : Type} : Storage (Slab K V) K V where
  slotCount := Slab.slotCount
  get? := Slab.get?
  put := Slab.put
  missing _ id := .absent id
  inRange h := Slab.getLt h
  slotCountPut := Slab.slotCountPut
  getPutHere := Slab.getPut
  getPutElsewhere slab _ _ node distinct := Slab.getPutOther slab node distinct

end RedBlack
