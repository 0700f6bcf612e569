import RedBlack.Fault

/-! Where nodes are kept. A tree reads and writes nodes through this interface only, so one engine
serves an array of the caller's own nodes and a slab that recycles its slots. -/
namespace RedBlack

/-- Storage is seen through `get?`: writing changes the one slot named, if that slot holds a node,
and never makes or drops a slot. -/
class Storage (σ : Type) (K V : outParam Type) where
  slotCount : σ → Nat
  get? : σ → NodeId → Option (Node K V)
  put : σ → NodeId → Node K V → σ
  missing : σ → NodeId → Fault
  inRange : ∀ {s id node}, get? s id = some node → id.index < slotCount s
  slotCountPut : ∀ s id node, slotCount (put s id node) = slotCount s
  getPutHere : ∀ s id node, get? (put s id node) id = (get? s id).map fun _ => node
  getPutElsewhere : ∀ s {id other} node, other ≠ id → get? (put s id node) other = get? s other

namespace Storage
variable {σ K V : Type} [Storage σ K V]

def node (s : σ) (id : NodeId) : Except Fault (Node K V) :=
  match get? s id with
  | some node => .ok node
  | none => .error (missing s id)

def modify (s : σ) (id : NodeId) (f : Node K V → Node K V) : Except Fault σ :=
  (node s id).map fun node => put s id (f node)

def child (s : σ) (id : NodeId) (side : Side) : Except Fault (Option NodeId) :=
  (node s id).map (·.child side)

def isRed (s : σ) : Option NodeId → Except Fault Bool
  | none => .ok false
  | some id => (node s id).map (·.isRed)

def setChild (s : σ) (id : NodeId) (side : Side) (link : Option NodeId) : Except Fault σ :=
  modify s id (·.setChild side link)

def paint (s : σ) (id : NodeId) (color : Color) : Except Fault σ := modify s id (·.paint color)

def swapEntries (s : σ) (a b : NodeId) : Except Fault σ :=
  if a = b then .error .sameNode
  else if slotCount s ≤ a.index ∨ slotCount s ≤ b.index then .error .outOfRange
  else
    match get? s a, get? s b with
    | some x, some y => .ok (put (put s a (x.takeEntry y)) b (y.takeEntry x))
    | _, _ => .error (.exchangeAbsent a b)

theorem nodeEqOk {s : σ} {id : NodeId} {n : Node K V} : node s id = .ok n ↔ get? s id = some n := by
  unfold node
  cases get? s id <;> simp

theorem nodeOk {s : σ} {id : NodeId} {n : Node K V} (h : get? s id = some n) : node s id = .ok n :=
  nodeEqOk.mpr h

theorem modifyOk {s : σ} {id : NodeId} {n : Node K V} (h : get? s id = some n)
    (f : Node K V → Node K V) : modify s id f = .ok (put s id (f n)) := by
  simp [modify, nodeOk h, Except.map]

theorem swapEntriesOk {s : σ} {a b : NodeId} {x y : Node K V} (distinct : a ≠ b)
    (ha : get? s a = some x) (hb : get? s b = some y) :
    swapEntries s a b = .ok (put (put s a (x.takeEntry y)) b (y.takeEntry x)) := by
  have la := inRange ha
  have lb := inRange hb
  simp [swapEntries, distinct, ha, hb, Nat.not_le.mpr la, Nat.not_le.mpr lb]

end Storage

instance arrayStorage {K V : Type} : Storage (Array (Node K V)) K V where
  slotCount nodes := nodes.size
  get? nodes id := nodes[id.index]?
  put nodes id node := nodes.setIfInBounds id.index node
  missing _ _ := .outOfRange
  inRange h := (Array.getElem?_eq_some_iff.mp h).1
  slotCountPut nodes id node := by simp
  getPutHere nodes id node := by
    by_cases h : id.index < nodes.size <;> simp [h]
  getPutElsewhere nodes id other node h := by
    have : id.index ≠ other.index := fun e => h (by cases id; cases other; simp_all)
    simp [this]

end RedBlack
