import RedBlack.Tree.Search
import RedBlack.Proofs.Linked

/-! Searching, counting and measuring a linked tree. No walk runs out of steps: a tree that links no node
twice has no more nodes than there are slots. -/
namespace RedBlack

namespace Shape
variable {K V : Type}

def find? (order : K → Ordering) : Shape K V → Option NodeId
  | leaf => none
  | node id _ left key _ right =>
      match order key with
      | .eq => some id
      | .lt => left.find? order
      | .gt => right.find? order

theorem heightLeSize (s : Shape K V) : s.height ≤ s.size := by
  induction s with
  | leaf => exact Nat.le_refl 0
  | node id color left key value right ihLeft ihRight => simp only [height, size]; omega

theorem findSome {order : K → Ordering} {s : Shape K V} {id : NodeId} (h : s.find? order = some id) :
    ∃ c ∈ s.cells, c.id = id ∧ order c.key = .eq := by
  induction s with
  | leaf => cases h
  | node top color left key value right ihLeft ihRight =>
      simp only [find?] at h
      simp only [cells, List.mem_append, List.mem_cons]
      split at h
      · rename_i equal
        cases h
        exact ⟨_, .inr (.inl rfl), rfl, equal⟩
      · obtain ⟨c, member, found⟩ := ihLeft h
        exact ⟨c, .inl member, found⟩
      · obtain ⟨c, member, found⟩ := ihRight h
        exact ⟨c, .inr (.inr member), found⟩

def descent (order : K → Ordering) : Shape K V → Nat
  | leaf => 0
  | node _ _ left key _ right =>
      match Side.toward (order key) with
      | .left => left.descent order + 1
      | .right => right.descent order + 1

theorem descentFork {order : K → Ordering} {side : Side} {c : Cell K V} (turn : Side.toward (order c.key) = side)
    (color : Color) (near far : Shape K V) : (fork side c color near far).descent order = near.descent order + 1 := by
  cases side <;> simp [fork, descent, turn]

@[simp] theorem descentBlacken (order : K → Ordering) (s : Shape K V) : s.blacken.descent order = s.descent order := by
  cases s <;> rfl

theorem descentLeSize (order : K → Ordering) (s : Shape K V) : s.descent order ≤ s.size := by
  induction s with
  | leaf => exact Nat.le_refl 0
  | node id color left key value right ihLeft ihRight => simp only [descent, size]; split <;> omega

theorem turnCases (order : K → Ordering) (s : Shape K V) :
    s = leaf ∨ ∃ side c color near far, Side.toward (order c.key) = side ∧ s = fork side c color near far := by
  cases s with
  | leaf => exact .inl rfl
  | node id color left key value right =>
      exact .inr ⟨_, ⟨id, key, value⟩, _, _, _, rfl, nodeEqFork (Side.toward (order key)) ..⟩

theorem findFork {order : K → Ordering} {side : Side} {c : Cell K V} (turn : Side.toward (order c.key) = side)
    (color : Color) (near far : Shape K V) :
    (fork side c color near far).find? order = if order c.key = .eq then some c.id else near.find? order := by
  subst turn
  cases answer : order c.key <;> simp [Side.toward, fork, find?, answer]

end Shape

namespace Tree
variable {σ K V : Type} [Storage σ K V]

theorem Linked.sizeLeSlots {t : Tree σ} {s : Shape K V} (h : Linked t s) : s.size ≤ Storage.slotCount t.store := by
  have below : s.ids ⊆ NodeId.below (Storage.slotCount t.store) := by
    intro id member
    obtain ⟨n, read⟩ := Option.isSome_iff_exists.mp (h.live member)
    exact NodeId.memBelow.mpr (Storage.inRange read)
  simpa using h.once.length_le_of_subset below

theorem searchFromOk {policy : Policy K} {store : σ} {key : K} {link : Option NodeId} {s : Shape K V}
    (h : Spells store link s) {steps : Nat} (enough : s.height ≤ steps) :
    searchFrom policy store key steps link = .ok (s.find? (policy key)) := by
  induction h generalizing steps with
  | leaf => cases steps <;> rfl
  | @node id n left right read _ _ ihLeft ihRight =>
      obtain _ | steps := steps
      · simp [Shape.height] at enough
      have enough : left.height ≤ steps ∧ right.height ≤ steps := by simp only [Shape.height] at enough; omega
      simp only [searchFrom, Storage.nodeOk read, Shape.find?, bind, Except.bind]
      cases policy key n.key
      · exact ihLeft enough.1
      · rfl
      · exact ihRight enough.2

theorem Linked.search {t : Tree σ} {s : Shape K V} (h : Linked t s) (policy : Policy K) (key : K) :
    t.search policy key = .ok (s.find? (policy key)) :=
  searchFromOk h.spells (by have := s.heightLeSize; have := h.sizeLeSlots; omega)

theorem Linked.sizeLeWays {t : Tree σ} {s : Shape K V} (h : Linked t s) :
    ∃ further, wayLimit (Storage.slotCount t.store) = s.size + further := by
  have slots := h.sizeLeSlots
  have power : Storage.slotCount t.store < wayLimit (Storage.slotCount t.store) := Nat.lt_two_pow_self
  exact ⟨_, (Nat.add_sub_of_le (by omega)).symm⟩

theorem sizeLoopOk {store : σ} {link : Option NodeId} {s : Shape K V} (h : Spells store link s) (steps : Nat)
    (stack : List NodeId) (count : Nat) :
    sizeLoop store (s.size + steps) (link.toList ++ stack) count = sizeLoop store steps stack (count + s.size) := by
  induction h generalizing steps stack count with
  | leaf => simp [Shape.size]
  | @node id n left right read _ _ ihLeft ihRight =>
      have enough : left.size + right.size + 1 + steps = right.size + (left.size + steps) + 1 := by omega
      have total : count + 1 + right.size + left.size = count + (left.size + right.size + 1) := by omega
      simp only [Shape.size, enough, Option.toList_some, List.singleton_append, sizeLoop, Storage.childRead read, Node.child,
        bind, Except.bind]
      rw [ihRight, ihLeft, total]

theorem Linked.size {t : Tree σ} {s : Shape K V} (h : Linked t s) : t.size = .ok s.size := by
  obtain ⟨further, ways⟩ := h.sizeLeWays
  have run := sizeLoopOk h.spells further [] 0
  rw [List.append_nil, Nat.zero_add, sizeLoop] at run
  rw [Tree.size, ways, run]

theorem heightLoopOk {store : σ} {link : Option NodeId} {s : Shape K V} (h : Spells store link s) (steps : Nat)
    (stack : List (NodeId × Nat)) {above deepest : Nat} (seen : above ≤ deepest) :
    heightLoop store (s.size + steps) ((link.map (·, above + 1)).toList ++ stack) deepest =
      heightLoop store steps stack (max deepest (above + s.height)) := by
  induction h generalizing steps stack above deepest with
  | leaf => simp [Shape.size, Shape.height, seen]
  | @node id n left right read _ _ ihLeft ihRight =>
      have enough : left.size + right.size + 1 + steps = right.size + (left.size + steps) + 1 := by omega
      have total : max (max (max deepest (above + 1)) (above + 1 + right.height)) (above + 1 + left.height) =
          max deepest (above + (max left.height right.height + 1)) := by omega
      simp only [Shape.size, Shape.height, enough, Option.map_some, Option.toList_some, List.singleton_append, heightLoop,
        Storage.childRead read, Node.child, bind, Except.bind]
      rw [ihRight _ _ (by omega), ihLeft _ _ (by omega), total]

theorem Linked.height {t : Tree σ} {s : Shape K V} (h : Linked t s) : t.height = .ok s.height := by
  obtain ⟨further, ways⟩ := h.sizeLeWays
  have run := heightLoopOk h.spells further [] (Nat.le_refl 0)
  rw [List.append_nil, Nat.zero_max, heightLoop, Nat.zero_add s.height] at run
  rw [Tree.height, ways]
  exact run

theorem roundsLePassLimit (slots : Nat) : 2 * slots + 3 ≤ passLimit slots := by
  have links : 0 < 2 * slots + 3 := by omega
  have power : 2 * slots + 3 ≤ Nat.pow (2 * slots + 3) 5 := Nat.le_self_pow (by decide) _
  have others : 0 < Nat.pow (2 * Nat.pow (2 * slots + 3) 2) slots :=
    Nat.pow_pos (Nat.mul_pos (by decide) (Nat.pow_pos links))
  calc 2 * slots + 3 ≤ 4 * Nat.pow (2 * slots + 3) 5 := by omega
    _ ≤ passLimit slots := Nat.le_mul_of_pos_right _ others

theorem Linked.descentLePassLimit {t : Tree σ} {s : Shape K V} (h : Linked t s) (order : K → Ordering) :
    2 * s.descent order + 1 ≤ passLimit (Storage.slotCount t.store) := by
  have descent := s.descentLeSize order
  have slots := h.sizeLeSlots
  have limit := roundsLePassLimit (Storage.slotCount t.store)
  omega

end Tree

end RedBlack
