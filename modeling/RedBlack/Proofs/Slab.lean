import RedBlack.Slab
import RedBlack.Proofs.Linked

/-! The books of a slab: which slots are dead, in what order they are handed out again, and how many nodes
are live. Writing through the storage interface leaves them alone. -/
namespace RedBlack.Slab
variable {K V : Type} {slab slab' : Slab K V} {id : NodeId}

structure Kept (slab : Slab K V) : Prop where
  dead : ∀ id, id ∈ slab.free ↔ id.index < slab.slots.size ∧ slab.get? id = none
  once : slab.free.Nodup
  count : slab.live + slab.free.length = slab.slots.size

theorem keptEmpty : (empty : Slab K V).Kept := ⟨by simp [empty], .nil, rfl⟩

theorem Kept.liveLe (kept : slab.Kept) : slab.live ≤ slab.slots.size := by
  have count := kept.count
  omega

theorem allocReused {rest : List NodeId} (free : slab.free = id :: rest) (key : K) (value : V) :
    (slab.alloc key value).1 = id ∧ (slab.alloc key value).2.free = rest ∧
      (slab.alloc key value).2.slotCount = slab.slotCount := by simp [alloc, free, slotCount]

theorem allocPushed (free : slab.free = []) (key : K) (value : V) :
    (slab.alloc key value).1 = ⟨slab.slotCount⟩ ∧ (slab.alloc key value).2.free = [] ∧
      (slab.alloc key value).2.slotCount = slab.slotCount + 1 := by simp [alloc, free, slotCount]

structure Allocated (slab : Slab K V) (id : NodeId) (node : Node K V) (slab' : Slab K V) : Prop where
  fresh : slab.get? id = none
  here : slab'.get? id = some node
  elsewhere : ∀ other, other ≠ id → slab'.get? other = slab.get? other
  live : slab'.live = slab.live + 1
  size : slab'.slots.size = max slab.slots.size (slab.live + 1)
  kept : slab'.Kept

theorem Allocated.alive {node : Node K V} (allocated : Allocated slab id node slab') {other : NodeId}
    (live : (slab'.get? other).isSome) : other = id ∨ (slab.get? other).isSome := by
  by_cases same : other = id
  · exact .inl same
  · exact .inr (allocated.elsewhere other same ▸ live)

theorem indexNe {id other : NodeId} (distinct : other ≠ id) : id.index ≠ other.index :=
  fun same => distinct (by cases id; cases other; simp_all)

theorem Kept.allocPush (kept : slab.Kept) (free : slab.free = []) (key : K) (value : V) :
    Allocated slab (slab.alloc key value).1 (.fresh key value) (slab.alloc key value).2 := by
  have count := kept.count
  rw [free, List.length_nil] at count
  simp only [alloc, free]
  have elsewhere : ∀ other : NodeId, other ≠ ⟨slab.slots.size⟩ →
      (⟨slab.slots.push (some (.fresh key value)), [], slab.live + 1⟩ : Slab K V).get? other = slab.get? other := by
    intro other distinct
    have apart : slab.slots.size ≠ other.index := indexNe distinct
    simp [get?, Array.getElem?_push, Ne.symm apart]
  refine ⟨by simp [get?], by simp [get?], elsewhere, rfl, by simp; omega, ?_, .nil, by simp; omega⟩
  intro id
  simp only [List.not_mem_nil, false_iff, not_and, Array.size_push]
  intro below dead
  by_cases last : id = ⟨slab.slots.size⟩
  · subst last
    simp [get?] at dead
  · have apart : slab.slots.size ≠ id.index := indexNe last
    rw [elsewhere id last] at dead
    have member := (kept.dead id).mpr ⟨by omega, dead⟩
    simp [free] at member

theorem Kept.allocReuse (kept : slab.Kept) {rest : List NodeId} (free : slab.free = id :: rest) (key : K) (value : V) :
    Allocated slab (slab.alloc key value).1 (.fresh key value) (slab.alloc key value).2 := by
  have count := kept.count
  rw [free, List.length_cons] at count
  obtain ⟨below, dead⟩ := (kept.dead id).mp (by simp [free])
  have once := kept.once
  rw [free, List.nodup_cons] at once
  simp only [alloc, free]
  have elsewhere : ∀ other : NodeId, other ≠ id →
      (⟨slab.slots.setIfInBounds id.index (some (.fresh key value)), rest, slab.live + 1⟩ : Slab K V).get? other =
        slab.get? other := by
    intro other distinct
    simp [get?, indexNe distinct]
  have here : (⟨slab.slots.setIfInBounds id.index (some (.fresh key value)), rest, slab.live + 1⟩ : Slab K V).get? id =
      some (.fresh key value) := by simp [get?, below]
  refine ⟨dead, here, elsewhere, rfl, by simp; omega, ?_, once.2, by simp; omega⟩
  intro other
  by_cases same : other = id
  · subst same
    simp [here, once.1]
  · rw [elsewhere other same, Array.size_setIfInBounds, ← kept.dead other, free]
    simp [same]

theorem Kept.alloc (kept : slab.Kept) (key : K) (value : V) :
    Allocated slab (slab.alloc key value).1 (.fresh key value) (slab.alloc key value).2 := by
  cases free : slab.free with
  | nil => exact kept.allocPush free key value
  | cons id rest => exact kept.allocReuse free key value

structure Removed (slab : Slab K V) (id : NodeId) (slab' : Slab K V) : Prop where
  here : slab'.get? id = none
  elsewhere : ∀ other, other ≠ id → slab'.get? other = slab.get? other
  live : slab'.live + 1 = slab.live
  size : slab'.slots.size = slab.slots.size
  free : slab'.free = id :: slab.free
  kept : slab'.Kept

theorem Removed.alive (removed : Removed slab id slab') {other : NodeId}
    (live : (slab'.get? other).isSome) : other ≠ id ∧ (slab.get? other).isSome := by
  have apart : other ≠ id := by
    intro same
    rw [same, removed.here] at live
    cases live
  exact ⟨apart, removed.elsewhere other apart ▸ live⟩

theorem Kept.remove (kept : slab.Kept) {node : Node K V} (read : slab.get? id = some node) :
    (slab.remove id).1 = some node.entry ∧ Removed slab id (slab.remove id).2 := by
  have below := getLt read
  have count := kept.count
  have alive : id ∉ slab.free := fun member => by simp [((kept.dead id).mp member).2] at read
  have room : slab.free.length < slab.slots.size := by
    have inside : (id :: slab.free) ⊆ NodeId.below slab.slots.size := by
      intro other member
      rw [NodeId.memBelow]
      rcases List.mem_cons.mp member with rfl | member
      · exact below
      · exact ((kept.dead other).mp member).1
    have few := (List.nodup_cons.mpr ⟨alive, kept.once⟩).length_le_of_subset inside
    rw [List.length_cons, NodeId.lengthBelow] at few
    exact few
  simp only [Slab.remove, read]
  have elsewhere : ∀ other : NodeId, other ≠ id →
      (⟨slab.slots.setIfInBounds id.index none, id :: slab.free, slab.live - 1⟩ : Slab K V).get? other = slab.get? other := by
    intro other distinct
    simp [get?, indexNe distinct]
  have here : (⟨slab.slots.setIfInBounds id.index none, id :: slab.free, slab.live - 1⟩ : Slab K V).get? id = none := by
    simp [get?, below]
  refine ⟨trivial, here, elsewhere, ?_, by simp, rfl, ?_, List.nodup_cons.mpr ⟨alive, kept.once⟩, ?_⟩
  · show slab.live - 1 + 1 = slab.live
    omega
  · intro other
    by_cases same : other = id
    · subst same
      simp [here, below]
    · rw [elsewhere other same, Array.size_setIfInBounds, List.mem_cons, kept.dead other]
      simp [same]
  · simp only [List.length_cons, Array.size_setIfInBounds]
    omega

section
open Storage (Rewrites)
variable {names : List NodeId}

theorem putBooks (slab : Slab K V) (id : NodeId) (node : Node K V) :
    (slab.put id node).free = slab.free ∧ (slab.put id node).live = slab.live := by
  unfold put
  split <;> exact ⟨rfl, rfl⟩

theorem rewriteBooks (writes : Rewrites names slab slab') : slab'.free = slab.free ∧ slab'.live = slab.live := by
  induction writes with
  | none => exact ⟨rfl, rfl⟩
  | @put between id node named rest ih =>
      obtain ⟨free, live⟩ := putBooks between id node
      exact ⟨free.trans ih.1, live.trans ih.2⟩

theorem Kept.rewrite (kept : slab.Kept) (writes : Rewrites names slab slab') : slab'.Kept := by
  obtain ⟨free, live⟩ := rewriteBooks writes
  have size : slab'.slots.size = slab.slots.size := writes.slotCount
  refine ⟨fun id => ?_, free ▸ kept.once, by rw [live, free, size, kept.count]⟩
  have alive : (slab'.get? id).isSome = (slab.get? id).isSome := writes.live id
  rw [free, size, kept.dead id, ← Option.isNone_iff_eq_none, ← Option.isNone_iff_eq_none]
  rw [← Option.not_isSome, ← Option.not_isSome, alive]

end

end RedBlack.Slab
