import RedBlack.Proofs.Map.Reference
import RedBlack.Proofs.Balance
import RedBlack.Proofs.Slab
import RedBlack.Proofs.Sorted

/-! What holds of an ordered map between operations: its links spell a balanced, sorted tree, and the slots
of its slab are linked or free, none of them both. -/
namespace RedBlack

namespace Shape
variable {K V : Type} {order : K → Ordering} {s : Shape K V}

theorem heldNone (aligned : Aligned order s.cells) (missing : s.find? order = none) :
    Row.held? order s.entries = none := by
  rw [Row.held?, entriesEqCells, List.find?_eq_none]
  intro e member
  obtain ⟨c, inside, rfl⟩ := List.mem_map.mp member
  have unequal : order c.entry.1 ≠ .eq := findNone aligned missing c inside
  simpa using unequal

theorem findSplit (aligned : Aligned order s.cells) {id : NodeId} (found : s.find? order = some id) :
    ∃ c front behind, s.cells = front ++ c :: behind ∧ c.id = id ∧ order c.key = .eq ∧
      (∀ e ∈ front.map Cell.entry, order e.1 = .gt) ∧ ∀ e ∈ behind.map Cell.entry, order e.1 = .lt := by
  obtain ⟨c, member, here, equal⟩ := findSome found
  obtain ⟨front, behind, row⟩ := List.append_of_mem member
  rw [row] at aligned
  have greater := aligned.allGreater (by simp [equal])
  have less := aligned.allLess (by simp [equal])
  refine ⟨c, front, behind, row, here, equal, ?_, ?_⟩
  · exact List.forall_mem_map.mpr greater
  · exact List.forall_mem_map.mpr less

theorem cutGap (aligned : Aligned order s.cells) (missing : s.find? order = none) :
    (∀ e ∈ (s.cut order).1.map Cell.entry, order e.1 = .gt) ∧ ∀ e ∈ (s.cut order).2.map Cell.entry, order e.1 = .lt := by
  obtain ⟨notLess, less⟩ := cutSeparates aligned
  refine ⟨List.forall_mem_map.mpr fun c member => ?_, List.forall_mem_map.mpr less⟩
  have unequal := findNone aligned missing c (by rw [← cutAppend order s]; exact List.mem_append_left _ member)
  have notLess := notLess c member
  show order c.key = .gt
  cases answer : order c.key <;> simp_all

theorem Balanced.low (balanced : s.Balanced) (few : s.size < 2 ^ 32) : s.height ≤ heightLimit + 1 :=
  Nat.le_succ_of_le (balanced.withinLimit few)

end Shape

namespace OrderedMap
variable {K V : Type} {policy : Policy K} {m : OrderedMap K V policy} {s : Shape K V}

structure Holds (m : OrderedMap K V policy) (s : Shape K V) : Prop where
  linked : Tree.Linked m.tree s
  balanced : s.Balanced
  sorted : s.Sorted policy
  kept : m.slab.Kept
  alive : ∀ id, (m.slab.get? id).isSome → id ∈ s.ids

theorem holdsEmpty : (empty : OrderedMap K V policy).Holds .leaf where
  linked := ⟨.leaf, .nil⟩
  balanced := Shape.balancedLeaf
  sorted := .nil
  kept := Slab.keptEmpty
  alive id live := by simp [empty, slab, Tree.rootless, Slab.empty, Slab.get?] at live

namespace Holds
variable (holds : m.Holds s)
include holds

theorem aliveIff (id : NodeId) : id ∈ s.ids ↔ (m.slab.get? id).isSome :=
  ⟨fun member => holds.linked.live member, holds.alive id⟩

theorem slots : (s.ids ++ m.slab.free).Perm (NodeId.below m.slab.slots.size) := by
  have apart : ∀ id ∈ s.ids, ∀ other ∈ m.slab.free, id ≠ other := by
    intro id member other free same
    have live := (holds.aliveIff id).mp member
    rw [same, ((holds.kept.dead other).mp free).2] at live
    cases live
  have once : (s.ids ++ m.slab.free).Nodup := List.nodup_append.mpr ⟨holds.linked.once, holds.kept.once, apart⟩
  refine (List.perm_ext_iff_of_nodup once (NodeId.onceBelow _)).mpr fun id => ?_
  rw [List.mem_append, holds.aliveIff, holds.kept.dead, NodeId.memBelow]
  cases read : m.slab.get? id with
  | none => simp
  | some n => simpa using Slab.getLt read

theorem size : m.size = s.size := by
  have length := holds.slots.length_eq
  have count := holds.kept.count
  simp only [List.length_append, NodeId.lengthBelow, Shape.lengthIds] at length
  show m.slab.live = s.size
  omega

theorem lengthRow : s.entries.length = m.size := by rw [Shape.lengthEntries, holds.size]

theorem sizeLeSlots : m.size ≤ m.slab.slotCount := holds.kept.liveLe

theorem isEmpty : m.isEmpty = s.entries.isEmpty := by
  have root : m.tree.root = s.link := holds.linked.spells.linkEq
  rw [OrderedMap.isEmpty, Tree.isEmpty, root]
  cases s <;> simp [Shape.link, Shape.entries]

theorem find (key : K) : m.find? key = .ok (s.find? (policy key)) := holds.linked.search policy key

end Holds

end OrderedMap

end RedBlack
