import RedBlack.Blueprint
import RedBlack.Proofs.Search

/-! A blueprint stored node by node is the tree that it describes. Each record stands in front of its subtrees, so every
subtree fills one stretch of the storage, and what is laid out later stays clear of it. -/
namespace RedBlack

namespace Shape

def blueprint : Shape Int Int → Blueprint
  | leaf => .absent
  | node _ color left key _ right => .node color key left.blueprint right.blueprint

def preorder {K V : Type} : Shape K V → List NodeId
  | leaf => []
  | node id _ left _ _ right => id :: (left.preorder ++ right.preorder)

theorem preorderPerm {K V : Type} (s : Shape K V) : s.preorder.Perm s.ids := by
  induction s with
  | leaf => exact .nil
  | node id color left key value right ihLeft ihRight => exact ((ihLeft.append ihRight).cons id).trans List.perm_middle.symm

end Shape

namespace Blueprint

def shape : Blueprint → Nat → Shape Int Int
  | absent, _ => .leaf
  | node color key left right, first =>
      .node ⟨first⟩ color (left.shape (first + 1)) key (valueOf key) (right.shape (first + 1 + left.size))

variable (b : Blueprint) (first : Nat)

@[simp] theorem blueprintShape : (b.shape first).blueprint = b := by
  induction b generalizing first with
  | absent => rfl
  | node color key left right ihLeft ihRight => simp [shape, Shape.blueprint, ihLeft, ihRight]

@[simp] theorem sizeShape : (b.shape first).size = b.size := by
  induction b generalizing first with
  | absent => rfl
  | node color key left right ihLeft ihRight => simp [shape, Shape.size, size, ihLeft, ihRight]

theorem preorderShape : (b.shape first).preorder = (List.range' first b.size).map NodeId.mk := by
  induction b generalizing first with
  | absent => rfl
  | node color key left right ihLeft ihRight =>
      have parts : List.range' first (left.size + right.size + 1) =
          first :: (List.range' (first + 1) left.size ++ List.range' (first + 1 + left.size) right.size) := by
        rw [List.range'_succ, List.range'_append_1]
      rw [shape, Shape.preorder, ihLeft, ihRight, size, parts, List.map_cons, List.map_append]

theorem memShape {id : NodeId} : id ∈ (b.shape first).ids ↔ first ≤ id.index ∧ id.index < first + b.size := by
  cases id
  simp [← (b.shape first).preorderPerm.mem_iff, preorderShape]

theorem onceShape : (b.shape first).ids.Nodup := by
  refine (b.shape first).preorderPerm.nodup_iff.mp ?_
  rw [preorderShape]
  exact List.Pairwise.map _ (fun i j apart same => apart (NodeId.mk.inj same)) List.nodup_range'

theorem valuesShape : ∀ c ∈ (b.shape first).cells, c.value = c.key * 10 := by
  induction b generalizing first with
  | absent => simp [shape, Shape.cells]
  | node color key left right ihLeft ihRight =>
      intro c member
      simp only [shape, Shape.cells, List.mem_append, List.mem_cons] at member
      rcases member with member | rfl | member
      · exact ihLeft _ c member
      · rfl
      · exact ihRight _ c member

structure LaidOut (nodes : Array (Node Int Int)) (b : Blueprint) (link : Option NodeId) (after : Array (Node Int Int)) : Prop where
  size : after.size = nodes.size + b.size
  frame : ∀ i < nodes.size, after[i]? = nodes[i]?
  spells : Spells after link (b.shape nodes.size)

section
variable {nodes middle after : Array (Node Int Int)} {color : Color} {key : Int} {left right : Blueprint}
  {linkLeft linkRight : Option NodeId}

theorem LaidOut.node (onLeft : LaidOut (nodes.push (.fresh key (valueOf key))) left linkLeft middle)
    (onRight : LaidOut middle right linkRight after) :
    LaidOut nodes (.node color key left right) (some ⟨nodes.size⟩)
      (after.modify nodes.size fun n => { n with color, left := linkLeft, right := linkRight }) := by
  obtain ⟨sizeLeft, frameLeft, spellsLeft⟩ := onLeft
  obtain ⟨sizeRight, frameRight, spellsRight⟩ := onRight
  rw [Array.size_push] at sizeLeft spellsLeft
  rw [sizeLeft] at spellsRight
  have written : ∀ i ≠ nodes.size, ∀ f, (after.modify nodes.size f)[i]? = after[i]? := by
    intro i apart f
    rw [Array.getElem?_modify, if_neg (Ne.symm apart)]
  have taken : after[nodes.size]? = some (.fresh key (valueOf key)) := by
    rw [frameRight _ (by omega), frameLeft _ (by simp), Array.getElem?_push_size]
  refine ⟨?_, fun i below => ?_, ?_⟩
  · rw [Array.size_modify, sizeRight, sizeLeft, Blueprint.size]
    omega
  · rw [written i (Nat.ne_of_lt below), frameRight i (by omega), frameLeft i (by simp; omega), Array.getElem?_push_lt below]
    simp [below]
  · have read : (after.modify nodes.size fun n => { n with color, left := linkLeft, right := linkRight })[nodes.size]? =
        some ⟨color, linkLeft, linkRight, key, valueOf key⟩ := by
      rw [Array.getElem?_modify, if_pos rfl, taken]
      rfl
    refine .node (n := ⟨color, linkLeft, linkRight, key, valueOf key⟩) read (spellsLeft.transport fun id member => ?_)
      (spellsRight.transport fun id member => ?_)
    · have inside := (memShape ..).mp member
      exact (written _ (by omega) _).trans (frameRight _ (by omega))
    · have inside := (memShape ..).mp member
      exact written _ (by omega) _

end

theorem laidOut (nodes : Array (Node Int Int)) : LaidOut nodes b (layOut nodes b).1 (layOut nodes b).2 := by
  induction b generalizing nodes with
  | absent => exact ⟨rfl, fun _ _ => rfl, .leaf⟩
  | node color key left right ihLeft ihRight => exact (ihLeft _).node (ihRight _)

theorem buildLinked : Tree.Linked b.build (b.shape 0) := ⟨(b.laidOut #[]).spells, b.onceShape 0⟩

theorem sizeBuild : b.build.store.size = b.size := (b.laidOut #[]).size.trans (Nat.zero_add _)

variable {b first}

theorem stretch {store : Array (Node Int Int)} {link : Option NodeId} (spells : Spells store link (b.shape first)) {id : NodeId}
    (member : id ∈ (b.shape first).ids) {sub : Shape Int Int} (below : Spells store (some id) sub) (other : NodeId) :
    other ∈ sub.ids ↔ id.index ≤ other.index ∧ other.index < id.index + sub.size := by
  induction b generalizing first link with
  | absent => cases member
  | node color key left right ihLeft ihRight =>
      obtain ⟨rfl, -, spellsLeft, spellsRight⟩ := Spells.nodeIff.mp spells
      rcases List.mem_append.mp member with member | member
      · exact ihLeft spellsLeft member
      rcases List.mem_cons.mp member with rfl | member
      · rw [below.unique spells, memShape, sizeShape]
      · exact ihRight spellsRight member

theorem everyBlueprintFaithful (b : Blueprint) :
    b.build.root = (if b = .absent then none else some ⟨0⟩) ∧
      ∃ s, Tree.Linked b.build s ∧ s.blueprint = b ∧ s.preorder = NodeId.below b.build.store.size ∧
        (∀ id, id ∈ s.ids ↔ id.index < b.build.store.size) ∧
        (∀ id sub, Spells b.build.store (some id) sub →
          ∀ other, other ∈ sub.ids ↔ id.index ≤ other.index ∧ other.index < id.index + sub.size) ∧
        (∀ id n, Storage.get? b.build.store id = some n → n.value = n.key * 10) ∧
        b.build.store.size = b.size ∧ b.build.size = .ok b.size := by
  have linked := b.buildLinked
  have slots : ∀ id, id ∈ (b.shape 0).ids ↔ id.index < b.build.store.size := by
    intro id
    rw [memShape, sizeBuild]
    omega
  refine ⟨?_, b.shape 0, linked, b.blueprintShape 0, ?_, slots, fun id sub below => ?_, fun id n read => ?_, b.sizeBuild, ?_⟩
  · rw [show b.build.root = (b.shape 0).link from linked.spells.linkEq]
    cases b <;> rfl
  · rw [preorderShape, sizeBuild, NodeId.below, List.range_eq_range']
  · have inside : id ∈ (b.shape 0).ids := by
      cases below with
      | node read => exact (slots id).mpr (Storage.inRange read)
    exact stretch linked.spells inside below
  · have inside : id ∈ (b.shape 0).ids := (slots id).mpr (Storage.inRange read)
    exact b.valuesShape 0 _ (linked.spells.cellAt inside read)
  · rw [linked.size, sizeShape]

end Blueprint

end RedBlack
