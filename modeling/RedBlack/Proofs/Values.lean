import RedBlack.Proofs.Balance
import RedBlack.Proofs.Linked
import RedBlack.Proofs.Sorted

/-! What a caller may do to the nodes of a tree without asking it: change their values, and do anything to
nodes that are not linked. A shape without its values stays the same. -/
namespace RedBlack

namespace Shape
variable {K V : Type}

def bare : Shape K V → Shape K Unit
  | leaf => leaf
  | node id color left key _ right => node id color left.bare key () right.bare

@[simp] theorem colorBare (s : Shape K V) : s.bare.color = s.color := by cases s <;> rfl

@[simp] theorem idsBare (s : Shape K V) : s.bare.ids = s.ids := by
  induction s with
  | leaf => rfl
  | node id color left key value right ihLeft ihRight => simp [bare, ids, ihLeft, ihRight]

theorem keysBare (s : Shape K V) : s.bare.entries.map Prod.fst = s.entries.map Prod.fst := by
  induction s with
  | leaf => rfl
  | node id color left key value right ihLeft ihRight => simp [bare, entries, ihLeft, ihRight]

theorem noRedRedBare {s : Shape K V} : s.bare.NoRedRed ↔ s.NoRedRed := by
  induction s with
  | leaf => rfl
  | node id color left key value right ihLeft ihRight => simp [bare, NoRedRed, ihLeft, ihRight]

theorem blackHeightBare {s : Shape K V} {h : Nat} : s.bare.BlackHeight h ↔ s.BlackHeight h := by
  induction s generalizing h with
  | leaf => rfl
  | node id color left key value right ihLeft ihRight => simp [bare, blackHeightNode, ihLeft, ihRight]

theorem Balanced.ofBare {s s' : Shape K V} (balanced : s.Balanced) (same : s'.bare = s.bare) : s'.Balanced := by
  obtain ⟨root, noRedRed, h, even⟩ := balanced
  refine ⟨?_, ?_, h, ?_⟩
  · rw [← colorBare, same, colorBare, root]
  · rw [← noRedRedBare, same, noRedRedBare]
    exact noRedRed
  · rw [← blackHeightBare, same, blackHeightBare]
    exact even

theorem Sorted.ofBare {policy : Policy K} {s s' : Shape K V} (sorted : s.Sorted policy) (same : s'.bare = s.bare) :
    s'.Sorted policy := by
  rw [Sorted, ← keysBare, same, keysBare]
  exact sorted

end Shape

variable {σ K V : Type} [Storage σ K V]

def Node.Alike {K V : Type} (n n' : Node K V) : Prop :=
  n'.color = n.color ∧ n'.left = n.left ∧ n'.right = n.right ∧ n'.key = n.key

theorem Spells.alike {store store' : σ} {link : Option NodeId} {s : Shape K V} (h : Spells store link s)
    (kept : ∀ id ∈ s.ids, ∀ n, Storage.get? store id = some n → ∃ n', Storage.get? store' id = some n' ∧ n.Alike n') :
    ∃ s', Spells store' link s' ∧ s'.bare = s.bare := by
  induction h with
  | leaf => exact ⟨.leaf, .leaf, rfl⟩
  | @node id n left right read spellsLeft spellsRight ihLeft ihRight =>
      simp only [Shape.ids, List.mem_append, List.mem_cons] at kept
      obtain ⟨n', read', color, leftLink, rightLink, key⟩ := kept id (.inr (.inl rfl)) n read
      obtain ⟨left', spellsLeft', sameLeft⟩ := ihLeft fun id member => kept id (.inl member)
      obtain ⟨right', spellsRight', sameRight⟩ := ihRight fun id member => kept id (.inr (.inr member))
      rw [← leftLink] at spellsLeft'
      rw [← rightLink] at spellsRight'
      refine ⟨_, .node read' spellsLeft' spellsRight', ?_⟩
      simp [Shape.bare, sameLeft, sameRight, color, key]

namespace Tree

inductive Links (t : Tree σ) : NodeId → Prop where
  | root {id : NodeId} (top : t.root = some id) : Links t id
  | child {id next : NodeId} {n : Node K V} (side : Side) (above : Links t id)
      (read : Storage.get? t.store id = some n) (link : n.child side = some next) : Links t next

theorem linksBelow {t : Tree σ} {link : Option NodeId} {s : Shape K V} (h : Spells t.store link s)
    (top : ∀ id, link = some id → Links t id) : ∀ id ∈ s.ids, Links t id := by
  induction h with
  | leaf => simp [Shape.ids]
  | @node id n left right read spellsLeft spellsRight ihLeft ihRight =>
      have here := top id rfl
      intro other member
      simp only [Shape.ids, List.mem_append, List.mem_cons] at member
      rcases member with member | rfl | member
      · exact ihLeft (fun next link => .child .left here read link) other member
      · exact here
      · exact ihRight (fun next link => .child .right here read link) other member

theorem linkInside {store : σ} {link : Option NodeId} {s : Shape K V} (h : Spells store link s) {id next : NodeId}
    {n : Node K V} {side : Side} (member : id ∈ s.ids) (read : Storage.get? store id = some n)
    (step : n.child side = some next) : next ∈ s.ids := by
  induction h with
  | leaf => cases member
  | @node top m left right read' spellsLeft spellsRight ihLeft ihRight =>
      simp only [Shape.ids, List.mem_append, List.mem_cons] at member ⊢
      rcases member with member | rfl | member
      · exact .inl (ihLeft member)
      · obtain rfl := Option.some.inj (read.symm.trans read')
        cases side with
        | left => exact .inl (Shape.linkMem (spellsLeft.linkEq ▸ step))
        | right => exact .inr (.inr (Shape.linkMem (spellsRight.linkEq ▸ step)))
      · exact .inr (.inr (ihRight member))

theorem Linked.linksIff {t : Tree σ} {s : Shape K V} (h : Linked t s) {id : NodeId} : Links t id ↔ id ∈ s.ids := by
  constructor
  · intro links
    induction links with
    | root top => exact Shape.linkMem (h.spells.linkEq ▸ top)
    | child side above read link ih => exact linkInside h.spells ih read link
  · exact fun member => linksBelow h.spells (fun id top => .root top) id member

end Tree

end RedBlack
