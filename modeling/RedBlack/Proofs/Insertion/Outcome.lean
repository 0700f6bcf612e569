import RedBlack.Proofs.Insertion.Simulation

/-! What an insertion answers and leaves behind. The shape it ends with is the work of the rounds alone: any storage
that spells the shape it began with comes out spelling that one. -/
namespace RedBlack

namespace Insertion
variable {K V : Type} {order : K → Ordering} {new : Cell K V} {s s' : Shape K V} {log : List Event}

inductive Grows (order : K → Ordering) (new : Cell K V) (s : Shape K V) (log : List Event) : Shape K V → Prop where
  | mk {rounds : Nat} {s' : Shape K V} (passes : Passes order new rounds .ready ⟨[], s⟩ log s')
      (few : rounds ≤ remaining order .ready ⟨[], s⟩) : Grows order new s log s'.blacken

theorem grows (order : K → Ordering) (new : Cell K V) (black : s.color = .black) (noRedRed : s.NoRedRed) :
    ∃ log s', Grows order new s log s' := by
  have ready : At order .ready ⟨[], s⟩ := startReady black
  obtain ⟨rounds, log, s', passes, few⟩ := Insertion.passes new ready noRedRed (by simp [Path.Follows])
  exact ⟨log, s'.blacken, .mk passes few⟩

theorem Grows.balanced (grows : Grows order new s log s') (balanced : s.Balanced) : s'.Balanced := by
  obtain ⟨passes, few⟩ := grows
  obtain ⟨h, even⟩ := balanced.even
  obtain ⟨noRedRed, even⟩ := passes.balance (startReady balanced.root) balanced.noRedRed (by simp [Path.Follows]) even
  exact Shape.balancedBlacken noRedRed ⟨h, even⟩

theorem Grows.cells (grows : Grows order new s log s') : s'.cells = (s.cut order).1 ++ new :: (s.cut order).2 := by
  obtain ⟨passes, few⟩ := grows
  rw [Shape.cellsBlacken]
  exact passes.cells (by simp [Path.Follows])

theorem Grows.memIds (grows : Grows order new s log s') {id : NodeId} : id ∈ s'.ids ↔ id = new.id ∨ id ∈ s.ids := by
  rw [Shape.idsEqCells s', grows.cells, Shape.idsEqCells s, ← Shape.cutAppend order s]
  simp [or_left_comm]

end Insertion

namespace Tree
variable {σ K V : Type} [Storage σ K V] {t : Tree σ} {s : Shape K V} {policy : Policy K} {id : NodeId} {n : Node K V}

open Storage (Rewrites)
open Insertion (Stage Passes Grows)

theorem loopOk (policy : Policy K) (new : Cell K V) {rounds : Nat} {log : List Event} {s' : Shape K V} (linked : Linked t s)
    (inside : s ≠ .leaf) (read : Storage.get? t.store new.id = some (.fresh new.key new.value)) (out : new.id ∉ s.ids)
    (passes : Passes (policy new.key) new rounds .ready ⟨[], s⟩ log s')
    (few : rounds ≤ Insertion.remaining (policy new.key) .ready ⟨[], s⟩) :
    ∃ t', Traced.loop (Window.round policy new.id) (passLimit (Storage.slotCount t.store)) (.start t) = ⟨log, .ok t'⟩ ∧
      Linked t' s' ∧ Rewrites (new.id :: s.ids) t.store t'.store := by
  have enough : rounds ≤ passLimit (Storage.slotCount t.store) := Nat.le_trans few (linked.descentLePassLimit _)
  exact Window.loopPasses passes (Window.startShows linked) Window.startKnows read out (fun _ => inside) enough

theorem resetOk (linked : Linked t s) (read : Storage.get? t.store id = some n) (out : id ∉ s.ids) :
    ∃ store, Storage.modify t.store id Node.reset = .ok store ∧ Linked ({ t with store } : Tree σ) s ∧
      Storage.get? store id = some (.fresh n.key n.value) ∧ Rewrites [id] t.store store :=
  ⟨_, Storage.modifyOk read Node.reset, ⟨linked.spells.keepPut out _, linked.once⟩, Storage.getPutSame read _,
    .one (List.mem_singleton.mpr rfl) _⟩

theorem insertLoop (linked : Linked t s) (read : Storage.get? t.store id = some n) (fresh : s.find? (policy n.key) = none)
    (inside : s ≠ .leaf) {store : σ} (reset : Storage.modify t.store id Node.reset = .ok store) {log : List Event}
    {t₁ t' : Tree σ}
    (run : Traced.loop (Window.round policy id) (passLimit (Storage.slotCount store)) (.start { t with store }) =
      ⟨log, .ok t₁⟩)
    (painted : t₁.paintRoot .black = .ok t') : insert policy t id = ⟨log, .ok (.ok (), t')⟩ := by
  have searched := linked.search policy n.key
  rw [fresh] at searched
  have root : t.root = s.link := linked.spells.linkEq
  obtain ⟨c, top⟩ : ∃ c, t.root = some c := root ▸ Shape.linkSome inside
  simp only [top] at run
  simp [insert, Storage.nodeOk read, searched, reset, top, run, painted, Traced.pureEq]

theorem insertGrows (linked : Linked t s) (read : Storage.get? t.store id = some n) (out : id ∉ s.ids)
    (fresh : s.find? (policy n.key) = none) {log : List Event} {s' : Shape K V}
    (grows : Grows (policy n.key) ⟨id, n.key, n.value⟩ s log s') :
    ∃ t', insert policy t id = ⟨log, .ok (.ok (), t')⟩ ∧ Linked t' s' ∧ Rewrites (id :: s.ids) t.store t'.store := by
  obtain ⟨store, reset, linked₁, detached, wrote⟩ := resetOk linked read out
  have wrote : Rewrites (id :: s.ids) t.store store := wrote.widen (by simp)
  have named := @grows.memIds
  obtain @⟨rounds, s', passes, few⟩ := grows
  have members : ∀ other ∈ s'.ids, other ∈ id :: s.ids := by
    intro other member
    rw [← Shape.idsBlacken, named] at member
    exact List.mem_cons.mpr member
  by_cases leaf : s = .leaf
  · subst leaf
    have searched := linked.search policy n.key
    rw [fresh] at searched
    have root : t.root = none := linked.spells.linkEq
    obtain ⟨rfl, rfl⟩ : log = [] ∧ s' = Cell.sprout ⟨id, n.key, n.value⟩ := passes.ofLeaf
    have sprouted : Linked (⟨some id, store⟩ : Tree σ) (Cell.sprout ⟨id, n.key, n.value⟩) :=
      ⟨Spells.nodeIff.mpr ⟨rfl, detached, .leaf, .leaf⟩, by simp [Cell.sprout, Shape.ids]⟩
    obtain ⟨t', painted, grown, writes⟩ := paintRootOk sprouted
    refine ⟨t', ?_, grown, wrote.trans (writes.widen members)⟩
    simp [insert, Storage.nodeOk read, searched, reset, root, painted, Traced.pureEq]
  · obtain ⟨t₁, run, linked₂, writes⟩ := loopOk policy ⟨id, n.key, n.value⟩ linked₁ leaf detached out passes few
    obtain ⟨t', painted, grown, writes'⟩ := paintRootOk linked₂
    exact ⟨t', insertLoop linked read fresh leaf reset run painted, grown,
      (wrote.trans writes).trans (writes'.widen members)⟩

theorem insertFresh (linked : Linked t s) (balanced : s.Balanced) (read : Storage.get? t.store id = some n)
    (out : id ∉ s.ids) (fresh : s.find? (policy n.key) = none) :
    ∃ log s' t', insert policy t id = ⟨log, .ok (.ok (), t')⟩ ∧ Linked t' s' ∧ s'.Balanced ∧
      s'.cells = (s.cut (policy n.key)).1 ++ ⟨id, n.key, n.value⟩ :: (s.cut (policy n.key)).2 ∧
      Rewrites (id :: s.ids) t.store t'.store := by
  obtain ⟨log, s', grows⟩ := Insertion.grows (policy n.key) ⟨id, n.key, n.value⟩ balanced.root balanced.noRedRed
  obtain ⟨t', run, grown, writes⟩ := insertGrows linked read out fresh grows
  exact ⟨log, s', t', run, grown, grows.balanced balanced, grows.cells, writes⟩

theorem insertHeld {holder : NodeId} (linked : Linked t s) (read : Storage.get? t.store id = some n)
    (held : s.find? (policy n.key) = some holder) :
    insert policy t id = ⟨[.insertRefused id holder], .ok (.error .duplicateKey, t)⟩ := by
  have searched := linked.search policy n.key
  rw [held] at searched
  simp [insert, Storage.nodeOk read, searched, Traced.pureEq]

theorem insertDead (read : Storage.get? t.store id = none) :
    insert policy t id = ⟨[], .error (Storage.missing t.store id)⟩ := by
  have absent : Storage.node t.store id = .error (Storage.missing t.store id) := by simp [Storage.node, read]
  rw [insert, absent]
  rfl

theorem Linked.accepted {t' : Tree σ} (linked : Linked t s) (run : (insert policy t id).result = .ok (.ok (), t')) :
    ∃ n, Storage.get? t.store id = some n ∧ s.find? (policy n.key) = none := by
  cases read : Storage.get? t.store id with
  | none =>
      rw [insertDead read] at run
      cases run
  | some n =>
      cases found : s.find? (policy n.key) with
      | none => exact ⟨n, rfl, found⟩
      | some holder =>
          rw [insertHeld linked read found] at run
          cases run

end Tree

end RedBlack
