import Mathlib.Data.List.Forall2
import RedBlack.Proofs.Values
import RedBlack.Proofs.Insertion.Outcome

/-! Insertion seen in a mirror. Under the reversed policy a new node takes the same way with left and right exchanged:
an equal key would break the symmetry, but where one is met the search has refused the node before. -/
namespace RedBlack

theorem Side.towardSwap {answer : Ordering} (unequal : answer ≠ .eq) : toward answer.swap = (toward answer).opposite := by
  cases answer with
  | eq => exact absurd rfl unequal
  | lt => rfl
  | gt => rfl

theorem Policy.reversedSwaps {K : Type} (policy : Policy K) [Std.OrientedCmp policy] (key key' : K) :
    policy.reversed key key' = (policy key key').swap := by
  change policy key' key = _
  exact Std.OrientedCmp.eq_swap

def Node.turned {K V : Type} (n : Node K V) : Node K V := { n with left := n.right, right := n.left }

namespace Shape
variable {K V : Type} {order order' : K → Ordering} {s : Shape K V}

@[simp] theorem reversedFork (side : Side) (c : Cell K V) (color : Color) (near far : Shape K V) :
    (fork side c color near far).reversed = fork side.opposite c color near.reversed far.reversed := by cases side <;> rfl

@[simp] theorem colorReversed (s : Shape K V) : s.reversed.color = s.color := by cases s <;> rfl

@[simp] theorem linkReversed (s : Shape K V) : s.reversed.link = s.link := by cases s <;> rfl

@[simp] theorem blackenReversed (s : Shape K V) : s.blacken.reversed = s.reversed.blacken := by cases s <;> rfl

theorem cellsReversed (s : Shape K V) : s.reversed.cells = s.cells.reverse := by
  induction s with
  | leaf => rfl
  | node id color left key value right ihLeft ihRight => simp [reversed, cells, ihLeft, ihRight]

@[simp] theorem findBlacken (s : Shape K V) : s.blacken.find? order = s.find? order := by cases s <;> rfl

section
variable (swaps : ∀ key, order' key = (order key).swap)
include swaps

theorem findReversed (s : Shape K V) : s.reversed.find? order' = s.find? order := by
  induction s with
  | leaf => rfl
  | node id color left key value right ihLeft ihRight =>
      simp only [reversed, find?, swaps]
      cases order key with
      | lt => exact ihLeft
      | eq => rfl
      | gt => exact ihRight

theorem descentReversed (missing : s.find? order = none) : s.reversed.descent order' = s.descent order := by
  induction s with
  | leaf => rfl
  | node id color left key value right ihLeft ihRight =>
      simp only [find?] at missing
      simp only [reversed, descent, swaps]
      cases answer : order key with
      | eq => simp [answer] at missing
      | lt =>
          rw [answer] at missing
          exact congrArg (· + 1) (ihLeft missing)
      | gt =>
          rw [answer] at missing
          exact congrArg (· + 1) (ihRight missing)

end

end Shape

namespace Frame
variable {K V : Type}

def reversed (f : Frame K V) : Frame K V := ⟨f.cell, f.color, f.side.opposite, f.far.reversed⟩

theorem reversedMk (c : Cell K V) (color : Color) (side : Side) (far : Shape K V) :
    (⟨c, color, side, far⟩ : Frame K V).reversed = ⟨c, color, side.opposite, far.reversed⟩ := rfl

theorem fillReversed (f : Frame K V) (s : Shape K V) : (f.fill s).reversed = f.reversed.fill s.reversed :=
  Shape.reversedFork ..

theorem reddenReversed (f : Frame K V) : f.redden.reversed = f.reversed.redden := rfl

theorem overReversed (p g : Frame K V) : (p.over g).reversed = p.reversed.over g.reversed := by
  simp [Frame.over, reversed, fillReversed, redden]

end Frame

def Path.reversed {K V : Type} (path : Path K V) : Path K V := path.map Frame.reversed

theorem Path.fillReversed {K V : Type} (path : Path K V) (s : Shape K V) :
    (path.fill s).reversed = path.reversed.fill s.reversed := by
  induction path generalizing s with
  | nil => rfl
  | cons f above ih => rw [fillCons, ih, Frame.fillReversed]; rfl

@[simp] theorem Path.colorReversed {K V : Type} (path : Path K V) : path.reversed.color = path.color := by
  cases path <;> rfl

def Place.reversed {K V : Type} (z : Place K V) : Place K V := ⟨z.path.reversed, z.focus.reversed⟩

namespace Insertion
variable {K V : Type} {order order' : K → Ordering} {new : Cell K V} {stage stage' : Stage} {z z' : Place K V}
  {log : List Event} {s s' : Shape K V}

structure Unmet (order : K → Ordering) (z : Place K V) : Prop where
  above : ∀ f ∈ z.path, order f.cell.key ≠ .eq
  below : z.focus.find? order = none

theorem unmetFork {side : Side} {c : Cell K V} {color : Color} {near far : Shape K V} (turn : Side.toward (order c.key) = side)
    (missing : (Shape.fork side c color near far).find? order = none) : order c.key ≠ .eq ∧ near.find? order = none := by
  rw [Shape.findFork turn] at missing
  split at missing
  · cases missing
  · exact ⟨‹_›, missing⟩

theorem Step.unmet (step : Step order stage z log stage' z') (unmet : Unmet order z) (follows : z.path.Follows order) :
    Unmet order z' := by
  obtain ⟨above, below⟩ := unmet
  cases step with
  | walk turn idle calm =>
      obtain ⟨here, onward⟩ := unmetFork turn below
      exact ⟨List.forall_mem_cons.mpr ⟨here, above⟩, onward⟩
  | flip turn redNear redFar calm =>
      obtain ⟨here, onward⟩ := unmetFork turn below
      exact ⟨List.forall_mem_cons.mpr ⟨here, above⟩, by rw [Shape.findBlacken, onward]⟩
  | single turn redNear redFar redParent straight =>
      obtain ⟨here, onward⟩ := unmetFork turn below
      obtain ⟨parent, grand, higher⟩ : _ ∧ _ ∧ _ := by simpa only [List.forall_mem_cons] using above
      refine ⟨?_, by rw [Shape.findBlacken, onward]⟩
      simp only [List.forall_mem_cons]
      exact ⟨here, parent, higher⟩
  | @double p g q r higher side c color near far turn redNear redFar redParent pair back away =>
      obtain ⟨here, onward⟩ := unmetFork turn below
      obtain ⟨parent, grand, higher⟩ : _ ∧ _ ∧ _ := by simpa only [List.forall_mem_cons] using above
      have returned : Side.toward (order q.cell.key) = q.side ∧ order q.cell.key ≠ .eq := by
        obtain ⟨rfl, rfl⟩ | ⟨rfl, rfl⟩ := pair
        · exact ⟨follows.head, parent⟩
        · exact ⟨follows.tail.head, grand⟩
      have again : (q.redden.fill near.blacken).find? order = none := by
        rw [Frame.fill, Frame.redden, Shape.findFork returned.1, if_neg returned.2, Shape.findBlacken, onward]
      exact ⟨List.forall_mem_cons.mpr ⟨here, higher⟩, again⟩

theorem Ends.reversed (ends : Ends new z log s) : Ends new z.reversed log s.reversed := by
  cases ends with
  | @plain path calm =>
      rw [Path.fillReversed]
      exact .plain (by simpa using calm)
  | @single p g above redParent straight =>
      rw [Path.fillReversed, Path.reversed, List.map_cons, Frame.overReversed]
      exact .single redParent (congrArg Side.opposite straight)
  | @double p g above redParent bent =>
      rw [Path.fillReversed, Shape.reversedFork, Frame.fillReversed, Frame.fillReversed, Frame.reddenReversed, Frame.reddenReversed]
      exact .double redParent (congrArg Side.opposite bent)

section
variable (swaps : ∀ key, order' key = (order key).swap)
include swaps

theorem turnReversed {c : Cell K V} {side : Side} (turn : Side.toward (order c.key) = side) (unequal : order c.key ≠ .eq) :
    Side.toward (order' c.key) = side.opposite := by rw [swaps, Side.towardSwap unequal, turn]

theorem Step.reversed (step : Step order stage z log stage' z') (unmet : Unmet order z) :
    Step order' stage z.reversed log stage' z'.reversed := by
  obtain ⟨-, below⟩ := unmet
  cases step with
  | @walk _ path side c color near far turn idle calm =>
      have turn' := turnReversed swaps turn (unmetFork turn below).1
      rw [Place.reversed, Shape.reversedFork]
      exact .walk turn' (by simpa using idle) (by simpa using calm)
  | @flip path side c color near far turn redNear redFar calm =>
      have turn' := turnReversed swaps turn (unmetFork turn below).1
      simp only [Place.reversed, Path.reversed, List.map_cons, Shape.reversedFork, Shape.blackenReversed, Frame.reversedMk]
      exact .flip turn' (by simpa using redNear) (by simpa using redFar) (path.colorReversed.trans calm)
  | @single p g above side c color near far turn redNear redFar redParent straight =>
      have turn' := turnReversed swaps turn (unmetFork turn below).1
      have straight' : p.reversed.side = g.reversed.side := congrArg Side.opposite straight
      simp only [Place.reversed, Path.reversed, List.map_cons, Shape.reversedFork, Shape.blackenReversed, Frame.reversedMk,
        Frame.overReversed]
      exact .single turn' (by simpa using redNear) (by simpa using redFar) redParent straight'
  | @double p g q r above side c color near far turn redNear redFar redParent pair back away =>
      have turn' := turnReversed swaps turn (unmetFork turn below).1
      have back' : q.reversed.side = side.opposite.opposite := congrArg Side.opposite back
      have away' : r.reversed.side = side.opposite := congrArg Side.opposite away
      have pair' : q.reversed = p.reversed ∧ r.reversed = g.reversed ∨ q.reversed = g.reversed ∧ r.reversed = p.reversed := by
        obtain ⟨rfl, rfl⟩ | ⟨rfl, rfl⟩ := pair
        · exact .inl ⟨rfl, rfl⟩
        · exact .inr ⟨rfl, rfl⟩
      simp only [Place.reversed, Path.reversed, List.map_cons, Shape.reversedFork, Shape.blackenReversed, Frame.fillReversed,
        Frame.reddenReversed, Frame.reversedMk]
      exact .double turn' (by simpa using redNear) (by simpa using redFar) redParent pair' back' away'

theorem Passes.reversed {rounds : Nat} (passes : Passes order new rounds stage z log s) (unmet : Unmet order z)
    (follows : z.path.Follows order) : Passes order' new rounds stage z.reversed log s.reversed := by
  induction passes with
  | ends last => exact .ends last.reversed
  | step first tail ih => exact .step (first.reversed swaps unmet) (ih (first.unmet unmet follows) (first.follows follows))

theorem Grows.reversed (grows : Grows order new s log s') (missing : s.find? order = none) :
    Grows order' new s.reversed log s'.reversed := by
  obtain ⟨passes, few⟩ := grows
  have unmet : Unmet order ⟨[], s⟩ := ⟨by simp, missing⟩
  have turned := passes.reversed swaps unmet (by simp [Path.Follows])
  rw [Shape.blackenReversed]
  exact .mk turned (by simpa only [remaining, Shape.descentReversed swaps missing] using few)

end

end Insertion

theorem Spells.turned {σ K V : Type} [Storage σ K V] {store store' : σ} {link link' : Option NodeId} {s : Shape K V}
    (h : Spells store link s) (h' : Spells store' link' s.reversed) :
    ∀ id ∈ s.ids, Storage.get? store' id = (Storage.get? store id).map Node.turned := by
  induction s generalizing link link' with
  | leaf => simp [Shape.ids]
  | node id color left key value right ihLeft ihRight =>
      obtain ⟨-, read, spellsLeft, spellsRight⟩ := nodeIff.mp h
      obtain ⟨-, read', spellsRight', spellsLeft'⟩ := nodeIff.mp h'
      intro other member
      rcases List.mem_append.mp member with member | member
      · exact ihLeft spellsLeft spellsLeft' other member
      rcases List.mem_cons.mp member with rfl | member
      · rw [read', read, Shape.linkReversed, Shape.linkReversed]
        rfl
      · exact ihRight spellsRight spellsRight' other member

namespace Tree
variable {σ K V : Type} [Storage σ K V] {t other : Tree σ} {s : Shape K V} {policy : Policy K} {id : NodeId} {n : Node K V}

def course (policy : Policy K) : Tree σ → List NodeId → List (Except Refusal Unit × Tree σ)
  | _, [] => []
  | t, id :: ids =>
      match (insert policy t id).result with
      | .ok (answer, t') => (answer, t') :: course policy t' ids
      | .error _ => []

structure Opposite (t other : Tree σ) : Prop where
  root : other.root = t.root
  links : ∀ id, Links other id ↔ Links t id
  nodes : ∀ id, Links t id → Storage.get? other.store id = (Storage.get? t.store id).map Node.turned
  row : ∃ s s' : Shape K V, Linked t s ∧ Linked other s' ∧ s'.cells = s.cells.reverse

/-- The trees of two runs side by side. Nodes that neither has linked are still the same in both storages. -/
structure Facing (t other : Tree σ) (s : Shape K V) : Prop where
  linked : Linked t s
  turned : Linked other s.reversed
  balanced : s.Balanced
  rest : ∀ id, id ∉ s.ids → Storage.get? other.store id = Storage.get? t.store id

namespace Facing

theorem rootless (store : σ) : Facing (.rootless store) (.rootless store) .leaf where
  linked := ⟨.leaf, .nil⟩
  turned := ⟨.leaf, .nil⟩
  balanced := Shape.balancedLeaf
  rest _ _ := rfl

theorem opposite (facing : Facing t other s) : Opposite t other where
  root := by rw [facing.turned.spells.linkEq, facing.linked.spells.linkEq, Shape.linkReversed]
  links id := by simp [facing.linked.linksIff, facing.turned.linksIff]
  nodes id links := facing.linked.spells.turned facing.turned.spells id (facing.linked.linksIff.mp links)
  row := ⟨s, s.reversed, facing.linked, facing.turned, s.cellsReversed⟩

theorem grown [Std.OrientedCmp policy] (facing : Facing t other s) (read : Storage.get? t.store id = some n) (out : id ∉ s.ids)
    (fresh : s.find? (policy n.key) = none) :
    ∃ t' other' s', (insert policy t id).result = .ok (.ok (), t') ∧ (insert policy.reversed other id).result = .ok (.ok (), other') ∧
      Facing t' other' s' ∧ (∀ name ∈ s'.ids, name = id ∨ name ∈ s.ids) ∧ Storage.Rewrites (id :: s.ids) t.store t'.store := by
  obtain ⟨linked, turned, balanced, rest⟩ := facing
  have swaps : ∀ key, policy.reversed n.key key = (policy n.key key).swap := policy.reversedSwaps n.key
  obtain ⟨log, s', grows⟩ := Insertion.grows (policy n.key) ⟨id, n.key, n.value⟩ balanced.root balanced.noRedRed
  obtain ⟨t', run, linked', writes⟩ := insertGrows linked read out fresh grows
  have out' : id ∉ s.reversed.ids := by simpa using out
  have fresh' : s.reversed.find? (policy.reversed n.key) = none := (Shape.findReversed swaps s).trans fresh
  obtain ⟨other', run', turned', writes'⟩ :=
    insertGrows turned ((rest id out).trans read) out' fresh' (grows.reversed swaps fresh)
  have rest' : ∀ name, name ∉ s'.ids → Storage.get? other'.store name = Storage.get? t'.store name := by
    intro name outside
    obtain ⟨apart, unlinked⟩ := not_or.mp (mt grows.memIds.mpr outside)
    rw [writes.elsewhere (by simp [apart, unlinked]), writes'.elsewhere (by simp [apart, unlinked]), rest name unlinked]
  exact ⟨t', other', s', by rw [run], by rw [run'], ⟨linked', turned', grows.balanced balanced, rest'⟩,
    fun name => grows.memIds.mp, writes⟩

theorem step (policy : Policy K) [Std.OrientedCmp policy] (facing : Facing t other s) (read : Storage.get? t.store id = some n) (out : id ∉ s.ids) :
    ∃ answer t' other' s', (∀ ids, course policy t (id :: ids) = (answer, t') :: course policy t' ids) ∧
      (∀ ids, course policy.reversed other (id :: ids) = (answer, other') :: course policy.reversed other' ids) ∧
      Facing t' other' s' ∧ (∀ name ∈ s'.ids, name = id ∨ name ∈ s.ids) ∧ Storage.Rewrites (id :: s.ids) t.store t'.store := by
  cases found : s.find? (policy n.key) with
  | some holder =>
      have read' : Storage.get? other.store id = some n := (facing.rest id out).trans read
      have found' : s.reversed.find? (policy.reversed n.key) = some holder :=
        (Shape.findReversed (policy.reversedSwaps n.key) s).trans found
      refine ⟨.error .duplicateKey, t, other, s, ?_, ?_, facing, fun name => .inr, .none⟩
      · simp [course, insertHeld facing.linked read found]
      · simp [course, insertHeld facing.turned read' found']
  | none =>
      obtain ⟨t', other', s', run, run', after⟩ := facing.grown read out found
      exact ⟨.ok (), t', other', s', by simp [course, run], by simp [course, run'], after⟩

theorem courses [Std.OrientedCmp policy] {ids : List NodeId} (facing : Facing t other s) (once : ids.Nodup)
    (apart : ∀ id ∈ ids, id ∉ s.ids) :
    List.Forall₂ (fun one two => one.1 = two.1 ∧ Opposite one.2 two.2) (course policy t ids) (course policy.reversed other ids) ∧
      ((∀ id ∈ ids, (Storage.get? t.store id).isSome) → (course policy t ids).length = ids.length) := by
  induction ids generalizing t other s with
  | nil => simp [course]
  | cons id ids ih =>
      obtain ⟨new, once⟩ := List.nodup_cons.mp once
      obtain ⟨out, apart⟩ := List.forall_mem_cons.mp apart
      cases read : Storage.get? t.store id with
      | none =>
          have read' : Storage.get? other.store id = none := (facing.rest id out).trans read
          simp [course, insertDead read, insertDead read', read]
      | some n =>
          obtain ⟨answer, t', other', s', run, run', facing', names, writes⟩ := facing.step policy read out
          have apart' : ∀ name ∈ ids, name ∉ s'.ids := by
            intro name member inside
            obtain rfl | inside := names name inside
            · exact new member
            · exact apart name member inside
          obtain ⟨pairs, whole⟩ := ih facing' once apart'
          rw [run, run']
          refine ⟨.cons ⟨rfl, facing'.opposite⟩ pairs, fun live => ?_⟩
          have live' : ∀ name ∈ ids, (Storage.get? t'.store name).isSome := by
            intro name member
            rw [writes.live]
            exact live name (List.mem_cons_of_mem _ member)
          rw [List.length_cons, List.length_cons, whole live']

end Facing

theorem everyRunReversible (policy : Policy K) [Std.OrientedCmp policy] (store : σ) (ids : List NodeId) (once : ids.Nodup) :
    List.Forall₂ (fun one two => one.1 = two.1 ∧ Opposite one.2 two.2) (course policy (.rootless store) ids)
        (course policy.reversed (.rootless store) ids) ∧
      ((∀ id ∈ ids, (Storage.get? store id).isSome) → (course policy (.rootless store) ids).length = ids.length) := by
  have nothing : ∀ id ∈ ids, id ∉ (Shape.leaf : Shape K V).ids := by simp [Shape.ids]
  exact (Facing.rootless store).courses once nothing

def circular : Policy (Fin 3) := fun a b => if a = b then .eq else if b = a + 1 then .lt else .gt

def circularStore : Array (Node (Fin 3) Nat) :=
  #[⟨.black, some ⟨1⟩, none, 1, 10⟩, ⟨.red, none, some ⟨0⟩, 2, 20⟩, ⟨.red, none, none, 0, 0⟩, ⟨.black, none, some ⟨9⟩, 0, 5⟩]

def circularIds : List NodeId := [⟨2⟩, ⟨0⟩, ⟨3⟩, ⟨1⟩]

theorem circularRunReversible :
    (course circular (.rootless circularStore) circularIds).length = 4 ∧
      List.Forall₂ (fun one two => one.1 = two.1 ∧ Opposite one.2 two.2) (course circular (.rootless circularStore) circularIds)
        (course circular.reversed (.rootless circularStore) circularIds) := by
  have oriented : Std.OrientedCmp circular := ⟨by decide⟩
  obtain ⟨pairs, whole⟩ := everyRunReversible circular circularStore circularIds (by decide)
  exact ⟨whole (by decide), pairs⟩

end Tree

end RedBlack
