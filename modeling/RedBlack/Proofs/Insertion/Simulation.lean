import RedBlack.Tree.Insertion
import RedBlack.Proofs.Rotation
import RedBlack.Proofs.Insertion.Passes

/-! The rounds of an insertion in storage follow the steps between places. A window shows a place when its
tree spells the shape and its parent, current node and side are those of the place; the names further up
are right only as far as the stage says. -/
namespace RedBlack

namespace Tree.Window
variable {σ K V : Type} [Storage σ K V] {w : Window σ} {t : Tree σ} {path above : Path K V} {s : Shape K V}
  {side : Side} {c : Cell K V} {color : Color} {near far : Shape K V} {p g : Frame K V}

open Storage (Rewrites)
open Insertion (Stage Step Ends Passes)

section Arrive

theorem arriveIdle (linked : Linked w.tree (path.fill (.fork side c color near far))) (current : w.current = some c.id)
    (idle : near.color = .black ∨ far.color = .black) (id : NodeId) : w.arrive id = ⟨[], .ok (w.tree, c.id)⟩ := by
  obtain ⟨-, read, spellsNear, spellsFar⟩ := Spells.forkIff.mp linked.focus
  have readLeft := Storage.childRead read .left
  have readRight := Storage.childRead read .right
  have redNear := spellsNear.isRed
  have redFar := spellsFar.isRed
  cases side <;> simp only [Cell.node, Node.child] at readLeft readRight <;>
    by_cases red : near.color = .red <;> by_cases other : far.color = .red <;>
    simp_all [arrive, Traced.pureEq]

theorem arriveFlip (linked : Linked w.tree (path.fill (.fork side c color near far))) (current : w.current = some c.id)
    (redNear : near.color = .red) (redFar : far.color = .red) (id : NodeId) :
    ∃ t, w.arrive id = ⟨[.insertFlip c.id], .ok (t, c.id)⟩ ∧
      Linked t (path.fill (.fork side c .red near.blacken far.blacken)) ∧
      Rewrites (path.fill (.fork side c color near far)).ids w.tree.store t.store := by
  obtain ⟨-, read, spellsNear, spellsFar⟩ := Spells.forkIff.mp linked.focus
  have readLeft := Storage.childRead read .left
  have readRight := Storage.childRead read .right
  have nearIsRed := spellsNear.isRed
  have farIsRed := spellsFar.isRed
  obtain ⟨store, flipped, spells, writes⟩ := flipOk (by simpa using linked.focus) (Path.nodupFocus linked.once)
  refine ⟨{ w.tree with store }, ?_, ?_, writes.widen fun id member => Path.memFill.mpr (.inl member)⟩
  · cases side <;> simp only [Cell.node, Node.child] at readLeft readRight <;>
      simp [arrive, current, readLeft, readRight, nearIsRed, farIsRed, redNear, redFar, flipped, Traced.pureEq]
  · exact linked.rewrite writes (by simpa using spells) (by simp) (linked.onceOf (Shape.idsRecolor ..))

theorem arriveLeaf {new : Cell K V} (linked : Linked w.tree (path.fill .leaf)) (parent : w.parent = path.owner)
    (inside : path ≠ []) (side : w.side = path.side) (current : w.current = none)
    (read : Storage.get? w.tree.store new.id = some (.fresh new.key new.value))
    (out : new.id ∉ (path.fill (.leaf : Shape K V)).ids) :
    ∃ t, w.arrive new.id = ⟨[], .ok (t, new.id)⟩ ∧ Linked t (path.fill new.sprout) ∧
      Rewrites (path.fill (.leaf : Shape K V)).ids w.tree.store t.store := by
  have spells : Spells w.tree.store (some new.id) new.sprout := Spells.nodeIff.mpr ⟨rfl, read, .leaf, .leaf⟩
  have spells' : Spells w.tree.store new.sprout.link new.sprout := spells
  have outNames : new.id ∉ path.names := fun member => out (Path.memFill.mpr (.inr member))
  have once : (path.fill new.sprout).ids.Nodup := by
    rw [(Path.idsFill path new.sprout).nodup_iff]
    exact List.nodup_cons.mpr ⟨outNames, Path.nodupNames linked.once⟩
  obtain ⟨t, set, linked', writes⟩ := linked.relink .none (by simp : ∀ id ∈ [], id ∈ (.leaf : Shape K V).ids) spells' once
  cases path with
  | nil => exact absurd rfl inside
  | cons f above =>
      obtain ⟨store, written, rfl⟩ : ∃ store, Storage.setChild w.tree.store f.cell.id f.side (some new.id) = .ok store ∧
          t = { w.tree with store } := by
        have set : (Storage.setChild w.tree.store f.cell.id f.side (some new.id)).map
            (fun store => { w.tree with store }) = .ok t := set
        cases written : Storage.setChild w.tree.store f.cell.id f.side (some new.id) with
        | error fault => simp [written, Except.map] at set
        | ok store => exact ⟨store, rfl, by simpa [written, Except.map] using set.symm⟩
      refine ⟨_, ?_, linked', writes⟩
      simp [arrive, current, parent, require, side, written, Traced.pureEq]

end Arrive

section Settle

theorem settleRest (linked : Linked t (path.fill s)) (parent : w.parent = path.owner) {current : NodeId}
    (here : s.link = some current) (calm : path.color = .black ∨ s.color = .black) :
    w.settle t current = ⟨[], .ok t⟩ := by
  have focus := linked.focus.isRed
  rw [here] at focus
  cases path with
  | nil => simp [settle, parent, Traced.pureEq]
  | cons f above =>
      have red : Storage.isRed t.store (some f.cell.id) = .ok (decide (f.color = .red)) := by
        simp [Storage.isRed, Storage.nodeOk linked.leads.1, Except.map, Frame.node]
      by_cases redParent : f.color = .red
      · have black : s.color = .black := calm.resolve_left (by simp [Path.color, redParent])
        simp [settle, parent, red, redParent, focus, black, Traced.pureEq]
      · simp [settle, parent, red, redParent, Traced.pureEq]

section
variable (linked : Linked t (Path.fill (p :: g :: above) s)) (parent : w.parent = some p.cell.id)
  (grand : w.grand = some g.cell.id) (great : w.great = above.owner) (lastSide : w.lastSide = g.side)
  {current : NodeId} (here : s.link = some current) (redParent : p.color = .red) (red : s.color = .red)
include linked parent grand great lastSide here redParent red

theorem settleConflict :
    w.settle t current =
      if (p.node s.link).child g.side = some current then
        Traced.note (.insertSingle g.cell.id) >>= fun _ =>
          Traced.lift (single t.store g.cell.id g.side.opposite) >>= fun rotated =>
            Traced.lift (({ t with store := rotated.2 } : Tree σ).setSlot above.owner above.side (some rotated.1))
      else
        Traced.note (.insertDouble g.cell.id) >>= fun _ =>
          Traced.lift (double t.store g.cell.id g.side.opposite) >>= fun rotated =>
            Traced.lift (({ t with store := rotated.2 } : Tree σ).setSlot above.owner above.side (some rotated.1)) := by
  obtain ⟨readParent, -, -, -, up⟩ := linked.leads
  have whole : Linked t (above.fill (g.fill (p.fill s))) := linked
  have outGrand : g.cell.id ∉ above.names := Path.apart whole.once (by simp [Frame.fill])
  have isRedParent : Storage.isRed t.store (some p.cell.id) = .ok true := by
    simp [Storage.isRed, Storage.nodeOk readParent, Except.map, Frame.node, redParent]
  have isRedCurrent : Storage.isRed t.store (some current) = .ok true := by
    simpa [here, red] using linked.focus.isRed
  simp only [settle, parent, Traced.liftMEqLift, isRedParent, Traced.liftOkBind, isRedCurrent, grand, require, great,
    up.sideOf outGrand, Storage.childRead readParent, lastSide, if_true]

theorem settleSingle (straight : p.side = g.side) :
    ∃ t', w.settle t current = ⟨[.insertSingle g.cell.id], .ok t'⟩ ∧ Linked t' (Path.fill (p.over g :: above) s) ∧
      Rewrites (Path.fill (p :: g :: above) s).ids t.store t'.store := by
  have conflict := settleConflict linked parent grand great lastSide here redParent red
  have linked : Linked t (above.fill (g.fill (p.fill s))) := linked
  have old : g.fill (p.fill s) = .fork g.side.opposite g.cell g.color g.far (.fork g.side.opposite p.cell p.color p.far s) := by
    simp [Frame.fill, straight, Shape.forkOpposite]
  have lifted : (p.over g).fill s = .fork g.side.opposite p.cell .black (.fork g.side.opposite g.cell .red g.far p.far) s := by
    simp [Frame.fill, Frame.over, Frame.redden, straight, Shape.forkOpposite]
  have same : ((p.over g).fill s).ids = (g.fill (p.fill s)).ids := by
    rw [lifted, old]
    exact Shape.idsOfCells (Shape.cellsSingle ..)
  have focus := linked.focus
  have once := Path.nodupFocus linked.once
  rw [old] at focus once
  obtain ⟨store, rotated, spells, writes⟩ := singleOk (by simpa using focus) once
  rw [← lifted] at spells
  have top : some p.cell.id = ((p.over g).fill s).link := spells.linkEq
  obtain ⟨t', set, linked', writes'⟩ := linked.relink writes (by simp [Frame.fill]) (top ▸ spells)
    (linked.onceOf (.of_eq same))
  refine ⟨t', ?_, linked', writes'⟩
  have child : (p.node s.link).child g.side = some current := by simp [Frame.node, ← straight, here]
  rw [← top] at set
  simp [conflict, child, rotated, set]

theorem settleDouble {a b : Shape K V} (bent : p.side = g.side.opposite) (focus : s = .fork g.side c color b a) :
    ∃ t', w.settle t current = ⟨[.insertDouble g.cell.id], .ok t'⟩ ∧
      Linked t' (above.fill (.fork g.side c .black (p.redden.fill b) (g.redden.fill a))) ∧
      Rewrites (Path.fill (p :: g :: above) s).ids t.store t'.store := by
  have conflict := settleConflict linked parent grand great lastSide here redParent red
  subst focus
  have linked : Linked t (above.fill (g.fill (p.fill (.fork g.side c color b a)))) := linked
  have old : g.fill (p.fill (.fork g.side c color b a)) =
      .fork g.side.opposite g.cell g.color g.far
        (.fork g.side.opposite p.cell p.color (.fork g.side.opposite c color a b) p.far) := by
    simp [Frame.fill, bent, Shape.forkOpposite]
  have lifted : Shape.fork g.side c .black (p.redden.fill b) (g.redden.fill a) =
      .fork g.side.opposite c .black (.fork g.side.opposite g.cell .red g.far a)
        (.fork g.side.opposite p.cell .red b p.far) := by
    simp [Frame.fill, Frame.redden, bent, Shape.forkOpposite]
  have same : (Shape.fork g.side c .black (p.redden.fill b) (g.redden.fill a)).ids =
      (g.fill (p.fill (.fork g.side c color b a))).ids := by
    rw [lifted, old]
    exact Shape.idsOfCells (Shape.cellsDouble ..)
  have focus := linked.focus
  have once := Path.nodupFocus linked.once
  have child : (p.node (some current)).child g.side ≠ some current := by
    have parentOnce := ((Shape.onceFork ..).mp once).2.1
    have apart := ((Shape.onceFork ..).mp parentOnce).2.2.2 current (Shape.linkMem here)
    have far : (p.node (some current)).child g.side = p.far.link := by
      rw [← Side.oppositeOpposite g.side, ← bent]
      simp [Frame.node]
    rw [far]
    exact fun same => apart (Shape.linkMem same)
  rw [old] at focus once
  obtain ⟨store, rotated, spells, writes⟩ := doubleOk (by simpa using focus) once
  rw [← lifted] at spells
  obtain ⟨t', set, linked', writes'⟩ := linked.relink writes (by simp [Frame.fill]) (by simpa using spells)
    (linked.onceOf (.of_eq same))
  refine ⟨t', ?_, linked', writes'⟩
  rw [Shape.linkFork] at set
  simp [conflict, here, child, rotated, set]

end

theorem settleBetween {q r : Frame K V} (linked : Linked t (Path.fill (p :: g :: above) (.fork side c .red near far)))
    (parent : w.parent = some p.cell.id) (grand : w.grand = some g.cell.id) (great : w.great = above.owner)
    (lastSide : w.lastSide = g.side) (redParent : p.color = .red) (pair : q = p ∧ r = g ∨ q = g ∧ r = p)
    (back : q.side = side.opposite) (away : r.side = side) :
    ∃ t', w.settle t c.id = ⟨[.insertDouble g.cell.id], .ok t'⟩ ∧
      Linked t' (above.fill (.fork side c .black (q.redden.fill near) (r.redden.fill far))) ∧
      Rewrites (Path.fill (p :: g :: above) (.fork side c .red near far)).ids t.store t'.store := by
  obtain ⟨rfl, rfl⟩ | ⟨rfl, rfl⟩ := pair
  · have turned := settleDouble linked parent grand great lastSide (Shape.linkFork ..) redParent (Shape.colorFork ..)
      (by rw [back, away]) (by rw [away])
    rwa [away] at turned
  · have turned := settleDouble linked parent grand great lastSide (Shape.linkFork ..) redParent (Shape.colorFork ..)
      (by simp [back, away]) (by rw [back, Shape.forkOpposite])
    rwa [back, Shape.forkOpposite] at turned

end Settle

theorem advanceOk {policy : Policy K} {new : Cell K V} (linked : Linked t (path.fill (.fork side c color near far)))
    (read : Storage.get? t.store new.id = some (.fresh new.key new.value))
    (turn : Side.toward (policy new.key c.key) = side) :
    w.advance policy t new.id c.id = .ok ⟨t, w.grand <|> w.great, w.parent, some c.id, near.link, side, w.side⟩ := by
  obtain ⟨-, readNode, -, -⟩ := Spells.forkIff.mp linked.focus
  simp only [advance, Storage.nodeOk read, Storage.nodeOk readNode, Node.fresh, Cell.keyNode, turn, bind, Except.bind]
  simp [pure, Except.pure]

structure Shows (w : Window σ) (z : Place K V) : Prop where
  linked : Linked w.tree z.shape
  parent : w.parent = z.path.owner
  current : w.current = z.focus.link
  side : ∀ f above, z.path = f :: above → w.side = f.side

theorem Shows.onSide {z : Place K V} (shows : Shows w z) (inside : z.path ≠ []) : w.side = z.path.side := by
  cases path : z.path with
  | nil => exact absurd path inside
  | cons f above => exact shows.side f above path

def Knows (w : Window σ) (z : Place K V) : Stage → Prop
  | .ready =>
      w.grand = Path.owner z.path.tail ∧ w.great = Path.owner z.path.tail.tail ∧
        ∀ f g above, z.path = f :: g :: above → w.lastSide = g.side
  | .quiet => w.grand = Path.owner z.path.tail ∧ (w.grand = none → w.great = none)
  | .returning => z.path ≠ []

theorem startShows {s : Shape K V} (linked : Linked t s) : Shows (start t) ⟨[], s⟩ where
  linked := linked
  parent := rfl
  current := linked.spells.linkEq
  side := by simp

omit [Storage σ K V] in
theorem startKnows {s : Shape K V} : Knows (start t) (⟨[], s⟩ : Place K V) .ready := ⟨rfl, rfl, by simp⟩

theorem roundAgain {policy : Policy K} {id current : NodeId} {arrival settling : List Event} {t₁ t₂ : Tree σ}
    {w' : Window σ} (arrived : w.arrive id = ⟨arrival, .ok (t₁, current)⟩)
    (settled : w.settle t₁ current = ⟨settling, .ok t₂⟩) (other : current ≠ id)
    (advanced : w.advance policy t₂ id current = .ok w') :
    w.round policy id = ⟨arrival ++ settling, .ok (.again w')⟩ := by
  simp [round, arrived, settled, other, advanced, Traced.pureEq]

theorem roundDone {policy : Policy K} {id : NodeId} {arrival settling : List Event} {t₁ t₂ : Tree σ}
    (arrived : w.arrive id = ⟨arrival, .ok (t₁, id)⟩) (settled : w.settle t₁ id = ⟨settling, .ok t₂⟩) :
    w.round policy id = ⟨arrival ++ settling, .ok (.done t₂)⟩ := by
  simp [round, arrived, settled, Traced.pureEq]

omit [Storage σ K V] in
theorem knowsStep {order : K → Ordering} {stage stage' : Stage} {z z' : Place K V} {log : List Event}
    (step : Step order stage z log stage' z') (parent : w.parent = z.path.owner)
    (onSide : ∀ f above, z.path = f :: above → w.side = f.side) (knows : Knows w z stage) {t : Tree σ}
    {current link : Option NodeId} {side : Side} :
    Knows ⟨t, w.grand <|> w.great, w.parent, current, link, side, w.side⟩ z' stage' := by
  cases step with
  | @walk _ path side' c color near far turn idle calm =>
      cases stage with
      | ready =>
          obtain ⟨grand, great, -⟩ := knows
          refine ⟨parent, ?_, by intro f g above same; cases same; exact onSide g above rfl⟩
          rcases path with _ | ⟨f, _ | ⟨g, above⟩⟩ <;> simp_all
      | quiet =>
          obtain ⟨grand, great⟩ := knows
          refine ⟨parent, ?_, by intro f g above same; cases same; exact onSide g above rfl⟩
          rcases path with _ | ⟨f, _ | ⟨g, above⟩⟩ <;> simp_all
      | returning =>
          refine ⟨parent, fun none => ?_⟩
          cases path with
          | nil => exact absurd rfl knows
          | cons f above => simp [parent] at none
  | @flip path side' c color near far turn redNear redFar calm =>
      obtain ⟨grand, great, -⟩ := knows
      refine ⟨parent, fun none => ?_⟩
      cases path with
      | nil => simp [grand, great]
      | cons f above => simp [parent] at none
  | single => exact ⟨parent, by simp [parent]⟩
  | double => simp [Knows]

section
variable {policy : Policy K} {new : Cell K V} {stage stage' : Stage} {z z' : Place K V} {log : List Event}
  (shows : Shows w z) (knows : Knows w z stage)
  (read : Storage.get? w.tree.store new.id = some (.fresh new.key new.value)) (out : new.id ∉ z.shape.ids)
include shows knows read out

theorem roundStep (step : Step (policy new.key) stage z log stage' z') :
    ∃ w', w.round policy new.id = ⟨log, .ok (.again w')⟩ ∧ Shows w' z' ∧ Knows w' z' stage' ∧
      Rewrites z.shape.ids w.tree.store w'.tree.store := by
  obtain ⟨linked, parent, current, side⟩ := shows
  have outNow : ∀ {store}, Rewrites z.shape.ids w.tree.store store →
      Storage.get? store new.id = some (.fresh new.key new.value) :=
    fun writes => (writes.elsewhere out).trans read
  have knows' : ∀ {t current link side}, Knows ⟨t, w.grand <|> w.great, w.parent, current, link, side, w.side⟩ z' stage' :=
    knowsStep step parent side knows
  cases step with
  | @walk _ path side' c color near far turn idle calm =>
      have here : w.current = some c.id := by simpa using current
      have other : c.id ≠ new.id := fun same => out (same ▸ Path.memFill.mpr (.inl (by simp)))
      have settled := settleRest linked parent (Shape.linkFork ..) (by simpa using calm)
      refine ⟨_, roundAgain (arriveIdle linked here idle new.id) settled other (advanceOk linked read turn), ?_, ?_, .none⟩
      · exact ⟨linked, rfl, rfl, by intro f above same; cases same; rfl⟩
      · exact knows'
  | @flip path side' c color near far turn redNear redFar calm =>
      obtain ⟨t₁, arrived, linked₁, writes₁⟩ := arriveFlip linked (by simpa using current) redNear redFar new.id
      have other : c.id ≠ new.id := fun same => out (same ▸ Path.memFill.mpr (.inl (by simp)))
      have settled := settleRest linked₁ parent (Shape.linkFork ..) (.inl calm)
      refine ⟨_, roundAgain arrived settled other (advanceOk linked₁ (outNow writes₁) turn), ?_, ?_, writes₁⟩
      · exact ⟨linked₁, rfl, rfl, by intro f above same; cases same; rfl⟩
      · exact knows'
  | @single p g above side' c color near far turn redNear redFar redParent straight =>
      obtain ⟨grand, great, lastSide⟩ := knows
      obtain ⟨t₁, arrived, linked₁, writes₁⟩ := arriveFlip linked (by simpa using current) redNear redFar new.id
      have other : c.id ≠ new.id := fun same => out (same ▸ Path.memFill.mpr (.inl (by simp)))
      obtain ⟨t₂, settled, linked₂, writes₂⟩ := settleSingle linked₁ parent grand great (lastSide p g above rfl)
        (Shape.linkFork ..) redParent (Shape.colorFork ..) straight
      have writes := writes₁.trans (writes₂.widen fun id => (Path.namesOfPerm _ (Shape.idsRecolor ..)).mem_iff.mp)
      refine ⟨_, roundAgain arrived settled other (advanceOk linked₂ (outNow writes) turn), ?_, ?_, writes⟩
      · exact ⟨linked₂, rfl, rfl, by intro f above same; cases same; rfl⟩
      · exact knows'
  | @double p g q r above side' c color near far turn redNear redFar redParent pair back away =>
      obtain ⟨grand, great, lastSide⟩ := knows
      obtain ⟨t₁, arrived, linked₁, writes₁⟩ := arriveFlip linked (by simpa using current) redNear redFar new.id
      have other : c.id ≠ new.id := fun same => out (same ▸ Path.memFill.mpr (.inl (by simp)))
      obtain ⟨t₂, settled, linked₂, writes₂⟩ :=
        settleBetween linked₁ parent grand great (lastSide p g above rfl) redParent pair back away
      have writes := writes₁.trans (writes₂.widen fun id => (Path.namesOfPerm _ (Shape.idsRecolor ..)).mem_iff.mp)
      refine ⟨_, roundAgain arrived settled other (advanceOk linked₂ (outNow writes) turn), ?_, ?_, writes⟩
      · exact ⟨linked₂, rfl, rfl, by intro f above same; cases same; rfl⟩
      · exact knows'

theorem roundEnds {s : Shape K V} (ends : Ends new z log s) (inside : z.path ≠ []) (stage : stage = .ready) :
    ∃ t, w.round policy new.id = ⟨log, .ok (.done t)⟩ ∧ Linked t s ∧
      Rewrites (new.id :: z.shape.ids) w.tree.store t.store := by
  have onSide := shows.onSide inside
  obtain ⟨linked, parent, current, side⟩ := shows
  subst stage
  have absent : z.focus = .leaf := ends.leaf
  obtain ⟨path, focus⟩ := z
  subst absent
  obtain ⟨t₁, arrived, linked₁, writes₁⟩ := arriveLeaf linked parent inside onSide current read out
  have first := writes₁.widen (fun id => List.mem_cons_of_mem new.id)
  have grown : ∀ id ∈ (path.fill new.sprout).ids, id ∈ new.id :: (path.fill (.leaf : Shape K V)).ids := by
    intro id member
    rcases Path.memFill.mp member with here | there
    · exact List.mem_cons.mpr (.inl (by simpa [Cell.sprout, Shape.ids] using here))
    · exact List.mem_cons_of_mem _ (Path.memFill.mpr (.inr there))
  obtain ⟨grand, great, lastSide⟩ := knows
  cases ends with
  | plain calm =>
      exact ⟨t₁, roundDone arrived (settleRest linked₁ parent rfl (.inl calm)), linked₁, first⟩
  | @single p g above redParent straight =>
      obtain ⟨t₂, settled, linked₂, writes₂⟩ :=
        settleSingle linked₁ parent grand great (lastSide p g above rfl) rfl redParent rfl straight
      exact ⟨t₂, roundDone arrived settled, linked₂, first.trans (writes₂.widen grown)⟩
  | @double p g above redParent bent =>
      have sprout : new.sprout = .fork g.side new .red .leaf .leaf := by cases g.side <;> rfl
      obtain ⟨t₂, settled, linked₂, writes₂⟩ :=
        settleDouble linked₁ parent grand great (lastSide p g above rfl) rfl redParent rfl bent sprout
      exact ⟨t₂, roundDone arrived settled, linked₂, first.trans (writes₂.widen grown)⟩

end

theorem loopPasses {policy : Policy K} {new : Cell K V} {rounds : Nat} {stage : Stage} {z : Place K V} {log : List Event}
    {s : Shape K V} (passes : Passes (policy new.key) new rounds stage z log s) {w : Window σ} (shows : Shows w z)
    (knows : Knows w z stage) (read : Storage.get? w.tree.store new.id = some (.fresh new.key new.value))
    (out : new.id ∉ z.shape.ids) (inside : z.path = [] → z.focus ≠ .leaf) {limit : Nat} (enough : rounds ≤ limit) :
    ∃ t, Traced.loop (Window.round policy new.id) limit w = ⟨log, .ok t⟩ ∧ Linked t s ∧
      Rewrites (new.id :: z.shape.ids) w.tree.store t.store := by
  induction passes generalizing w limit with
  | @ends z log s last =>
      obtain ⟨limit, rfl⟩ := Nat.exists_eq_add_of_le' enough
      have inside : z.path ≠ [] := fun top => inside top last.leaf
      obtain ⟨t, round, linked, writes⟩ := roundEnds shows knows read out last inside rfl
      refine ⟨t, ?_, linked, writes⟩
      rw [Traced.loopDone limit (congrArg Traced.result round), round]
  | @step rounds stage stage' z z' log rest s first tail ih =>
      obtain ⟨limit, rfl⟩ : ∃ below, limit = below + 1 := ⟨limit - 1, by omega⟩
      obtain ⟨w', round, shows', knows', writes⟩ := roundStep shows knows read out first
      have same : z'.shape.ids = z.shape.ids := Shape.idsOfCells first.cells
      have inside' : z'.path = [] → z'.focus ≠ .leaf := by cases first <;> simp
      obtain ⟨t, run, linked, writes'⟩ := ih shows' knows' ((writes.elsewhere out).trans read) (same ▸ out) inside'
        (Nat.le_of_succ_le_succ enough)
      refine ⟨t, ?_, linked, ?_⟩
      · rw [Traced.loopAgain limit (congrArg Traced.result round), round, run]
      · exact (writes.widen fun id => List.mem_cons_of_mem _).trans (same ▸ writes')

end Tree.Window

end RedBlack
