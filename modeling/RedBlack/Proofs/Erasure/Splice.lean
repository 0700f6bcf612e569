import RedBlack.Proofs.Diagnosis
import RedBlack.Proofs.Erasure.Outcome

/-! What keeps an erasure from losing a black node. On the way down something red is always at hand, so that the node at
the bottom is red and has no child; taking it away leaves every way as black as it was. -/
namespace RedBlack.Tree
variable {σ K V : Type} [Storage σ K V]

namespace Descent
variable {d d' : Descent σ} {policy : Policy K} {key : K} {z : Place K V} {log : List Event}

open Erasure (Step Led)

/-- The node just left is red, or the one to be entered is, or the pass has left no more than the root. -/
def Lit (d : Descent σ) : Prop :=
  ∃ left, d.current = some left ∧
    (Storage.isRed d.tree.store (some left) = .ok true ∨
      (∃ next, d.tree.slot (some left) d.side = .ok next ∧ Storage.isRed d.tree.store next = .ok true) ∨
      d.tree.root = some left)

structure Stands (policy : Policy K) (key : K) (d : Descent σ) (z : Place K V) : Prop where
  shows : Shows policy key d z
  led : Led z
  noRedRed : z.shape.NoRedRed
  even : ∃ h, z.shape.BlackHeight h

theorem Stands.again (stands : Stands policy key d z) (run : d.round policy key = ⟨log, .ok (.again d')⟩) :
    ∃ z', Stands policy key d' z' ∧ z'.path ≠ [] := by
  obtain ⟨shows, led, noRedRed, h, even⟩ := stands
  obtain ⟨path, focus⟩ := z
  obtain rfl | ⟨side, c, color, near, far, turn, rfl⟩ := focus.turnCases (policy key)
  · cases run.symm.trans (roundEnds shows)
  · obtain ⟨log', z', step, -⟩ := Erasure.progress path turn color near far
    obtain ⟨d'', run', shows', -⟩ := roundStep shows step
    cases run.symm.trans run'
    exact ⟨z', ⟨shows', step.led even, step.noRedRed led noRedRed, step.blackHeight led noRedRed even⟩, step.inside⟩

theorem Stands.lit (stands : Stands policy key d z) (inside : z.path ≠ []) : d.Lit := by
  obtain ⟨⟨linked, parent, current, side, -, -⟩, led, -⟩ := stands
  obtain ⟨path, focus⟩ := z
  cases path with
  | nil => exact absurd rfl inside
  | cons f above =>
      have slot := linked.leads.slot
      have isRed := linked.focus.isRed
      obtain ⟨read, -, up⟩ := linked.leads
      refine ⟨f.cell.id, current, ?_⟩
      rcases led with red | red | ⟨rfl, -⟩
      · exact .inl (by simp [Storage.isRed, Storage.nodeOk read, Except.map, Frame.node, red])
      · exact .inr (.inl ⟨_, side ▸ slot, by rw [isRed, red]; rfl⟩)
      · exact .inr (.inr up)

theorem Stands.along {rounds : List (Descent σ × List Event)} (stands : Stands policy key d z)
    (course : Traced.Course (Descent.round policy key) d rounds d') : ∀ r ∈ rounds.tail, r.1.Lit := by
  cases course with
  | last run => simp
  | next run rest =>
      obtain ⟨z₁, stands₁, inside⟩ := stands.again run
      intro r member
      obtain ⟨front, behind, split⟩ := List.append_of_mem member
      obtain ⟨⟨z, here, inside⟩, -⟩ := rest.reaches (fun d => ∃ z, Stands policy key d z ∧ z.path ≠ [])
        ⟨z₁, stands₁, inside⟩ (fun _ _ _ holds run => holds.choose_spec.1.again run) split
      exact here.lit inside

/-- What unlinking the node at the bottom comes to. The orphan is absent both times, and but for the last node of a tree
the node is red: every way is as black after the splice as before it. -/
structure Splices (s : Shape K V) (d : Descent σ) (leaf : NodeId) (t' : Tree σ) : Prop where
  current : d.current = some leaf
  childless : ∃ n, Storage.get? d.tree.store leaf = some n ∧ n.left = none ∧ n.right = none ∧
    (n.color = .red ∨ s.ids = [leaf])
  splice : ∃ target store side after store', d.found = some target ∧
    (if target = leaf then pure d.tree.store else Storage.swapEntries d.tree.store target leaf) = .ok store ∧
    Storage.child store leaf .left = .ok none ∧ Storage.child store leaf .right = .ok none ∧
    ({ d.tree with store } : Tree σ).sideOf d.parent leaf = .ok side ∧
    ({ d.tree with store } : Tree σ).setSlot d.parent side none = .ok after ∧
    Storage.modify after.store leaf Node.reset = .ok store' ∧
    ({ after with store := store' } : Tree σ).paintRoot .black = .ok t' ∧
    ((Storage.isRed store (some leaf) = .ok true ∧ ∃ h, EvenBelow store d.tree.root h ∧ EvenBelow after.store after.root h) ∨
      (s.ids = [leaf] ∧ after.root = none))
  unlinked : d.unlink = .ok (leaf, t')

end Descent

variable {t : Tree σ} {s : Shape K V} {policy : Policy K} {key : K} {f g : Frame K V} {rest : Path K V}

theorem bottomNode (linked : Linked t (Path.fill (f :: rest) .leaf)) (far : f.far = .leaf) :
    ∃ n, Storage.get? t.store f.cell.id = some n ∧ n.color = f.color ∧ n.left = none ∧ n.right = none := by
  obtain ⟨read, -, -⟩ := linked.leads
  refine ⟨_, read, by simp [Frame.node], ?_⟩
  cases side : f.side <;> simp [Frame.node, Cell.node, side, far, Shape.link]

theorem Descent.splices {d : Descent σ} {h : Nat} (shows : Descent.Shows policy key d ⟨f :: rest, .leaf⟩)
    (member : g ∈ f :: rest) (found : d.found = some g.cell.id) (led : Erasure.Led ⟨f :: rest, .leaf⟩)
    (noRedRed : (Path.fill (f :: rest) .leaf).NoRedRed) (even : (Path.fill (f :: rest) .leaf).BlackHeight h)
    (names : s.ids = (Path.fill (f :: rest) .leaf).ids) : ∃ t', Descent.Splices s d f.cell.id t' := by
  have linked : Linked d.tree (Path.fill (f :: rest) .leaf) := shows.linked
  have parent : d.parent = rest.owner := shows.parent
  obtain ⟨far, red⟩ := Erasure.bottomLeaf led noRedRed even
  have lone : rest = [] → s.ids = [f.cell.id] := by
    rintro rfl
    rw [names]
    cases side : f.side <;> simp [Frame.fill, far, Shape.fork, Shape.ids, side]
  obtain ⟨n, read, color, childless⟩ := bottomNode linked far
  obtain ⟨store, f', rest', swapped, exchanged⟩ := exchangeOk linked member
  obtain ⟨linked₁, cell, color₁, link, owner, side, left, even₁, -, -⟩ := exchanged
  have far₁ : f'.far = .leaf := Shape.linkEqNone.mp (link.trans (far ▸ rfl))
  obtain ⟨n₁, read₁, colorNode₁, absentLeft, absentRight⟩ := bottomNode linked₁ far₁
  obtain ⟨onSide, -⟩ := bottomReads linked₁
  obtain ⟨after, store', t', set, linkedAfter, reset, painted, -⟩ := spliceOk linked₁
  simp only [cell, owner, side, ← parent, link, far] at onSide set read₁ reset
  have readLeft : Storage.child store f.cell.id .left = .ok none :=
    (Storage.childRead read₁ .left).trans (congrArg Except.ok absentLeft)
  have readRight : Storage.child store f.cell.id .right = .ok none :=
    (Storage.childRead read₁ .right).trans (congrArg Except.ok absentRight)
  refine ⟨t', shows.current, ⟨n, read, childless.1, childless.2, ?_⟩, ⟨g.cell.id, store, rest.side, after, store', found, swapped,
    readLeft, readRight, onSide, set, reset, painted, ?_⟩,
    unlinkRuns shows.current found swapped onSide readLeft readRight rfl set reset painted⟩
  · exact red.imp color.trans lone
  · rcases red with red | top
    · refine .inl ⟨?_, h, evenBelow linked₁.spells ((even₁ h).mpr even), evenBelow linkedAfter.spells ?_⟩
      · simp [Storage.isRed, Storage.nodeOk read₁, Except.map, Node.isRed, colorNode₁, color₁, red]
      · rw [left]
        exact Shape.blackHeightGive.mpr (Erasure.spliceHeight led noRedRed even red)
    · refine .inr ⟨lone top, ?_⟩
      rw [linkedAfter.spells.linkEq, left, top, Shape.linkGive, far]
      rfl

theorem everyDescentLit (policy : Policy K) (key : K) (linked : Linked t s) (balanced : s.Balanced) {holder : NodeId}
    (searched : t.search policy key = .ok (some holder)) :
    ∃ rounds d leaf t', Traced.Course (Descent.round policy key) (.start t) rounds d ∧ (∀ r ∈ rounds.tail, r.1.Lit) ∧
      Descent.Splices s d leaf t' ∧ erase policy t key = ⟨Traced.record rounds, .ok (.ok leaf, t')⟩ := by
  have found : s.find? (policy key) = some holder := Except.ok.inj ((linked.search policy key).symm.trans searched)
  have held : s.find? (policy key) ≠ none := by simp [found]
  obtain ⟨h, even⟩ := balanced.even
  obtain ⟨log, bottom, passes⟩ := Erasure.passes (policy key) [] s
  obtain ⟨f, rest, g, d, rfl, member, -, run, shows, seen, -, answers⟩ := eraseLoop linked held passes
  obtain ⟨led, noRedRed, h', even'⟩ := passes.balance trivial balanced.noRedRed even
  obtain ⟨t', splices⟩ := Descent.splices shows member seen led noRedRed even' (Shape.idsOfCells passes.cellsRoot).symm
  obtain ⟨rounds, course, short⟩ := Traced.loopCourse (congrArg Traced.result run)
  obtain rfl : log = Traced.record rounds := congrArg Traced.log (run.symm.trans (course.loop short))
  have stands : Descent.Stands policy key (.start t) ⟨[], s⟩ :=
    ⟨Descent.startShows linked held, trivial, balanced.noRedRed, h, even⟩
  exact ⟨rounds, d, f.cell.id, t', course, stands.along course, splices, answers _ _ splices.unlinked⟩

def blackThree : Tree (Array (Node Nat Nat)) :=
  ⟨some ⟨0⟩, #[⟨.black, some ⟨1⟩, some ⟨2⟩, 20, 1⟩, ⟨.black, none, none, 10, 2⟩, ⟨.black, none, none, 30, 3⟩]⟩

def blackThreeShape : Shape Nat Nat :=
  .node ⟨0⟩ .black (.node ⟨1⟩ .black .leaf 10 2 .leaf) 20 1 (.node ⟨2⟩ .black .leaf 30 3 .leaf)

theorem rootDescentLit :
    ∃ (rounds : List (Descent (Array (Node Nat Nat)) × List Event)) (d : Descent (Array (Node Nat Nat)))
      (t' : Tree (Array (Node Nat Nat))), Traced.Course (Descent.round .natural 20) (.start blackThree) rounds d ∧
      (∀ r ∈ rounds.tail, r.1.Lit) ∧ Descent.Splices blackThreeShape d ⟨2⟩ t' ∧ Traced.record rounds = [.eraseFlip ⟨0⟩] := by
  have linked : Linked blackThree blackThreeShape := by
    refine ⟨?_, by decide⟩
    repeat first | exact .leaf | refine Spells.nodeIff.mpr ⟨rfl, rfl, ?_, ?_⟩
  have balanced : blackThreeShape.Balanced :=
    ⟨rfl, by simp [blackThreeShape, Shape.NoRedRed], 2, by simp [blackThreeShape, Shape.BlackHeight]⟩
  obtain ⟨rounds, d, leaf, t', course, lit, splices, run⟩ :=
    everyDescentLit .natural 20 linked balanced (rfl : Tree.search .natural _ 20 = .ok (some ⟨0⟩))
  have answer : (erase .natural blackThree 20).result.map Prod.fst = .ok (.ok ⟨2⟩) := rfl
  rw [run] at answer
  obtain rfl : leaf = ⟨2⟩ := by simpa [Except.map] using answer
  exact ⟨rounds, d, t', course, lit, splices, (congrArg Traced.log run).symm.trans rfl⟩

end RedBlack.Tree
