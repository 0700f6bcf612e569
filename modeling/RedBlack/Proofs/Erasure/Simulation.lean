import RedBlack.Tree.Erasure
import RedBlack.Proofs.Rotation
import RedBlack.Proofs.Erasure.Rounds

/-! The rounds of an erasure in storage follow the steps between places, whatever the colors are. -/
namespace RedBlack.Tree.Descent
variable {σ K V : Type} [Storage σ K V] {d : Descent σ} {path above : Path K V} {p : Frame K V} {side : Side}
  {c e x : Cell K V} {color beside : Color} {near far inner outer a b : Shape K V}

open Storage (Rewrites)
open Erasure (Step Passes)

theorem liftOk
    (linked : Linked d.tree (path.fill (.fork side c color near (.fork side e beside inner outer))))
    (parent : d.parent = path.owner) (leaves : d.side = side) :
    ∃ t, d.lift path.side c.id = ⟨[.eraseLift c.id], .ok { d with tree := t, parent := some e.id }⟩ ∧
      Linked t (path.fill (.fork side e .black (.fork side c .red near inner) outer)) ∧
      Rewrites (path.fill (.fork side c color near (.fork side e beside inner outer))).ids d.tree.store t.store := by
  have same : (Shape.fork side e .black (.fork side c .red near inner) outer).ids =
      (Shape.fork side c color near (.fork side e beside inner outer)).ids := Shape.idsOfCells (Shape.cellsSingle ..)
  have focus := linked.focus
  rw [Shape.linkFork] at focus
  obtain ⟨store, rotated, spells, writes⟩ := singleOk focus (Path.nodupFocus linked.once)
  obtain ⟨t, set, linked', writes'⟩ := linked.relink writes (by simp) (by simpa using spells)
    (linked.onceOf (.of_eq same))
  refine ⟨t, ?_, linked', writes'⟩
  rw [Shape.linkFork] at set
  simp [lift, leaves, rotated, parent, set, Traced.pureEq]

section
variable (linked : Linked d.tree (Path.fill (p :: above) (.fork side c color near far)))
include linked

theorem recolorOk (sibling : p.far = .fork p.side e beside inner outer) :
    ∃ t, d.recolor p.cell.id e.id c.id = ⟨[.eraseFlip p.cell.id], .ok { d with tree := t }⟩ ∧
      Linked t (above.fill (.fork p.side p.cell .black (.fork side c .red near far) (.fork p.side e .red inner outer))) ∧
      Rewrites (Path.fill (p :: above) (.fork side c color near far)).ids d.tree.store t.store := by
  have atParent : Linked d.tree (above.fill (.fork p.side p.cell p.color (.fork side c color near far)
      (.fork p.side e beside inner outer))) := by
    rw [← sibling]
    exact linked
  obtain ⟨store₁, first, linked₁, writes₁⟩ := atParent.paint .black
  rw [← Shape.forkOpposite p.side] at linked₁
  have atSibling : Linked ({ d.tree with store := store₁ } : Tree σ)
      (Path.fill (⟨p.cell, .black, p.side.opposite, .fork side c color near far⟩ :: above)
        (.fork p.side e beside inner outer)) := linked₁
  obtain ⟨store₂, second, linked₂, writes₂⟩ := atSibling.paint .red
  rw [Path.fillCons, Frame.fill, Shape.forkOpposite] at linked₂
  have atCurrent : Linked ({ d.tree with store := store₂ } : Tree σ)
      (Path.fill (⟨p.cell, .black, p.side, .fork p.side e .red inner outer⟩ :: above) (.fork side c color near far)) :=
    linked₂
  obtain ⟨store₃, third, linked₃, writes₃⟩ := atCurrent.paint .red
  refine ⟨{ d.tree with store := store₃ }, ?_, linked₃, ?_⟩
  · simp only [recolor, Traced.noteBind, Traced.liftMEqLift, first, second, third, Traced.liftOkBind, Traced.pureEq]
  · have members : ∀ id ∈ [p.cell.id, e.id, c.id], id ∈ (Path.fill (p :: above) (.fork side c color near far)).ids := by
      simp [Path.memFill, Frame.fill, sibling]
    simp only [List.forall_mem_cons] at members
    obtain ⟨inParent, inSibling, inCurrent, -⟩ := members
    exact (writes₁.widen (by simpa using inParent)).trans
      ((writes₂.widen (by simpa using inSibling)).trans (writes₃.widen (by simpa using inCurrent)))

end

omit d in
theorem paintFlipOk {t : Tree σ} {turn : Side} {q y : Cell K V} {colorTop colorBelow : Color}
    (linked : Linked t (above.fill (.fork turn y colorTop (.fork turn q colorBelow (.fork side c color near far) inner) outer))) :
    ∃ store₁ store₂, Storage.paint t.store c.id .red = .ok store₁ ∧ flip store₁ y.id = .ok store₂ ∧
      Linked ({ t with store := store₂ } : Tree σ)
        (above.fill (.fork turn y .red (.fork turn q .black (.fork side c .red near far) inner) outer.blacken)) ∧
      Rewrites (above.fill (.fork turn y colorTop (.fork turn q colorBelow (.fork side c color near far) inner) outer)).ids
        t.store store₂ := by
  have atCurrent : Linked t (Path.fill (⟨q, colorBelow, turn, inner⟩ :: ⟨y, colorTop, turn, outer⟩ :: above)
      (.fork side c color near far)) := linked
  obtain ⟨store₁, painted, linked₁, writes₁⟩ := atCurrent.paint .red
  have atTop : Linked ({ t with store := store₁ } : Tree σ)
      (above.fill (.fork turn y colorTop (.fork turn q colorBelow (.fork side c .red near far) inner) outer)) := linked₁
  obtain ⟨store₂, flipped, spells, writes₂⟩ := flipOk (by simpa using atTop.focus) (Path.nodupFocus atTop.once)
  have linked₂ := atTop.rewrite writes₂ (by simpa using spells) (by simp) (atTop.onceOf (Shape.idsRecolor ..))
  rw [Shape.blackenFork] at linked₂
  refine ⟨store₁, store₂, painted, flipped, linked₂, ?_⟩
  refine (writes₁.widen ?_).trans (writes₂.widen ?_)
  · simp [Path.memFill]
  · intro id member
    refine Path.memFill.mpr (.inl ?_)
    simpa using member

theorem turnedOk {t : Tree σ} {s : Shape K V} {store : σ} {turn : Side} {q y : Cell K V} {names : List NodeId}
    (linked : Linked t (above.fill s)) (writes : Rewrites names t.store store) (inside : ∀ id ∈ names, id ∈ s.ids)
    (spells : Spells store (some y.id) (.fork turn y .black (.fork turn q .red (.fork side c color near far) inner) outer))
    (same : (Shape.fork turn y .black (.fork turn q .red (.fork side c color near far) inner) outer).ids = s.ids) :
    ∃ t₁ store₁ store₂, ({ t with store } : Tree σ).setSlot above.owner above.side (some y.id) = .ok t₁ ∧
      Storage.paint t₁.store c.id .red = .ok store₁ ∧ flip store₁ y.id = .ok store₂ ∧
      Linked ({ t₁ with store := store₂ } : Tree σ)
        (above.fill (.fork turn y .red (.fork turn q .black (.fork side c .red near far) inner) outer.blacken)) ∧
      Rewrites (above.fill s).ids t.store store₂ := by
  obtain ⟨t₁, set, linked₁, writes₁⟩ := linked.relink writes inside (by simpa using spells) (linked.onceOf (.of_eq same))
  rw [Shape.linkFork] at set
  obtain ⟨store₁, store₂, painted, flipped, linked₂, writes₂⟩ := paintFlipOk linked₁
  have ids := Path.namesOfPerm above (.of_eq same)
  exact ⟨t₁, store₁, store₂, set, painted, flipped, linked₂, writes₁.trans (writes₂.widen fun id => ids.mem_iff.mp)⟩

section
variable (linked : Linked d.tree (Path.fill (p :: above) (.fork side c color near far)))
include linked

theorem grandSide : d.tree.sideOf above.owner p.cell.id = .ok above.side := by
  have whole : Linked d.tree (above.fill (p.fill (.fork side c color near far))) := linked
  have up : Leads d.tree above (some p.cell.id) := by simpa [Frame.fill] using whole.leads
  exact up.sideOf (Path.apart whole.once (by simp [Frame.fill]))

theorem borrowSingleOk (sibling : p.far = .fork p.side e beside inner outer) (black : inner.color = .black) :
    ∃ t, d.borrowRed above.owner p.side p.cell.id e.id c.id = ⟨[.eraseSingle p.cell.id], .ok { d with tree := t }⟩ ∧
      Linked t (above.fill (.fork p.side e .red (.fork p.side p.cell .black (.fork side c .red near far) inner)
        outer.blacken)) ∧
      Rewrites (Path.fill (p :: above) (.fork side c color near far)).ids d.tree.store t.store := by
  have onSide := grandSide linked
  have whole : Linked d.tree (above.fill (.fork p.side p.cell p.color (.fork side c color near far)
      (.fork p.side e beside inner outer))) := by
    rw [← sibling]
    exact linked
  have focus := whole.focus
  rw [Shape.linkFork] at focus
  obtain ⟨-, -, -, spellsSibling⟩ := Spells.forkIff.mp focus
  obtain ⟨-, readSibling, spellsInner, -⟩ := Spells.forkIff.mp spellsSibling
  have nephew := Storage.childRead readSibling p.side
  have notRed := spellsInner.isRed
  rw [black] at notRed
  obtain ⟨store, rotated, spells, writes⟩ := singleOk focus (Path.nodupFocus whole.once)
  have same : (Shape.fork p.side e .black (.fork p.side p.cell .red (.fork side c color near far) inner) outer).ids =
      (Shape.fork p.side p.cell p.color (.fork side c color near far) (.fork p.side e beside inner outer)).ids :=
    Shape.idsOfCells (Shape.cellsSingle ..)
  obtain ⟨t₁, store₁, store₂, set, painted, flipped, linked₁, writes₁⟩ := turnedOk whole writes (by simp) spells same
  rw [← sibling] at writes₁
  refine ⟨{ t₁ with store := store₂ }, ?_, linked₁, writes₁⟩
  simp [borrowRed, onSide, nephew, notRed, rotated, set, painted, flipped, Traced.pureEq]

theorem borrowDoubleOk (sibling : p.far = .fork p.side e beside (.fork p.side x .red a b) outer) :
    ∃ t, d.borrowRed above.owner p.side p.cell.id e.id c.id = ⟨[.eraseDouble p.cell.id], .ok { d with tree := t }⟩ ∧
      Linked t (above.fill (.fork p.side x .red (.fork p.side p.cell .black (.fork side c .red near far) a)
        (.fork p.side e .black b outer))) ∧
      Rewrites (Path.fill (p :: above) (.fork side c color near far)).ids d.tree.store t.store := by
  have onSide := grandSide linked
  have whole : Linked d.tree (above.fill (.fork p.side p.cell p.color (.fork side c color near far)
      (.fork p.side e beside (.fork p.side x .red a b) outer))) := by
    rw [← sibling]
    exact linked
  have focus := whole.focus
  rw [Shape.linkFork] at focus
  obtain ⟨-, -, -, spellsSibling⟩ := Spells.forkIff.mp focus
  obtain ⟨-, readSibling, spellsInner, -⟩ := Spells.forkIff.mp spellsSibling
  have nephew := Storage.childRead readSibling p.side
  have isRed := spellsInner.isRed
  rw [Shape.linkFork, Shape.colorFork] at isRed
  obtain ⟨store, rotated, spells, writes⟩ := doubleOk focus (Path.nodupFocus whole.once)
  have same : (Shape.fork p.side x .black (.fork p.side p.cell .red (.fork side c color near far) a)
        (.fork p.side e .red b outer)).ids =
      (Shape.fork p.side p.cell p.color (.fork side c color near far)
        (.fork p.side e beside (.fork p.side x .red a b) outer)).ids :=
    Shape.idsOfCells (Shape.cellsDouble ..)
  obtain ⟨t₁, store₁, store₂, set, painted, flipped, linked₁, writes₁⟩ := turnedOk whole writes (by simp) spells same
  rw [Shape.blackenFork] at linked₁
  rw [← sibling] at writes₁
  refine ⟨{ t₁ with store := store₂ }, ?_, linked₁, writes₁⟩
  simp [borrowRed, onSide, nephew, isRed, rotated, set, painted, flipped, Traced.pureEq]

end

section
variable {z z' : Place K V} {log : List Event} {policy : Policy K} {key : K}

structure Shows (policy : Policy K) (key : K) (d : Descent σ) (z : Place K V) : Prop where
  linked : Linked d.tree z.shape
  parent : d.parent = Path.owner z.path.tail
  current : d.current = z.path.owner
  side : d.side = z.path.side
  found : ∀ id, d.found = some id → ∃ f ∈ z.path, f.cell.id = id ∧ policy key f.cell.key = .eq
  missed : d.found = none → z.focus.find? (policy key) ≠ none

theorem startShows {t : Tree σ} {s : Shape K V} (linked : Linked t s) (held : s.find? (policy key) ≠ none) :
    Shows policy key (start t) ⟨[], s⟩ where
  linked := linked
  parent := rfl
  current := rfl
  side := rfl
  found := by simp [start]
  missed := fun _ => held

def enter (d : Descent σ) (policy : Policy K) (key : K) (c : Cell K V) : Descent σ :=
  ⟨d.tree, d.current, some c.id, if policy key c.key = .eq then some c.id else d.found,
    .toward (policy key c.key)⟩

omit [Storage σ K V] in
theorem foundStep (step : Step (policy key) z log z') (onTop : ∃ f above, z'.path = f :: above ∧ f.cell = c)
    (found : ∀ id, d.found = some id → ∃ f ∈ z.path, f.cell.id = id ∧ policy key f.cell.key = .eq) :
    ∀ id, (d.enter policy key c).found = some id → ∃ f ∈ z'.path, f.cell.id = id ∧ policy key f.cell.key = .eq := by
  intro id here
  simp only [enter] at here
  split at here
  · obtain ⟨f, above, path, rfl⟩ := onTop
    cases here
    exact ⟨f, by simp [path], rfl, by assumption⟩
  · obtain ⟨f, member, rfl, equal⟩ := found id here
    obtain ⟨f', member', same⟩ := step.frames member
    exact ⟨f', member', by rw [same], by rw [same, equal]⟩

omit [Storage σ K V] in
theorem missedStep (turn : Side.toward (policy key c.key) = side)
    (missed : d.found = none → (Shape.fork side c color near far).find? (policy key) ≠ none) :
    (d.enter policy key c).found = none → near.find? (policy key) ≠ none := by
  intro none
  simp only [enter] at none
  split at none
  · cases none
  · rename_i other
    simpa [Shape.findFork turn, other] using missed none

theorem roundEq (shows : Shows policy key d ⟨path, .fork side c color near far⟩)
    (turn : Side.toward (policy key c.key) = side) :
    d.round policy key =
      if color = .red ∨ near.color = .red then ⟨[], .ok (.again (d.enter policy key c))⟩
      else if far.color = .red then
        (d.enter policy key c).lift path.side c.id >>= fun next => ⟨[], .ok (.again next)⟩
      else
        (d.enter policy key c).pushDown (Path.owner path.tail) path.side c.id >>= fun next => ⟨[], .ok (.again next)⟩ := by
  obtain ⟨linked, parent, current, leaves, -, -⟩ := shows
  have slot := linked.leads.slot
  obtain ⟨-, read, spellsNear, spellsFar⟩ := Spells.forkIff.mp linked.focus
  have redNear := spellsNear.isRed
  have redFar := spellsFar.isRed
  simp only at parent current leaves
  rw [← current, ← leaves, Shape.linkFork] at slot
  subst turn
  by_cases red : color = .red
  · simp_all [round, Storage.nodeOk read, enter, Traced.pureEq]
  by_cases redBelow : near.color = .red
  · simp_all [round, Storage.nodeOk read, enter, Traced.pureEq]
  by_cases redBeside : far.color = .red <;> simp_all [round, Storage.nodeOk read, enter, Traced.pureEq]

theorem pushDownAlone (linked : Linked d.tree (path.fill (.fork side c color near far))) (parent : d.parent = path.owner)
    (alone : path.beside = .leaf) (grand : Option NodeId) (current : NodeId) :
    d.pushDown grand path.side current = ⟨[], .ok d⟩ := by
  cases path with
  | nil => simp [pushDown, parent, slot, Side.opposite, Traced.pureEq]
  | cons p above =>
      obtain ⟨read, -, -⟩ := linked.leads
      have alone : p.far = .leaf := alone
      have absent : Storage.child d.tree.store p.cell.id p.side.opposite = .ok none := by
        rw [Storage.childRead read, Frame.node, Cell.childFar, alone]
        rfl
      simp [pushDown, parent, slot, absent, Traced.pureEq]

theorem pushDownBeside (linked : Linked d.tree (Path.fill (p :: above) (.fork side c color near far)))
    (parent : d.parent = some p.cell.id) (sibling : p.far = .fork p.side e beside inner outer) (grand : Option NodeId)
    (current : NodeId) :
    d.pushDown grand p.side current =
      if inner.color = .red ∨ outer.color = .red then d.borrowRed grand p.side p.cell.id e.id current
      else d.recolor p.cell.id e.id current := by
  obtain ⟨read, spells, -⟩ := linked.leads
  have present : Storage.child d.tree.store p.cell.id p.side.opposite = .ok (some e.id) := by
    rw [Storage.childRead read, Frame.node, Cell.childFar, sibling, Shape.linkFork]
  rw [sibling] at spells
  obtain ⟨-, readSibling, spellsInner, spellsOuter⟩ := Spells.forkIff.mp spells
  have redInner := spellsInner.isRed
  have redOuter := spellsOuter.isRed
  by_cases red : inner.color = .red <;> by_cases red' : outer.color = .red <;>
    simp_all [pushDown, slot, require, Storage.childRead readSibling]

theorem roundStep (shows : Shows policy key d z) (step : Step (policy key) z log z') :
    ∃ d', d.round policy key = ⟨log, .ok (.again d')⟩ ∧ Shows policy key d' z' ∧
      Rewrites z.shape.ids d.tree.store d'.tree.store := by
  have found := fun c onTop => foundStep (c := c) step onTop shows.found
  cases step with
  | walk turn red =>
      refine ⟨_, (roundEq shows turn).trans (if_pos red), ?_, .none⟩
      exact ⟨shows.linked, shows.current, rfl, turn, found _ ⟨_, _, rfl, rfl⟩, missedStep turn shows.missed⟩
  | @lift path side c e near inner outer turn black =>
      obtain ⟨t, lifted, linked, writes⟩ := liftOk (d := d.enter policy key c) shows.linked shows.current turn
      refine ⟨{ d.enter policy key c with tree := t, parent := some e.id }, ?_, ?_, writes⟩
      · simp [roundEq shows turn, black, lifted]
      · exact ⟨linked, rfl, rfl, turn, found _ ⟨_, _, rfl, rfl⟩, missedStep turn shows.missed⟩
  | @alone path side c near far turn black beside =>
      have rest := pushDownAlone (d := d.enter policy key c) shows.linked shows.current beside (Path.owner path.tail) c.id
      refine ⟨d.enter policy key c, ?_, ?_, .none⟩
      · simp [roundEq shows turn, black, rest]
      · exact ⟨shows.linked, shows.current, rfl, turn, found _ ⟨_, _, rfl, rfl⟩, missedStep turn shows.missed⟩
  | @recolor p above side c e color near far inner outer turn black beside nephews =>
      have push := pushDownBeside (d := d.enter policy key c) shows.linked shows.current beside above.owner c.id
      obtain ⟨t, recolored, linked, writes⟩ := recolorOk (d := d.enter policy key c) shows.linked beside
      refine ⟨{ d.enter policy key c with tree := t }, ?_, ?_, writes⟩
      · simp [roundEq shows turn, black, push, nephews, recolored]
      · exact ⟨linked, shows.current, rfl, turn, found _ ⟨_, _, rfl, rfl⟩, missedStep turn shows.missed⟩
  | @single p above side c e color near far inner outer turn black beside nephews =>
      have push := pushDownBeside (d := d.enter policy key c) shows.linked shows.current beside above.owner c.id
      obtain ⟨t, borrowed, linked, writes⟩ := borrowSingleOk (d := d.enter policy key c) shows.linked beside nephews.1
      refine ⟨{ d.enter policy key c with tree := t }, ?_, ?_, writes⟩
      · simp [roundEq shows turn, black, push, nephews, borrowed]
      · exact ⟨linked, shows.current, rfl, turn, found _ ⟨_, _, rfl, rfl⟩, missedStep turn shows.missed⟩
  | @double p above side c e x color near far a b outer turn black beside =>
      have push := pushDownBeside (d := d.enter policy key c) shows.linked shows.current beside above.owner c.id
      obtain ⟨t, borrowed, linked, writes⟩ := borrowDoubleOk (d := d.enter policy key c) shows.linked beside
      refine ⟨{ d.enter policy key c with tree := t }, ?_, ?_, writes⟩
      · simp [roundEq shows turn, black, push, borrowed]
      · exact ⟨linked, shows.current, rfl, turn, found _ ⟨_, _, rfl, rfl⟩, missedStep turn shows.missed⟩

theorem roundEnds (shows : Shows policy key d ⟨path, .leaf⟩) : d.round policy key = ⟨[], .ok (.done d)⟩ := by
  have slot := shows.linked.leads.slot
  simp only at slot
  simp [round, shows.current, shows.side, slot, Shape.link, Traced.pureEq]

theorem loopPasses {rounds : Nat} {bottom : Path K V} (passes : Passes (policy key) rounds z log bottom)
    (shows : Shows policy key d z) {limit : Nat} (enough : rounds ≤ limit) :
    ∃ d', Traced.loop (Descent.round policy key) limit d = ⟨log, .ok d'⟩ ∧ Shows policy key d' ⟨bottom, .leaf⟩ ∧
      Rewrites z.shape.ids d.tree.store d'.tree.store := by
  induction passes generalizing d limit with
  | @ends path =>
      obtain ⟨limit, rfl⟩ := Nat.exists_eq_add_of_le' enough
      have round := roundEnds shows
      refine ⟨d, ?_, shows, .none⟩
      rw [Traced.loopDone limit (congrArg Traced.result round), round]
  | @step rounds z z' log rest path first tail ih =>
      obtain ⟨limit, rfl⟩ : ∃ below, limit = below + 1 := ⟨limit - 1, by omega⟩
      obtain ⟨next, round, shows', writes⟩ := roundStep shows first
      have same : z'.shape.ids = z.shape.ids := Shape.idsOfCells first.cells
      obtain ⟨d', run, shows'', writes'⟩ := ih shows' (Nat.le_of_succ_le_succ enough)
      refine ⟨d', ?_, shows'', writes.trans (same ▸ writes')⟩
      rw [Traced.loopAgain limit (congrArg Traced.result round), round, run]

end

end RedBlack.Tree.Descent
