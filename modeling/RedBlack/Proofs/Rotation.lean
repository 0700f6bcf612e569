import RedBlack.Tree.Rotation
import RedBlack.Proofs.Linked

/-! What flips and rotations do to the shape below the node they are called on, and what a rotation does to the
storage around it. -/
namespace RedBlack.Tree
variable {σ K V : Type} [Storage σ K V] {store : σ}

open Storage (Rewrites)

theorem blackenOk {link : Option NodeId} {s : Shape K V} (h : Spells store link s) (once : s.ids.Nodup) :
    ∃ store', flip.blacken store link = .ok store' ∧ Spells store' link s.blacken ∧ Rewrites s.ids store store' := by
  cases h with
  | leaf => exact ⟨store, rfl, .leaf, .none⟩
  | @node id n left right read spellsLeft spellsRight =>
      have ids : id ∉ left.ids ∧ id ∉ right.ids := ((Shape.onceFork .left ⟨id, n.key, n.value⟩ n.color left right).mp once).1
      refine ⟨_, Storage.paintWrite read .black, ?_, .one (by simp [Shape.ids]) _⟩
      exact .node (Storage.getPutSame read (n.paint .black)) (spellsLeft.keepPut ids.1 _) (spellsRight.keepPut ids.2 _)

theorem flipNode {id : NodeId} {color : Color} {left right : Shape K V} {key : K} {value : V}
    (h : Spells store (some id) (.node id color left key value right))
    (once : (Shape.node id color left key value right).ids.Nodup) :
    ∃ store', flip store id = .ok store' ∧
      Spells store' (some id) (.node id .red left.blacken key value right.blacken) ∧
      Rewrites (Shape.node id color left key value right).ids store store' := by
  obtain ⟨-, read, spellsLeft, spellsRight⟩ := Spells.nodeIff.mp h
  obtain ⟨⟨outLeft, outRight⟩, onceLeft, onceRight, apart⟩ := (Shape.onceFork .left ⟨id, key, value⟩ color left right).mp once
  have top := Storage.getPutSame read ⟨.red, left.link, right.link, key, value⟩
  obtain ⟨store₁, first, spellsLeft₁, writes₁⟩ := blackenOk (spellsLeft.keepPut outLeft _) onceLeft
  have top₁ := (writes₁.elsewhere outLeft).trans top
  have spellsRight₁ := (spellsRight.keepPut outRight _).keep writes₁ fun id here there => apart id there here
  obtain ⟨store₂, second, spellsRight₂, writes₂⟩ := blackenOk spellsRight₁ onceRight
  have top₂ := (writes₂.elsewhere outRight).trans top₁
  refine ⟨store₂, ?_, ?_, ?_⟩
  · simp [flip, Storage.paintWrite read, Node.paint, Storage.childRead top, Storage.childRead top₁, Node.child, first,
      second, bind, Except.bind]
  · exact Spells.nodeIff.mpr ⟨rfl, by simpa using top₂, by simpa using spellsLeft₁.keep writes₂ (by simpa using apart),
      by simpa using spellsRight₂⟩
  · exact (Rewrites.one (by simp [Shape.ids]) _).trans
      ((writes₁.widen fun id member => by simp [Shape.ids, member]).trans
        (writes₂.widen fun id member => by simp [Shape.ids, member]))

theorem flipOk {side : Side} {c : Cell K V} {color : Color} {near far : Shape K V}
    (h : Spells store (some c.id) (.fork side c color near far)) (once : (Shape.fork side c color near far).ids.Nodup) :
    ∃ store', flip store c.id = .ok store' ∧ Spells store' (some c.id) (.fork side c .red near.blacken far.blacken) ∧
      Rewrites (Shape.fork side c color near far).ids store store' := by
  cases side <;> exact flipNode h once

theorem singleOk {side : Side} {c p : Cell K V} {color color' : Color} {near inner outer : Shape K V}
    (h : Spells store (some c.id) (.fork side c color near (.fork side p color' inner outer)))
    (once : (Shape.fork side c color near (.fork side p color' inner outer)).ids.Nodup) :
    ∃ store', single store c.id side = .ok (p.id, store') ∧
      Spells store' (some p.id) (.fork side p .black (.fork side c .red near inner) outer) ∧
      Rewrites [c.id, p.id] store store' := by
  obtain ⟨-, readTop, spellsNear, spellsPivot⟩ := Spells.forkIff.mp h
  obtain ⟨-, readPivot, spellsInner, spellsOuter⟩ := Spells.forkIff.mp spellsPivot
  simp only [Shape.onceFork, Shape.memIdsFork, not_or] at once
  obtain ⟨⟨outNear, apart, outInner, outOuter⟩, -, ⟨⟨pivotInner, pivotOuter⟩, -⟩, nearApart⟩ := once
  have pivotNear : p.id ∉ near.ids := fun member => (nearApart _ member).1 rfl
  have readPivot' : Storage.get? (Storage.put store c.id (c.node .red side near.link inner.link)) p.id =
      some (p.node color' side inner.link outer.link) := by
    rw [Storage.getPutElsewhere _ _ (Ne.symm apart), readPivot]
  refine ⟨Storage.put (Storage.put store c.id (c.node .red side near.link inner.link)) p.id
    (p.node .black side (some c.id) outer.link), ?_, ?_, ?_⟩
  · simp [single, Storage.childRead readTop, Storage.childRead readPivot, require, Storage.modifyOk readTop,
      Storage.modifyOk readPivot', bind, Except.bind, pure, Except.pure]
  · refine Spells.forkIff.mpr ⟨rfl, ?_, Spells.forkIff.mpr ⟨by simp, ?_, ?_, ?_⟩, ?_⟩
    · simpa using Storage.getPutSame readPivot' _
    · rw [Storage.getPutElsewhere _ _ apart]
      exact Storage.getPutSame readTop _
    · exact (spellsNear.keepPut outNear _).keepPut pivotNear _
    · exact (spellsInner.keepPut outInner _).keepPut pivotInner _
    · exact (spellsOuter.keepPut outOuter _).keepPut pivotOuter _
  · exact .put _ _ (by simp) (.one (by simp) _)

theorem doubleOk {side : Side} {c p x : Cell K V} {color color' color'' : Color} {near a b outer : Shape K V}
    (h : Spells store (some c.id) (.fork side c color near (.fork side p color' (.fork side x color'' a b) outer)))
    (once : (Shape.fork side c color near (.fork side p color' (.fork side x color'' a b) outer)).ids.Nodup) :
    ∃ store', double store c.id side = .ok (x.id, store') ∧
      Spells store' (some x.id) (.fork side x .black (.fork side c .red near a) (.fork side p .red b outer)) ∧
      Rewrites [c.id, p.id, x.id] store store' := by
  obtain ⟨-, readTop, spellsNear, spellsPivot⟩ := Spells.forkIff.mp h
  obtain ⟨⟨outNear, outPivot⟩, onceNear, oncePivot, apart⟩ := (Shape.onceFork ..).mp once
  rw [Shape.linkFork, ← Shape.forkOpposite, ← Shape.forkOpposite side x] at spellsPivot
  have oncePivot' := oncePivot
  rw [← Shape.forkOpposite, ← Shape.forkOpposite side x] at oncePivot'
  obtain ⟨store₁, first, lifted, writes₁⟩ := singleOk spellsPivot oncePivot'
  rw [Shape.forkOpposite, Shape.forkOpposite] at lifted
  simp only [Shape.memIdsFork, not_or] at outPivot apart
  have topApart : c.id ∉ [p.id, x.id] := by simp [outPivot]
  have readTop₁ := (writes₁.elsewhere topApart).trans readTop
  have nearApart : ∀ id ∈ near.ids, id ∉ [p.id, x.id] := by
    intro id member
    simp [apart id member]
  have liftedOut : c.id ∉ (Shape.fork side x .black a (.fork side p .red b outer)).ids := by simp [outPivot]
  have readTop₂ := Storage.getPutSame readTop₁ (c.node color side near.link (some x.id))
  have whole : Spells (Storage.put store₁ c.id (c.node color side near.link (some x.id))) (some c.id)
      (.fork side c color near (.fork side x .black a (.fork side p .red b outer))) := by
    refine Spells.forkIff.mpr ⟨rfl, by simpa using readTop₂, ?_, ?_⟩
    · exact (spellsNear.keep writes₁ nearApart).keepPut outNear _
    · simpa using lifted.keepPut liftedOut _
  have onceWhole : (Shape.fork side c color near (.fork side x .black a (.fork side p .red b outer))).ids.Nodup := by
    have same : (Shape.fork side x .black a (.fork side p .red b outer)).ids =
        (Shape.fork side p color' (.fork side x color'' a b) outer).ids :=
      (Shape.idsOfCells (Shape.cellsSingle ..)).symm
    rw [Shape.onceFork, same]
    exact (Shape.onceFork ..).mp once
  obtain ⟨store₂, second, spells, writes₂⟩ := singleOk whole onceWhole
  refine ⟨store₂, ?_, spells, ?_⟩
  · simp [double, Storage.childRead readTop, require, first, Storage.setChildWrite readTop₁, second, bind, Except.bind]
  · refine (writes₁.widen ?_).trans ((Rewrites.one ?_ _).trans (writes₂.widen ?_)) <;> simp

theorem paintRootOk {t : Tree σ} {s : Shape K V} (linked : Linked t s) :
    ∃ t', t.paintRoot .black = .ok t' ∧ Linked t' s.blacken ∧ Rewrites s.ids t.store t'.store := by
  have root := linked.spells.linkEq
  obtain rfl | ⟨c, color, near, far, rfl⟩ := s.forkCases .left
  · refine ⟨t, ?_, linked, .none⟩
    rw [paintRoot, root]
    rfl
  · have whole : Linked t (Path.fill [] (.fork .left c color near far)) := linked
    obtain ⟨store, painted, linked', writes⟩ := whole.paint .black
    refine ⟨{ t with store }, ?_, ?_, writes.widen (by simp)⟩
    · rw [Shape.linkFork] at root
      simp only [paintRoot, root, painted, Except.map]
    · rw [Shape.blackenFork]
      exact linked'

/-- What a rotation leaves: `raised` is the new top, each node of `sunk` hangs from it on the side given, and no other
node is written. -/
structure Raised (store store' : σ) (s : Shape K V) (raised : NodeId) (sunk : List (Side × NodeId)) : Prop where
  row : ∃ s', Spells store' (some raised) s' ∧ s'.ids = s.ids
  entries : ∀ id, (Storage.get? store' id).map Node.entry = (Storage.get? store id).map Node.entry
  elsewhere : ∀ id, id ≠ raised → id ∉ sunk.map Prod.snd → Storage.get? store' id = Storage.get? store id
  top : (Storage.get? store' raised).map Node.color = some .black
  hanging : ∀ u ∈ sunk, Storage.child store' raised u.1 = .ok (some u.2) ∧
    (Storage.get? store' u.2).map Node.color = some .red

section
variable {store' : σ} {s : Shape K V} {top pivot : NodeId} {side : Side}

theorem Raised.of {x : Cell K V} {near far : Shape K V} {names : List NodeId} {sunk : List (Side × NodeId)}
    (before : Spells store (some top) s) (after : Spells store' (some x.id) (.fork side x .black near far))
    (same : (Shape.fork side x .black near far).cells = s.cells) (writes : Rewrites names store store')
    (inside : ∀ id ∈ names, id ∈ s.ids) (named : ∀ id ∈ names, id = x.id ∨ id ∈ sunk.map Prod.snd)
    (hanging : ∀ u ∈ sunk, ((Shape.fork side x .black near far).child u.1).link = some u.2 ∧
      ((Shape.fork side x .black near far).child u.1).color = .red) : Raised store store' s x.id sunk where
  row := ⟨_, after, Shape.idsOfCells same⟩
  entries := before.entriesKept after same writes inside
  elsewhere id other out := writes.elsewhere fun member => (named id member).elim other out
  top := by rw [after.colorAt, Shape.colorFork]
  hanging u member := by
    obtain ⟨link, red⟩ := hanging u member
    obtain ⟨child, below⟩ := after.childBelow u.1
    rw [link] at child below
    exact ⟨child, by rw [below.colorAt, red]⟩

theorem overPivot (h : Spells store (some top) s) (hangs : Storage.child store top side.opposite = .ok (some pivot)) :
    ∃ c p color color' near inner outer, c.id = top ∧ p.id = pivot ∧
      s = .fork side c color near (.fork side p color' inner outer) := by
  obtain ⟨c, color, near, far, topId, rfl⟩ := h.someFork side
  obtain ⟨p, color', inner, outer, pivotId, focus⟩ := h.forkBelow hangs side
  rw [Shape.childForkFar] at focus
  subst focus
  exact ⟨c, p, color, color', near, inner, outer, topId, pivotId, rfl⟩

section
variable {c p : Cell K V} {color color' : Color} {near inner outer : Shape K V}
  (h : Spells store (some c.id) (.fork side c color near (.fork side p color' inner outer)))
  (once : (Shape.fork side c color near (.fork side p color' inner outer)).ids.Nodup)
include h once

theorem singleRaises : ∃ store', single store c.id side = .ok (p.id, store') ∧
    Raised store store' (.fork side c color near (.fork side p color' inner outer)) p.id [(side, c.id)] := by
  obtain ⟨store', run, spells, writes⟩ := singleOk h once
  refine ⟨store', run, .of h spells (Shape.cellsSingle ..) writes (by simp) ?_ (by simp)⟩
  simp [or_comm]

theorem doubleRaises {x : Cell K V} {color'' : Color} {a b : Shape K V} (focus : inner = .fork side x color'' a b) :
    ∃ store', double store c.id side = .ok (x.id, store') ∧
      Raised store store' (.fork side c color near (.fork side p color' inner outer)) x.id
        [(side, c.id), (side.opposite, p.id)] := by
  subst focus
  obtain ⟨store', run, spells, writes⟩ := doubleOk h once
  refine ⟨store', run, .of h spells (Shape.cellsDouble ..) writes (by simp) ?_ (by simp)⟩
  simp

theorem singleBack (run : single store c.id side = .ok (p.id, store')) :
    ∃ store'', single store' p.id side.opposite = .ok (c.id, store'') ∧ ∀ id other,
      (Storage.get? store'' id).map (·.child other) = (Storage.get? store id).map (·.child other) := by
  obtain ⟨store₁, run₁, spells₁, writes₁⟩ := singleOk h once
  obtain rfl : store₁ = store' := (Prod.mk.inj (Except.ok.inj (run₁.symm.trans run))).2
  have once₁ : (Shape.fork side p .black (.fork side c .red near inner) outer).ids.Nodup := by
    rwa [Shape.idsOfCells (Shape.cellsSingle side c p color color' .black .red near inner outer)]
  rw [← Shape.forkOpposite, ← Shape.forkOpposite side c] at spells₁ once₁
  obtain ⟨store₂, run₂, spells₂, writes₂⟩ := singleOk spells₁ once₁
  rw [Shape.forkOpposite, Shape.forkOpposite] at spells₂
  obtain ⟨-, -, -, spellsPivot⟩ := Spells.forkIff.mp h
  obtain ⟨-, -, -, spellsPivot₂⟩ := Spells.forkIff.mp spells₂
  refine ⟨store₂, run₂, fun id other => ?_⟩
  by_cases atTop : id = c.id
  · rw [atTop, h.linksAlike spells₂ rfl (by simp)]
  by_cases atPivot : id = p.id
  · rw [atPivot, spellsPivot.linksAlike spellsPivot₂ rfl rfl]
  · rw [writes₂.elsewhere (by simp [atTop, atPivot]), writes₁.elsewhere (by simp [atTop, atPivot])]

end

theorem everyTurnKeepsRow (side : Side) (h : Spells store (some top) s) (once : s.ids.Nodup)
    (hangs : Storage.child store top side.opposite = .ok (some pivot)) :
    (∃ store' store'', single store top side = .ok (pivot, store') ∧ Raised store store' s pivot [(side, top)] ∧
      single store' pivot side.opposite = .ok (top, store'') ∧ ∀ id other,
        (Storage.get? store'' id).map (·.child other) = (Storage.get? store id).map (·.child other)) ∧
    ∀ inner, Storage.child store pivot side = .ok (some inner) →
      ∃ store', double store top side = .ok (inner, store') ∧
        Raised store store' s inner [(side, top), (side.opposite, pivot)] := by
  obtain ⟨c, p, color, color', near, inner, outer, rfl, rfl, rfl⟩ := overPivot h hangs
  obtain ⟨store', run, raised⟩ := singleRaises h once
  obtain ⟨store'', back, restored⟩ := singleBack h once run
  refine ⟨⟨store', store'', run, raised, back, restored⟩, fun id hangsInner => ?_⟩
  obtain ⟨-, -, -, spellsPivot⟩ := Spells.forkIff.mp h
  rw [Shape.linkFork] at spellsPivot
  obtain ⟨x, color'', a, b, rfl, focus⟩ := spellsPivot.forkBelow hangsInner side
  rw [Shape.childForkNear] at focus
  exact doubleRaises h once focus

end

def bentStore : Array (Node Nat Nat) :=
  #[⟨.red, none, some ⟨2⟩, 20, 1⟩, ⟨.black, none, some ⟨0⟩, 10, 2⟩, ⟨.red, some ⟨3⟩, none, 40, 3⟩,
    ⟨.black, none, some ⟨4⟩, 30, 4⟩, ⟨.black, none, none, 35, 5⟩]

theorem bentTurnKeepsRow :
    ∃ (store₁ store₂ store₃ : Array (Node Nat Nat)) (s : Shape Nat Nat), s.ids = [⟨0⟩, ⟨3⟩, ⟨4⟩, ⟨2⟩] ∧
      (single bentStore ⟨0⟩ .left = .ok (⟨2⟩, store₁) ∧ Raised bentStore store₁ s ⟨2⟩ [(.left, ⟨0⟩)]) ∧
      (single store₁ ⟨2⟩ .right = .ok (⟨0⟩, store₂) ∧ ∀ id other,
        (Storage.get? store₂ id).map (·.child other) = (Storage.get? bentStore id).map (·.child other)) ∧
      double bentStore ⟨0⟩ .left = .ok (⟨3⟩, store₃) ∧ Raised bentStore store₃ s ⟨3⟩ [(.left, ⟨0⟩), (.right, ⟨2⟩)] ∧
      store₃ = #[⟨.red, none, none, 20, 1⟩, ⟨.black, none, some ⟨0⟩, 10, 2⟩, ⟨.red, some ⟨4⟩, none, 40, 3⟩,
        ⟨.black, some ⟨0⟩, some ⟨2⟩, 30, 4⟩, ⟨.black, none, none, 35, 5⟩] := by
  have spells : Spells bentStore (some ⟨0⟩)
      (.node ⟨0⟩ .red .leaf 20 1 (.node ⟨2⟩ .red (.node ⟨3⟩ .black .leaf 30 4 (.node ⟨4⟩ .black .leaf 35 5 .leaf)) 40 3
        .leaf)) := by
    repeat first | exact .leaf | refine Spells.nodeIff.mpr ⟨rfl, rfl, ?_, ?_⟩
  obtain ⟨⟨store₁, store₂, run, raised, back, restored⟩, twice⟩ := everyTurnKeepsRow .left spells (by decide) rfl
  obtain ⟨store₃, run₃, raised₃⟩ := twice ⟨3⟩ rfl
  exact ⟨store₁, store₂, store₃, _, rfl, ⟨run, raised⟩, ⟨back, restored⟩, run₃, raised₃,
    (Prod.mk.inj (Except.ok.inj run₃)).2.symm⟩

end RedBlack.Tree
