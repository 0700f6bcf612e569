import RedBlack.Shape

/-! Shapes seen from either side. A pass down a tree does the same on the left as on the right, so its
nodes are described by the side it leaves them on: the near subtree hangs there, the far one opposite. -/
namespace RedBlack

structure Cell (K V : Type) where
  id : NodeId
  key : K
  value : V
  deriving DecidableEq, Repr

namespace Cell
variable {K V : Type}

def entry (c : Cell K V) : K × V := (c.key, c.value)

def node (c : Cell K V) (color : Color) (side : Side) (near far : Option NodeId) : Node K V :=
  match side with
  | .left => ⟨color, near, far, c.key, c.value⟩
  | .right => ⟨color, far, near, c.key, c.value⟩

section
variable (c : Cell K V) (color : Color) (side : Side) (near far : Option NodeId)

@[simp] theorem colorNode : (c.node color side near far).color = color := by cases side <;> rfl

@[simp] theorem keyNode : (c.node color side near far).key = c.key := by cases side <;> rfl

@[simp] theorem valueNode : (c.node color side near far).value = c.value := by cases side <;> rfl

@[simp] theorem isRedNode : (c.node color side near far).isRed = decide (color = .red) := by
  cases side <;> rfl

@[simp] theorem childNear : (c.node color side near far).child side = near := by cases side <;> rfl

@[simp] theorem childFar : (c.node color side near far).child side.opposite = far := by
  cases side <;> rfl

@[simp] theorem setChildNear (link : Option NodeId) :
    (c.node color side near far).setChild side link = c.node color side link far := by cases side <;> rfl

@[simp] theorem setChildFar (link : Option NodeId) :
    (c.node color side near far).setChild side.opposite link = c.node color side near link := by
  cases side <;> rfl

@[simp] theorem paintNode (paint : Color) :
    (c.node color side near far).paint paint = c.node paint side near far := by cases side <;> rfl

theorem childRecolor (color' : Color) (other : Side) :
    (c.node color' side near far).child other = (c.node color side near far).child other := by
  cases side <;> cases other <;> rfl

end

end Cell

namespace Shape
variable {K V : Type}

def link : Shape K V → Option NodeId
  | leaf => none
  | node id .. => some id

def cells : Shape K V → List (Cell K V)
  | leaf => []
  | node id _ left key value right => left.cells ++ ⟨id, key, value⟩ :: right.cells

def child : Shape K V → Side → Shape K V
  | leaf, _ => leaf
  | node _ _ left .., .left => left
  | node _ _ _ _ _ right, .right => right

def blacken : Shape K V → Shape K V
  | leaf => leaf
  | node id _ left key value right => node id .black left key value right

def fork (side : Side) (c : Cell K V) (color : Color) (near far : Shape K V) : Shape K V :=
  match side with
  | .left => node c.id color near c.key c.value far
  | .right => node c.id color far c.key c.value near

theorem idsEqCells (s : Shape K V) : s.ids = s.cells.map Cell.id := by
  induction s with
  | leaf => rfl
  | node id color left key value right ihLeft ihRight => simp [ids, cells, ihLeft, ihRight]

theorem entriesEqCells (s : Shape K V) : s.entries = s.cells.map Cell.entry := by
  induction s with
  | leaf => rfl
  | node id color left key value right ihLeft ihRight =>
      simp [entries, cells, Cell.entry, ihLeft, ihRight]

@[simp] theorem lengthCells (s : Shape K V) : s.cells.length = s.size := by
  rw [← lengthIds, idsEqCells, List.length_map]

theorem idsOfCells {s s' : Shape K V} (same : s.cells = s'.cells) : s.ids = s'.ids := by
  rw [idsEqCells, idsEqCells, same]

theorem forkCases (side : Side) (s : Shape K V) :
    s = leaf ∨ ∃ c color near far, s = fork side c color near far := by
  cases s with
  | leaf => exact .inl rfl
  | node id color left key value right =>
      cases side with
      | left => exact .inr ⟨⟨id, key, value⟩, color, left, right, rfl⟩
      | right => exact .inr ⟨⟨id, key, value⟩, color, right, left, rfl⟩

theorem forkInduction (side : Side) {motive : Shape K V → Prop} (leaf : motive leaf)
    (fork : ∀ c color near far, motive near → motive (fork side c color near far)) (s : Shape K V) : motive s := by
  induction s with
  | leaf => exact leaf
  | node id color left key value right ihLeft ihRight =>
      cases side with
      | left => exact fork ⟨id, key, value⟩ color left right ihLeft
      | right => exact fork ⟨id, key, value⟩ color right left ihRight

theorem nodeEqFork (side : Side) (id : NodeId) (color : Color) (left right : Shape K V) (key : K) (value : V) :
    node id color left key value right =
      fork side ⟨id, key, value⟩ color ((node id color left key value right).child side)
        ((node id color left key value right).child side.opposite) := by
  cases side <;> rfl

section
variable (side : Side) (c : Cell K V) (color : Color) (near far : Shape K V)

theorem forkCell {side' : Side} {c' : Cell K V} {color' : Color} {near' far' : Shape K V}
    (same : fork side c color near far = fork side' c' color' near' far') : c = c' ∧ color = color' := by
  cases c
  cases c'
  cases side <;> cases side' <;> simp_all [fork]

theorem forkInj {c' : Cell K V} {color' : Color} {near' far' : Shape K V}
    (same : fork side c color near far = fork side c' color' near' far') : near = near' ∧ far = far' := by
  cases side <;> simp_all [fork]

theorem forkOpposite : fork side.opposite c color near far = fork side c color far near := by
  cases side <;> rfl

@[simp] theorem forkNeLeaf : fork side c color near far ≠ leaf := by cases side <;> simp [fork]

@[simp] theorem linkFork : (fork side c color near far).link = some c.id := by cases side <;> rfl

@[simp] theorem colorFork : (fork side c color near far).color = color := by cases side <;> rfl

@[simp] theorem childForkNear : (fork side c color near far).child side = near := by cases side <;> rfl

@[simp] theorem childForkFar : (fork side c color near far).child side.opposite = far := by
  cases side <;> rfl

@[simp] theorem blackenFork : (fork side c color near far).blacken = fork side c .black near far := by
  cases side <;> rfl

theorem idsFork : (fork side c color near far).ids.Perm (c.id :: (near.ids ++ far.ids)) := by
  cases side with
  | left => exact List.perm_middle
  | right => exact List.perm_middle.trans (.cons _ List.perm_append_comm)

@[simp] theorem memIdsFork {id : NodeId} :
    id ∈ (fork side c color near far).ids ↔ id = c.id ∨ id ∈ near.ids ∨ id ∈ far.ids := by
  simp [(idsFork side c color near far).mem_iff]

theorem onceFork :
    (fork side c color near far).ids.Nodup ↔
      (c.id ∉ near.ids ∧ c.id ∉ far.ids) ∧ near.ids.Nodup ∧ far.ids.Nodup ∧ ∀ id ∈ near.ids, id ∉ far.ids := by
  rw [(idsFork side c color near far).nodup_iff, List.nodup_cons, List.mem_append, not_or, List.nodup_append]
  constructor
  · intro h
    obtain ⟨out, near, far, apart⟩ := h
    exact ⟨out, near, far, fun id here there => apart id here id there rfl⟩
  · intro h
    obtain ⟨out, near, far, apart⟩ := h
    exact ⟨out, near, far, fun id here other there same => apart id here (same ▸ there)⟩

theorem noRedRedFork :
    (fork side c color near far).NoRedRed ↔
      (color = .red → near.color = .black ∧ far.color = .black) ∧ near.NoRedRed ∧ far.NoRedRed := by
  cases side with
  | left => exact Iff.rfl
  | right => simp [fork, NoRedRed, and_comm]

@[simp] theorem heightFork : (fork side c color near far).height = max near.height far.height + 1 := by
  cases side <;> simp [fork, height, Nat.max_comm]

end

@[simp] theorem linkBlacken (s : Shape K V) : s.blacken.link = s.link := by cases s <;> rfl

@[simp] theorem cellsBlacken (s : Shape K V) : s.blacken.cells = s.cells := by cases s <;> rfl

@[simp] theorem idsBlacken (s : Shape K V) : s.blacken.ids = s.ids := by cases s <;> rfl

@[simp] theorem colorBlacken (s : Shape K V) : s.blacken.color = .black := by cases s <;> rfl

theorem cellsRecolor (side : Side) (c : Cell K V) (color color' : Color) (near far : Shape K V) :
    (fork side c color' near.blacken far.blacken).cells = (fork side c color near far).cells := by
  cases side <;> simp [fork, cells]

theorem idsRecolor (side : Side) (c : Cell K V) (color color' : Color) (near far : Shape K V) :
    (fork side c color' near.blacken far.blacken).ids.Perm (fork side c color near far).ids :=
  .of_eq (idsOfCells (cellsRecolor side c color color' near far))

section
variable (side : Side) (c p x : Cell K V) (color color' color'' above below beside : Color)

theorem cellsSingle (near inner outer : Shape K V) :
    (fork side p above (fork side c below near inner) outer).cells =
      (fork side c color near (fork side p color' inner outer)).cells := by
  cases side <;> simp [fork, cells]

theorem cellsDouble (near a b outer : Shape K V) :
    (fork side x above (fork side c below near a) (fork side p beside b outer)).cells =
      (fork side c color near (fork side p color' (fork side x color'' a b) outer)).cells := by
  cases side <;> simp [fork, cells]

end

theorem blackenOfBlack {s : Shape K V} (black : s.color = .black) : s.blacken = s := by
  cases s with
  | leaf => rfl
  | node id color left key value right => cases black; rfl

theorem heightZero {s : Shape K V} (low : s.height = 0) : s = leaf := by
  cases s with
  | leaf => rfl
  | node id color left key value right => simp [height] at low

theorem linkEqNone {s : Shape K V} : s.link = none ↔ s = leaf := by cases s <;> simp [link]

theorem linkSome {s : Shape K V} (inner : s ≠ leaf) : ∃ id, s.link = some id :=
  Option.ne_none_iff_exists'.mp fun none => inner (linkEqNone.mp none)

theorem linkMem {s : Shape K V} {id : NodeId} (h : s.link = some id) : id ∈ s.ids := by
  cases s with
  | leaf => cases h
  | node id' color left key value right => cases h; simp [ids]

end Shape

end RedBlack
