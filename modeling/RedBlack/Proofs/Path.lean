import RedBlack.Proofs.Fork

/-! Places in a shape: a subtree and the path down to it. The path is a list of frames, the nearest one in
front; filling it with a subtree gives the whole shape back. -/
namespace RedBlack

structure Frame (K V : Type) where
  cell : Cell K V
  color : Color
  side : Side
  far : Shape K V
  deriving DecidableEq, Repr

namespace Frame
variable {K V : Type}

def fill (f : Frame K V) (s : Shape K V) : Shape K V := .fork f.side f.cell f.color s f.far

def node (f : Frame K V) (hole : Option NodeId) : Node K V := f.cell.node f.color f.side hole f.far.link

@[simp] theorem entryNode (f : Frame K V) (hole : Option NodeId) : (f.node hole).entry = f.cell.entry := by
  simp [Frame.node, Node.entry, Cell.entry]

end Frame

abbrev Path (K V : Type) := List (Frame K V)

namespace Path
variable {K V : Type}

def fill : Path K V → Shape K V → Shape K V
  | [], s => s
  | f :: above, s => fill above (f.fill s)

def owner : Path K V → Option NodeId
  | [] => none
  | f :: _ => some f.cell.id

def side : Path K V → Side
  | [] => .right
  | f :: _ => f.side

def names : Path K V → List NodeId
  | [] => []
  | f :: above => f.cell.id :: (f.far.ids ++ names above)

def before : Path K V → List (Cell K V)
  | [] => []
  | f :: above =>
      match f.side with
      | .left => before above
      | .right => before above ++ f.far.cells ++ [f.cell]

def after : Path K V → List (Cell K V)
  | [] => []
  | f :: above =>
      match f.side with
      | .left => f.cell :: f.far.cells ++ after above
      | .right => after above

@[simp] theorem fillNil (s : Shape K V) : fill [] s = s := rfl

@[simp] theorem fillCons (f : Frame K V) (above : Path K V) (s : Shape K V) :
    fill (f :: above) s = fill above (f.fill s) := rfl

@[simp] theorem ownerNil : owner ([] : Path K V) = none := rfl

@[simp] theorem ownerCons (f : Frame K V) (above : Path K V) : owner (f :: above) = some f.cell.id := rfl

@[simp] theorem sideNil : side ([] : Path K V) = .right := rfl

@[simp] theorem sideCons (f : Frame K V) (above : Path K V) : side (f :: above) = f.side := rfl

@[simp] theorem namesCons (f : Frame K V) (above : Path K V) :
    names (f :: above) = f.cell.id :: (f.far.ids ++ names above) := rfl

theorem cellsFill (path : Path K V) (s : Shape K V) :
    (fill path s).cells = before path ++ s.cells ++ after path := by
  induction path generalizing s with
  | nil => simp [before, after]
  | cons f above ih =>
      rw [fillCons, ih]
      cases h : f.side <;> simp [Frame.fill, Shape.fork, Shape.cells, before, after, h]

theorem fillAppend (lower path : Path K V) (s : Shape K V) : fill (lower ++ path) s = fill path (fill lower s) := by
  induction lower generalizing s with
  | nil => rfl
  | cons f lower ih => exact ih (f.fill s)

theorem placeOf {s : Shape K V} {c : Cell K V} (member : c ∈ s.cells) :
    ∃ (path : Path K V) (color : Color) (left right : Shape K V), s = fill path (.fork .right c color right left) := by
  induction s with
  | leaf => cases member
  | node id color left key value right ihLeft ihRight =>
      simp only [Shape.cells, List.mem_append, List.mem_cons] at member
      rcases member with member | rfl | member
      · obtain ⟨path, color', left', right', rfl⟩ := ihLeft member
        exact ⟨path ++ [⟨⟨id, key, value⟩, color, .left, right⟩], color', left', right', by rw [fillAppend]; rfl⟩
      · exact ⟨[], color, left, right, rfl⟩
      · obtain ⟨path, color', left', right', rfl⟩ := ihRight member
        exact ⟨path ++ [⟨⟨id, key, value⟩, color, .right, left⟩], color', left', right', by rw [fillAppend]; rfl⟩

theorem idsFill (path : Path K V) (s : Shape K V) : (fill path s).ids.Perm (s.ids ++ names path) := by
  induction path generalizing s with
  | nil => simp [names]
  | cons f above ih =>
      refine (ih _).trans (((Shape.idsFork ..).append_right _).trans ?_)
      simpa using List.perm_middle.symm

theorem ownerMem {path : Path K V} {id : NodeId} (h : owner path = some id) : id ∈ names path := by
  cases path with
  | nil => cases h
  | cons f above => cases h; exact List.mem_cons_self

theorem frameCell {path : Path K V} {f : Frame K V} (member : f ∈ path) {s : Shape K V} : f.cell ∈ (fill path s).cells := by
  induction path generalizing s with
  | nil => cases member
  | cons g above ih =>
      rcases List.mem_cons.mp member with rfl | member
      · rw [fillCons, cellsFill]
        cases side : f.side <;> simp [Frame.fill, Shape.fork, Shape.cells, side]
      · exact ih member

theorem frameMem {path : Path K V} {f : Frame K V} (member : f ∈ path) : f.cell.id ∈ names path := by
  induction path with
  | nil => cases member
  | cons g above ih =>
      rcases List.mem_cons.mp member with rfl | member
      · exact List.mem_cons_self
      · exact List.mem_cons_of_mem _ (List.mem_append_right _ (ih member))

theorem lengthLtHeight (path : Path K V) {s : Shape K V} : path.length + s.height ≤ (fill path s).height := by
  induction path generalizing s with
  | nil => simp
  | cons f above ih =>
      have whole := ih (s := f.fill s)
      have one : s.height + 1 ≤ (f.fill s).height := by
        rw [Frame.fill, Shape.heightFork]
        omega
      simp only [List.length_cons, fillCons]
      omega

theorem lengthLe {path : Path K V} {side : Side} {c : Cell K V} {color : Color} {near far : Shape K V} {levels : Nat}
    (low : (fill path (.fork side c color near far)).height ≤ levels + 1) : path.length ≤ levels := by
  have whole := lengthLtHeight path (s := .fork side c color near far)
  rw [Shape.heightFork] at whole
  omega

theorem cellsFillOf (path : Path K V) {s s' : Shape K V} (same : s.cells = s'.cells) :
    (fill path s).cells = (fill path s').cells := by
  rw [cellsFill, cellsFill, same]

theorem namesOfPerm (path : Path K V) {s s' : Shape K V} (same : s.ids.Perm s'.ids) :
    (fill path s).ids.Perm (fill path s').ids :=
  (idsFill path s).trans ((same.append_right _).trans (idsFill path s').symm)

theorem memFill {path : Path K V} {s : Shape K V} {id : NodeId} :
    id ∈ (fill path s).ids ↔ id ∈ s.ids ∨ id ∈ names path := by simp [(idsFill path s).mem_iff]

section
variable {path : Path K V} {s : Shape K V} (once : (fill path s).ids.Nodup)
include once

theorem nodupParts : s.ids.Nodup ∧ (names path).Nodup ∧ ∀ id ∈ s.ids, id ∉ names path := by
  obtain ⟨inner, outer, apart⟩ := List.nodup_append.mp ((idsFill path s).nodup_iff.mp once)
  exact ⟨inner, outer, fun id here there => apart id here id there rfl⟩

theorem nodupFocus : s.ids.Nodup := (nodupParts once).1

theorem nodupNames : (names path).Nodup := (nodupParts once).2.1

theorem apart {id : NodeId} (member : id ∈ s.ids) : id ∉ names path := (nodupParts once).2.2 id member

end

end Path

structure Place (K V : Type) where
  path : Path K V
  focus : Shape K V

def Place.shape {K V : Type} (z : Place K V) : Shape K V := z.path.fill z.focus

end RedBlack
