import RedBlack.Cursor
import RedBlack.Proofs.Linked

/-! A cursor on a node records the names of a path. Where it goes next is the first cell it has not passed,
in the subtree on that side or at the first frame that is left on the other side. -/
namespace RedBlack

namespace Shape
variable {K V : Type}

def toward (side : Side) (s : Shape K V) : List (Cell K V) :=
  match side with
  | .right => s.cells
  | .left => s.cells.reverse

def ancestors (wanted : NodeId) : Shape K V → List NodeId
  | leaf => []
  | node id _ left _ _ right =>
      if wanted = id then []
      else if wanted ∈ left.ids then id :: left.ancestors wanted
      else if wanted ∈ right.ids then id :: right.ancestors wanted
      else []

@[simp] theorem towardLeaf (side : Side) : (leaf : Shape K V).toward side = [] := by cases side <;> rfl

theorem towardFork (side : Side) (c : Cell K V) (color : Color) (near far : Shape K V) :
    (fork side c color near far).toward side = far.toward side ++ c :: near.toward side := by
  cases side <;> simp [fork, toward, cells]

end Shape

namespace Path
variable {K V : Type} {side : Side} {path : Path K V} {f : Frame K V}

def ids (path : Path K V) : List NodeId := path.map fun f => f.cell.id

def rim (side : Side) (path : Path K V) : List (Cell K V) :=
  match side with
  | .right => path.after
  | .left => path.before.reverse

theorem rimSame (same : f.side = side) : rim side (f :: path) = rim side path := by
  cases side <;> simp [rim, before, after, same]

theorem rimOther (other : f.side = side.opposite) :
    rim side (f :: path) = f.cell :: (f.far.toward side ++ rim side path) := by
  cases side <;> simp [rim, before, after, other, Side.opposite, Shape.toward]

theorem rimAppend (side : Side) (lower path : Path K V) : rim side (lower ++ path) = rim side lower ++ rim side path := by
  induction lower with
  | nil => cases side <;> simp [rim, before, after]
  | cons f lower ih =>
      by_cases same : f.side = side
      · rw [List.cons_append, rimSame same, ih, rimSame same]
      · have other := Side.eqOpposite same
        rw [List.cons_append, rimOther other, ih, rimOther other]
        simp

theorem rimAll (all : ∀ f ∈ path, f.side = side) : rim side path = [] := by
  induction path with
  | nil => cases side <;> rfl
  | cons f above ih =>
      rw [rimSame (all f List.mem_cons_self)]
      exact ih fun g member => all g (List.mem_cons_of_mem _ member)

theorem towardFill (side : Side) (path : Path K V) (s : Shape K V) :
    (fill path s).toward side = (rim side.opposite path).reverse ++ s.toward side ++ rim side path := by
  cases side <;> simp [Shape.toward, rim, cellsFill, Side.opposite]

theorem towardEnd {c : Cell K V} {color : Color} {near : Shape K V} (outer : rim side.opposite path = []) :
    (fill path (.fork side.opposite c color .leaf near)).toward side = c :: (near.toward side ++ rim side path) := by
  rw [towardFill, outer, Shape.forkOpposite, Shape.towardFork]
  simp

theorem ancestorsFill {s : Shape K V} (once : (fill path s).ids.Nodup) {id : NodeId} (member : id ∈ s.ids) :
    (fill path s).ancestors id = path.ids.reverse ++ s.ancestors id := by
  induction path generalizing s with
  | nil => rfl
  | cons f above ih =>
      have here : id ∈ (f.fill s).ids := (Shape.memIdsFork ..).mpr (.inr (.inl member))
      have onceHere : (f.fill s).ids.Nodup := nodupFocus once
      obtain ⟨⟨outNear, -⟩, -, -, apart⟩ := (Shape.onceFork ..).mp onceHere
      have other : id ≠ f.cell.id := fun same => outNear (same ▸ member)
      have step : (f.fill s).ancestors id = f.cell.id :: s.ancestors id := by
        cases side : f.side <;> simp [Frame.fill, side, Shape.fork, Shape.ancestors, other, member, apart id member]
      rw [fillCons, ih once here, step]
      simp [ids]

theorem ancestorsHere {c : Cell K V} {color : Color} {near far : Shape K V} (once : (fill path (.fork side c color near far)).ids.Nodup) :
    (fill path (.fork side c color near far)).ancestors c.id = path.ids.reverse := by
  have top : (Shape.fork side c color near far).ancestors c.id = [] := by cases side <;> simp [Shape.fork, Shape.ancestors]
  rw [ancestorsFill once (by simp), top, List.append_nil]

theorem lengthAncestors {c : Cell K V} {color : Color} {near far : Shape K V}
    (once : (fill path (.fork side c color near far)).ids.Nodup) :
    ((fill path (.fork side c color near far)).ancestors c.id).length = path.length := by
  rw [ancestorsHere once]
  simp [ids]

end Path

end RedBlack
