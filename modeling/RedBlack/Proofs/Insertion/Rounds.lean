import RedBlack.Traced
import RedBlack.Proofs.Balance
import RedBlack.Proofs.Sorted

/-! The pass of an insertion as steps from place to place in a shape. After a rotation the pass goes
on for a while without knowing the nodes further up; its stage says for how long it will not need them. -/
namespace RedBlack

def Cell.sprout {K V : Type} (c : Cell K V) : Shape K V := .node c.id .red .leaf c.key c.value .leaf

def Frame.redden {K V : Type} (f : Frame K V) : Frame K V := { f with color := .red }

def Frame.over {K V : Type} (p g : Frame K V) : Frame K V :=
  { p with color := .black, far := g.redden.fill p.far }

namespace Insertion
variable {K V : Type}

inductive Stage where
  | ready
  | quiet
  | returning
  deriving DecidableEq, Repr

def Stage.next : Stage → Stage
  | returning => quiet
  | _ => ready

inductive Step (order : K → Ordering) : Stage → Place K V → List Event → Stage → Place K V → Prop where
  | walk {stage : Stage} {path : Path K V} {side : Side} {c : Cell K V} {color : Color} {near far : Shape K V}
      (turn : Side.toward (order c.key) = side) (idle : near.color = .black ∨ far.color = .black)
      (calm : path.color = .black ∨ color = .black) :
      Step order stage ⟨path, .fork side c color near far⟩ [] stage.next ⟨⟨c, color, side, far⟩ :: path, near⟩
  | flip {path : Path K V} {side : Side} {c : Cell K V} {color : Color} {near far : Shape K V}
      (turn : Side.toward (order c.key) = side) (redNear : near.color = .red) (redFar : far.color = .red)
      (calm : path.color = .black) :
      Step order .ready ⟨path, .fork side c color near far⟩ [.insertFlip c.id]
        .quiet ⟨⟨c, .red, side, far.blacken⟩ :: path, near.blacken⟩
  | single {p g : Frame K V} {above : Path K V} {side : Side} {c : Cell K V} {color : Color} {near far : Shape K V}
      (turn : Side.toward (order c.key) = side) (redNear : near.color = .red) (redFar : far.color = .red)
      (redParent : p.color = .red) (straight : p.side = g.side) :
      Step order .ready ⟨p :: g :: above, .fork side c color near far⟩ [.insertFlip c.id, .insertSingle g.cell.id]
        .quiet ⟨⟨c, .red, side, far.blacken⟩ :: p.over g :: above, near.blacken⟩
  | double {p g q r : Frame K V} {above : Path K V} {side : Side} {c : Cell K V} {color : Color} {near far : Shape K V}
      (turn : Side.toward (order c.key) = side) (redNear : near.color = .red) (redFar : far.color = .red)
      (redParent : p.color = .red) (pair : q = p ∧ r = g ∨ q = g ∧ r = p)
      (back : q.side = side.opposite) (away : r.side = side) :
      Step order .ready ⟨p :: g :: above, .fork side c color near far⟩ [.insertFlip c.id, .insertDouble g.cell.id]
        .returning ⟨⟨c, .black, side, r.redden.fill far.blacken⟩ :: above, q.redden.fill near.blacken⟩

inductive Ends (new : Cell K V) : Place K V → List Event → Shape K V → Prop where
  | plain {path : Path K V} (calm : path.color = .black) : Ends new ⟨path, .leaf⟩ [] (path.fill new.sprout)
  | single {p g : Frame K V} {above : Path K V} (redParent : p.color = .red) (straight : p.side = g.side) :
      Ends new ⟨p :: g :: above, .leaf⟩ [.insertSingle g.cell.id] (Path.fill (p.over g :: above) new.sprout)
  | double {p g : Frame K V} {above : Path K V} (redParent : p.color = .red) (bent : p.side = g.side.opposite) :
      Ends new ⟨p :: g :: above, .leaf⟩ [.insertDouble g.cell.id]
        (Path.fill above (.fork g.side new .black (p.redden.fill .leaf) (g.redden.fill .leaf)))

inductive Passes (order : K → Ordering) (new : Cell K V) : Nat → Stage → Place K V → List Event → Shape K V → Prop where
  | ends {z : Place K V} {log : List Event} {s : Shape K V} (last : Ends new z log s) : Passes order new 1 .ready z log s
  | step {rounds : Nat} {stage stage' : Stage} {z z' : Place K V} {log rest : List Event} {s : Shape K V}
      (first : Step order stage z log stage' z') (tail : Passes order new rounds stage' z' rest s) :
      Passes order new (rounds + 1) stage z (log ++ rest) s

section
variable {order : K → Ordering} {new : Cell K V} {stage stage' : Stage} {z z' : Place K V} {log : List Event}

theorem Step.cells (step : Step order stage z log stage' z') : z'.shape.cells = z.shape.cells := by
  cases step with
  | walk turn idle calm => rfl
  | @flip path side c color near far turn redNear redFar calm =>
      exact Path.cellsFillOf path (Shape.cellsRecolor side c color .red near far)
  | @single p g above side c color near far turn redNear redFar redParent straight =>
      apply Path.cellsFillOf above
      cases hp : p.side <;> cases side <;>
        simp [Frame.fill, Frame.over, Frame.redden, ← straight, hp, Shape.fork, Shape.cells]
  | @double p g q r above side c color near far turn redNear redFar redParent pair back away =>
      apply Path.cellsFillOf above
      obtain ⟨rfl, rfl⟩ | ⟨rfl, rfl⟩ := pair <;> cases side <;>
        simp [Frame.fill, Frame.redden, back, away, Side.opposite, Shape.fork, Shape.cells]

theorem Step.follows (step : Step order stage z log stage' z') (follows : z.path.Follows order) :
    z'.path.Follows order := by
  cases step with
  | walk turn idle calm => exact follows.cons turn
  | flip turn redNear redFar calm => exact follows.cons turn
  | @single p g above side c color near far turn redNear redFar redParent straight =>
      exact (follows.tail.tail.cons (f := p.over g) follows.head).cons turn
  | double turn redNear redFar redParent pair back away => exact follows.tail.tail.cons turn

theorem Step.cut (step : Step order stage z log stage' z') (follows : z.path.Follows order) :
    z'.shape.cut order = z.shape.cut order := by
  cases step with
  | walk turn idle calm => rfl
  | @flip path side c color near far turn redNear redFar calm =>
      apply Path.cutFillOf follows
      cases side <;> simp [Frame.fill, Shape.fork, Shape.cut, turn]
  | @single p g above side c color near far turn redNear redFar redParent straight =>
      apply Path.cutFillOf follows.tail.tail
      have parent := follows.head
      have grand := follows.tail.head
      rw [straight] at parent
      cases hg : g.side <;> rw [hg] at parent grand <;> cases side <;>
        simp [Frame.fill, Frame.over, Frame.redden, straight, hg, Shape.fork, Shape.cut, Shape.cells, turn, parent,
          grand]
  | @double p g q r above side c color near far turn redNear redFar redParent pair back away =>
      apply Path.cutFillOf follows.tail.tail
      have parent := follows.head
      have grand := follows.tail.head
      obtain ⟨rfl, rfl⟩ | ⟨rfl, rfl⟩ := pair <;> simp only [back, away] at parent grand <;> cases side <;>
        simp [Frame.fill, Frame.redden, back, away, Side.opposite, Shape.fork, Shape.cut, Shape.cells, turn, parent,
          grand]

end

end Insertion

end RedBlack
