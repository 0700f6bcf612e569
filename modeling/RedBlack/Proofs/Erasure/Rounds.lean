import RedBlack.Traced
import RedBlack.Proofs.Balance
import RedBlack.Proofs.Sorted

/-! The pass of an erasure as steps from place to place. Colors may be anything here: each round goes on to
the child that the order asks for, and what it turns on the way stays above it. -/
namespace RedBlack

def Path.beside {K V : Type} : Path K V → Shape K V
  | [] => .leaf
  | f :: _ => f.far

namespace Erasure
variable {K V : Type}

inductive Step (order : K → Ordering) : Place K V → List Event → Place K V → Prop where
  | walk {path : Path K V} {side : Side} {c : Cell K V} {color : Color} {near far : Shape K V}
      (turn : Side.toward (order c.key) = side) (red : color = .red ∨ near.color = .red) :
      Step order ⟨path, .fork side c color near far⟩ [] ⟨⟨c, color, side, far⟩ :: path, near⟩
  | lift {path : Path K V} {side : Side} {c d : Cell K V} {near inner outer : Shape K V}
      (turn : Side.toward (order c.key) = side) (black : near.color = .black) :
      Step order ⟨path, .fork side c .black near (.fork side d .red inner outer)⟩ [.eraseLift c.id]
        ⟨⟨c, .red, side, inner⟩ :: ⟨d, .black, side, outer⟩ :: path, near⟩
  | alone {path : Path K V} {side : Side} {c : Cell K V} {near far : Shape K V}
      (turn : Side.toward (order c.key) = side) (black : near.color = .black ∧ far.color = .black)
      (beside : path.beside = .leaf) :
      Step order ⟨path, .fork side c .black near far⟩ [] ⟨⟨c, .black, side, far⟩ :: path, near⟩
  | recolor {p : Frame K V} {above : Path K V} {side : Side} {c d : Cell K V} {color : Color}
      {near far inner outer : Shape K V}
      (turn : Side.toward (order c.key) = side) (black : near.color = .black ∧ far.color = .black)
      (beside : p.far = .fork p.side d color inner outer) (nephews : inner.color = .black ∧ outer.color = .black) :
      Step order ⟨p :: above, .fork side c .black near far⟩ [.eraseFlip p.cell.id]
        ⟨⟨c, .red, side, far⟩ :: ⟨p.cell, .black, p.side, .fork p.side d .red inner outer⟩ :: above, near⟩
  | single {p : Frame K V} {above : Path K V} {side : Side} {c d : Cell K V} {color : Color}
      {near far inner outer : Shape K V}
      (turn : Side.toward (order c.key) = side) (black : near.color = .black ∧ far.color = .black)
      (beside : p.far = .fork p.side d color inner outer) (nephews : inner.color = .black ∧ outer.color = .red) :
      Step order ⟨p :: above, .fork side c .black near far⟩ [.eraseSingle p.cell.id]
        ⟨⟨c, .red, side, far⟩ :: ⟨p.cell, .black, p.side, inner⟩ :: ⟨d, .red, p.side, outer.blacken⟩ :: above, near⟩
  | double {p : Frame K V} {above : Path K V} {side : Side} {c d x : Cell K V} {color : Color}
      {near far a b outer : Shape K V}
      (turn : Side.toward (order c.key) = side) (black : near.color = .black ∧ far.color = .black)
      (beside : p.far = .fork p.side d color (.fork p.side x .red a b) outer) :
      Step order ⟨p :: above, .fork side c .black near far⟩ [.eraseDouble p.cell.id]
        ⟨⟨c, .red, side, far⟩ :: ⟨p.cell, .black, p.side, a⟩ :: ⟨x, .red, p.side, .fork p.side d .black b outer⟩ :: above,
          near⟩

inductive Passes (order : K → Ordering) : Nat → Place K V → List Event → Path K V → Prop where
  | ends {path : Path K V} : Passes order 1 ⟨path, .leaf⟩ [] path
  | step {rounds : Nat} {z z' : Place K V} {log rest : List Event} {path : Path K V}
      (first : Step order z log z') (tail : Passes order rounds z' rest path) :
      Passes order (rounds + 1) z (log ++ rest) path

section
variable {order : K → Ordering} {z z' : Place K V} {log : List Event}

theorem Step.cut (step : Step order z log z') : z'.cut order = z.cut order := by
  cases step with
  | @walk path side c color near far turn red =>
      cases side <;> simp [Place.cut, Path.before, Path.after, Shape.fork, Shape.cut, turn]
  | @lift path side c d near inner outer turn black =>
      cases side <;> simp [Place.cut, Path.before, Path.after, Shape.fork, Shape.cut, Shape.cells, turn]
  | @alone path side c near far turn black beside =>
      cases side <;> simp [Place.cut, Path.before, Path.after, Shape.fork, Shape.cut, turn]
  | @recolor p above side c d color near far inner outer turn black beside nephews =>
      cases side <;> cases hp : p.side <;>
        simp [Place.cut, Path.before, Path.after, Shape.fork, Shape.cut, Shape.cells, turn, beside, hp]
  | @single p above side c d color near far inner outer turn black beside nephews =>
      cases side <;> cases hp : p.side <;>
        simp [Place.cut, Path.before, Path.after, Shape.fork, Shape.cut, Shape.cells, turn, beside, hp]
  | @double p above side c d x color near far a b outer turn black beside =>
      cases side <;> cases hp : p.side <;>
        simp [Place.cut, Path.before, Path.after, Shape.fork, Shape.cut, Shape.cells, turn, beside, hp]

theorem Step.cells (step : Step order z log z') : z'.shape.cells = z.shape.cells := by
  rw [← Place.cutAppend order z', step.cut, Place.cutAppend]

theorem Passes.cut {rounds : Nat} {path : Path K V} (passes : Passes order rounds z log path) :
    (path.before, path.after) = z.cut order := by
  induction passes with
  | ends => simp [Place.cut, Shape.cut]
  | step first tail ih => rw [ih, first.cut]

theorem Passes.cutRoot {rounds : Nat} {s : Shape K V} {path : Path K V}
    (passes : Passes order rounds ⟨[], s⟩ log path) : path.before = (s.cut order).1 ∧ path.after = (s.cut order).2 := by
  have cut : (path.before, path.after) = ((s.cut order).1, (s.cut order).2 ++ []) := passes.cut
  rw [List.append_nil] at cut
  exact Prod.mk.inj cut

theorem Passes.cellsRoot {rounds : Nat} {s : Shape K V} {path : Path K V}
    (passes : Passes order rounds ⟨[], s⟩ log path) : (path.fill .leaf).cells = s.cells := by
  obtain ⟨before, after⟩ := passes.cutRoot
  rw [Path.cellsFill, before, after, Shape.cells, List.append_nil, Shape.cutAppend]

theorem Step.frames (step : Step order z log z') {f : Frame K V} (member : f ∈ z.path) :
    ∃ f' ∈ z'.path, f'.cell = f.cell := by
  cases step with
  | walk turn red => exact ⟨f, by simpa using .inr member, rfl⟩
  | lift turn black => exact ⟨f, by simpa using .inr (.inr member), rfl⟩
  | alone turn black beside => exact ⟨f, by simpa using .inr member, rfl⟩
  | recolor turn black beside nephews =>
      rcases List.mem_cons.mp member with rfl | member
      · exact ⟨_, List.mem_cons_of_mem _ List.mem_cons_self, rfl⟩
      · exact ⟨f, by simp [member], rfl⟩
  | single turn black beside nephews =>
      rcases List.mem_cons.mp member with rfl | member
      · exact ⟨_, List.mem_cons_of_mem _ List.mem_cons_self, rfl⟩
      · exact ⟨f, by simp [member], rfl⟩
  | double turn black beside =>
      rcases List.mem_cons.mp member with rfl | member
      · exact ⟨_, List.mem_cons_of_mem _ List.mem_cons_self, rfl⟩
      · exact ⟨f, by simp [member], rfl⟩

theorem Step.inside (step : Step order z log z') : z'.path ≠ [] := by cases step <;> simp

theorem progress (path : Path K V) {side : Side} {c : Cell K V} (turn : Side.toward (order c.key) = side)
    (color : Color) (near far : Shape K V) :
    ∃ log z', Step order ⟨path, .fork side c color near far⟩ log z' ∧ z'.focus = near := by
  by_cases red : color = .red ∨ near.color = .red
  · exact ⟨_, _, .walk turn red, rfl⟩
  obtain ⟨black, blackNear⟩ := not_or.mp red
  obtain rfl := Color.eqBlackIff.mpr black
  have blackNear := Color.eqBlackIff.mpr blackNear
  by_cases redFar : far.color = .red
  · obtain ⟨d, inner, outer, rfl⟩ := Shape.redFork side redFar
    exact ⟨_, _, .lift turn blackNear, rfl⟩
  have kids : near.color = .black ∧ far.color = .black := ⟨blackNear, Color.eqBlackIff.mpr redFar⟩
  cases path with
  | nil => exact ⟨_, _, .alone turn kids rfl, rfl⟩
  | cons p above =>
      obtain leaf | ⟨d, beside, inner, outer, sibling⟩ := p.far.forkCases p.side
      · exact ⟨_, _, .alone turn kids leaf, rfl⟩
      by_cases redInner : inner.color = .red
      · obtain ⟨x, a, b, rfl⟩ := Shape.redFork p.side redInner
        exact ⟨_, _, .double turn kids sibling, rfl⟩
      have blackInner := Color.eqBlackIff.mpr redInner
      by_cases redOuter : outer.color = .red
      · exact ⟨_, _, .single turn kids sibling ⟨blackInner, redOuter⟩, rfl⟩
      · exact ⟨_, _, .recolor turn kids sibling ⟨blackInner, Color.eqBlackIff.mpr redOuter⟩, rfl⟩

theorem passes (order : K → Ordering) (path : Path K V) (focus : Shape K V) :
    ∃ log bottom, Passes order (focus.descent order + 1) ⟨path, focus⟩ log bottom := by
  generalize depth : focus.descent order = n
  induction n generalizing path focus with
  | zero =>
      obtain rfl | ⟨side, c, color, near, far, turn, rfl⟩ := focus.turnCases order
      · exact ⟨_, _, .ends⟩
      · simp [Shape.descentFork turn] at depth
  | succ n ih =>
      obtain rfl | ⟨side, c, color, near, far, turn, rfl⟩ := focus.turnCases order
      · simp [Shape.descent] at depth
      obtain ⟨log, ⟨path', focus'⟩, first, rfl⟩ := progress path turn color near far
      obtain ⟨rest, bottom, tail⟩ := ih path' focus' (by simpa [Shape.descentFork turn] using depth)
      exact ⟨_, _, .step first tail⟩

end

end Erasure

end RedBlack
