import RedBlack.Proofs.Cursor.Moves

/-! A cursor is an index into the row of linked nodes. Its path is spelled by the node it is on, so that a
step and a step back leave no trace. -/
namespace RedBlack

open RedBlack.Tree (Linked)

inductive Move where
  | first
  | last
  | next
  | prev
  | step (side : Side)
  | detach
  deriving DecidableEq, Repr

inductive Spot where
  | detached
  | attached (index : Option Nat)
  deriving DecidableEq, Repr

namespace Spot

def atEnd (count : Nat) : Side → Spot
  | .left => .attached (if count = 0 then none else some 0)
  | .right => .attached (if count = 0 then none else some (count - 1))

def step (count : Nat) (spot : Spot) (side : Side) : Spot :=
  match spot, side with
  | .attached (some index), .right => .attached (if index + 1 < count then some (index + 1) else none)
  | .attached (some index), .left => .attached (if index = 0 then none else some (index - 1))
  | spot, _ => spot

def move (count : Nat) (spot : Spot) : Move → Spot
  | .first => atEnd count .left
  | .last => atEnd count .right
  | .next => spot.step count .right
  | .prev => spot.step count .left
  | .step side => spot.step count side
  | .detach => .detached

end Spot

namespace Cursor
variable {σ K V : Type} [Storage σ K V] {t : Tree σ} {s : Shape K V} {spot : Spot} {c : Cursor σ}

def move (t : Tree σ) (c : Cursor σ) : Move → Traced (Cursor σ)
  | .first => Cursor.first t
  | .last => Cursor.last t
  | .next => c.next
  | .prev => c.prev
  | .step side => c.step side
  | .detach => return .detached

omit [Storage σ K V] in
def placed (t : Tree σ) (s : Shape K V) : Spot → Cursor σ
  | .detached => .detached
  | .attached none => off t
  | .attached (some index) =>
      match s.ids[index]? with
      | some id => ⟨some t.store, some id, (s.ancestors id).reverse⟩
      | none => off t

inductive Marks (t : Tree σ) (s : Shape K V) : Spot → Cursor σ → Prop where
  | detached : Marks t s .detached .detached
  | off : Marks t s (.attached none) (off t)
  | on {path : Path K V} {c : Cell K V} {color : Color} {left right : Shape K V}
      (whole : path.fill (.fork .right c color right left) = s) :
      Marks t s (.attached (some (path.before.length + left.size))) (on t path c)

omit [Storage σ K V] in
theorem Marks.placed (marks : Marks t s spot c) (once : s.ids.Nodup) : c = placed t s spot := by
  cases marks with
  | detached => rfl
  | off => rfl
  | @on path c color left right whole =>
      subst whole
      have index : (path.fill (.fork .right c color right left)).ids[path.before.length + left.size]? = some c.id := by
        rw [Shape.idsEqCells, Path.cellsFill]
        simp [Shape.fork, Shape.cells, ← Shape.lengthCells]
      rw [Cursor.placed, index]
      simp [Cursor.on, Path.ancestorsHere once]

omit [Storage σ K V] in
theorem sizeRow (path : Path K V) (c : Cell K V) (color : Color) (left right : Shape K V) :
    (path.fill (.fork .right c color right left)).size =
      path.before.length + left.size + 1 + (right.size + path.after.length) := by
  rw [← Shape.lengthCells, Path.cellsFill]
  simp [Shape.fork, Shape.cells, Shape.lengthCells]
  omega

theorem Marks.step (marks : Marks t s spot c) (linked : Linked t s) (low : s.height ≤ heightLimit + 1) (side : Side) :
    ∃ c', c.step side = pure c' ∧ Marks t s (spot.step s.size side) c' := by
  cases marks with
  | detached => exact ⟨_, rfl, .detached⟩
  | off => exact ⟨_, rfl, .off⟩
  | @on path c color left right whole =>
      have size := sizeRow path c color left right
      rw [whole] at size
      cases side with
      | right =>
          subst whole
          rcases stepOk linked low with ⟨none, run⟩ | ⟨path', c', color', right', left', same, next, run⟩
          · have ahead := congrArg List.length none
            simp only [Path.rim, Shape.toward, List.length_append, Shape.lengthCells, List.length_nil] at ahead
            have last : ¬ path.before.length + left.size + 1 < (path.fill (.fork .right c color right left)).size := by omega
            refine ⟨_, run, ?_⟩
            rw [Spot.step, if_neg last]
            exact .off
          · have ahead := congrArg List.length next
            simp only [Path.rim, Shape.toward, List.length_append, List.length_cons, Shape.lengthCells] at ahead
            have size' := sizeRow path' c' color' left' right'
            rw [same] at size'
            have further : path.before.length + left.size + 1 < (path.fill (.fork .right c color right left)).size := by omega
            have index : path.before.length + left.size + 1 = path'.before.length + left'.size := by omega
            refine ⟨_, run, ?_⟩
            rw [Spot.step, if_pos further, index]
            exact .on same
      | left =>
          have mirrored : path.fill (.fork .left c color left right) = s := by
            rw [← whole, ← Shape.forkOpposite]
            rfl
          subst mirrored
          rcases stepOk linked low with ⟨none, run⟩ | ⟨path', c', color', left', right', same, next, run⟩
          · have ahead := congrArg List.length none
            simp only [Path.rim, Shape.toward, List.length_append, List.length_reverse, Shape.lengthCells,
              List.length_nil] at ahead
            refine ⟨_, run, ?_⟩
            rw [Spot.step, if_pos (by omega)]
            exact .off
          · have ahead := congrArg List.length next
            simp only [Path.rim, Shape.toward, List.length_append, List.length_cons, List.length_reverse,
              Shape.lengthCells] at ahead
            have index : path.before.length + left.size - 1 = path'.before.length + left'.size := by omega
            refine ⟨_, run, ?_⟩
            rw [Spot.step, if_neg (by omega), index]
            have mirrored : path'.fill (.fork .right c' color' right' left') = path.fill (.fork .left c color left right) := by
              rw [← same, ← Shape.forkOpposite]
              rfl
            exact .on mirrored

theorem Marks.atEnd (linked : Linked t s) (low : s.height ≤ heightLimit + 1) (side : Side) :
    ∃ c, atEnd t side = pure c ∧ Marks t s (.atEnd s.size side) c := by
  rcases atEndOk linked low side with ⟨rfl, run⟩ | ⟨path, c, color, far, rfl, outer, run⟩
  · refine ⟨_, run, ?_⟩
    cases side <;> exact .off
  · refine ⟨_, run, ?_⟩
    cases side with
    | left =>
        have outer : path.before.reverse = [] := outer
        have mirrored : Path.fill path (.fork .right c color far .leaf) = path.fill (.fork .left c color .leaf far) := by
          rw [← Shape.forkOpposite]
          rfl
        have size := sizeRow path c color .leaf far
        have first : Spot.atEnd (path.fill (.fork .left c color .leaf far)).size .left =
            .attached (some (path.before.length + (Shape.leaf : Shape K V).size)) := by
          rw [← mirrored, Spot.atEnd, if_neg (by omega)]
          simp [List.reverse_eq_nil_iff.mp outer, Shape.size]
        rw [first]
        exact .on mirrored
    | right =>
        have outer : path.after = [] := outer
        have size := sizeRow path c color far .leaf
        simp only [outer, Shape.size, List.length_nil] at size
        have last : Spot.atEnd (path.fill (.fork .right c color .leaf far)).size .right =
            .attached (some (path.before.length + far.size)) := by
          rw [Spot.atEnd, if_neg (by omega)]
          simp only [size, Spot.attached.injEq, Option.some.injEq]
          omega
        rw [last]
        exact .on rfl

theorem Marks.move (marks : Marks t s spot c) (linked : Linked t s) (low : s.height ≤ heightLimit + 1) (move : Move) :
    ∃ c', c.move t move = pure c' ∧ Marks t s (spot.move s.size move) c' := by
  cases move with
  | first => exact Marks.atEnd linked low .left
  | last => exact Marks.atEnd linked low .right
  | next => exact marks.step linked low .right
  | prev => exact marks.step linked low .left
  | step side => exact marks.step linked low side
  | detach => exact ⟨_, rfl, .detached⟩

theorem Marks.moves (marks : Marks t s spot c) (linked : Linked t s) (low : s.height ≤ heightLimit + 1)
    (moves : List Move) :
    ∃ c', moves.foldlM (Cursor.move t) c = pure c' ∧ Marks t s (moves.foldl (Spot.move s.size) spot) c' := by
  induction moves generalizing spot c with
  | nil => exact ⟨c, rfl, marks⟩
  | cons move rest ih =>
      obtain ⟨c₁, run, marks₁⟩ := marks.move linked low move
      obtain ⟨c₂, run', marks₂⟩ := ih marks₁
      exact ⟨c₂, by rw [List.foldlM_cons, run, pure_bind, run'], marks₂⟩

theorem Marks.back (marks : Marks t s spot c) (linked : Linked t s) (low : s.height ≤ heightLimit + 1) {side : Side}
    {c' : Cursor σ} (run : c.step side = pure c') (inside : c'.current ≠ none) : c'.step side.opposite = pure c := by
  obtain ⟨there, run', marks'⟩ := marks.step linked low side
  obtain rfl : c' = there := Except.ok.inj (congrArg Traced.result (run.symm.trans run'))
  obtain ⟨again, back, marks''⟩ := marks'.step linked low side.opposite
  have same : (spot.step s.size side).step s.size side.opposite = spot := by
    cases marks with
    | detached => rfl
    | off => rfl
    | @on path c color left right whole =>
        have size := sizeRow path c color left right
        rw [whole] at size
        cases side with
        | right =>
            by_cases further : path.before.length + left.size + 1 < s.size
            · simp [Spot.step, further, Side.opposite]
            · rw [Spot.step, if_neg further] at marks'
              cases marks'
              exact absurd rfl inside
        | left =>
            by_cases front : path.before.length + left.size = 0
            · rw [Spot.step, if_pos front] at marks'
              cases marks'
              exact absurd rfl inside
            · have further : path.before.length + left.size - 1 + 1 < s.size := by omega
              have index : path.before.length + left.size - 1 + 1 = path.before.length + left.size := by omega
              rw [Spot.step, if_neg front, Side.opposite, Spot.step, if_pos further, index]
  rw [same] at marks''
  rw [back, marks''.placed linked.once, marks.placed linked.once]

omit [Storage σ K V] in
theorem pathPlaced (t : Tree σ) (s : Shape K V) (spot : Spot) :
    (∀ id, (placed t s spot).current = some id → (placed t s spot).path.reverse = s.ancestors id) ∧
      ((placed t s spot).current = none → (placed t s spot).path = []) := by
  unfold placed
  split
  · simp [detached]
  · simp [off]
  · split
    · simp
    · simp [off]

/-- Every run of moves over a tree that is not too tall ends without a fault where the index into its row of
nodes says; the path holds the ancestors of the current node, and a step is undone by the opposite one. -/
theorem cursorIsIndex (linked : Linked t s) (low : s.height ≤ heightLimit + 1) (moves : List Move) :
    ∃ c : Cursor σ, moves.foldlM (Cursor.move t) .detached = pure c ∧
      c = placed t s (moves.foldl (Spot.move s.size) .detached) ∧
      (∀ id, c.current = some id → c.path.reverse = s.ancestors id) ∧ (c.current = none → c.path = []) ∧
      ∀ side c', c.step side = pure c' → c'.current ≠ none → c'.step side.opposite = pure c := by
  obtain ⟨c, run, marks⟩ := Marks.moves .detached linked low moves
  have here := marks.placed linked.once
  have path := pathPlaced t s (moves.foldl (Spot.move s.size) .detached)
  rw [← here] at path
  exact ⟨c, run, here, path.1, path.2, fun side c' step inside => marks.back linked low step inside⟩

def redThree : Tree (Array (Node Nat Nat)) :=
  ⟨some ⟨0⟩, #[⟨.red, some ⟨1⟩, some ⟨2⟩, 2, 20⟩, ⟨.red, none, none, 1, 10⟩, ⟨.black, none, none, 3, 30⟩]⟩

theorem cursorOverThree :
    ∃ c : Cursor (Array (Node Nat Nat)),
      [.last, .prev, .step .left, .next].foldlM (Cursor.move redThree) .detached = pure c ∧
      c.current = some ⟨0⟩ ∧ ∀ side c', c.step side = pure c' → c'.current ≠ none → c'.step side.opposite = pure c := by
  have linked : Linked redThree
      (.node ⟨0⟩ .red (.node ⟨1⟩ .red .leaf 1 10 .leaf) 2 20 (.node ⟨2⟩ .black .leaf 3 30 .leaf)) := by
    refine ⟨Spells.nodeIff.mpr ⟨rfl, rfl, ?_, ?_⟩, by decide⟩
    · exact Spells.nodeIff.mpr ⟨rfl, rfl, .leaf, .leaf⟩
    · exact Spells.nodeIff.mpr ⟨rfl, rfl, .leaf, .leaf⟩
  obtain ⟨c, run, here, -, -, back⟩ := cursorIsIndex linked (by decide) [.last, .prev, .step .left, .next]
  exact ⟨c, run, by rw [here]; rfl, back⟩

end Cursor

end RedBlack
