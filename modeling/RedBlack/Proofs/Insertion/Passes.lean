import RedBlack.Proofs.Insertion.Colors

/-! Whole passes of an insertion: one starts at the root of every balanced shape, ends soon, and hangs the new
node where a plain descent of the shape before would have hung it. -/
namespace RedBlack

namespace Insertion
variable {K V : Type} {order : K → Ordering} {new : Cell K V} {stage stage' : Stage} {z z' : Place K V}
  {log : List Event}

theorem progress (new : Cell K V) (stands : At order stage z) (noRedRed : z.shape.NoRedRed) :
    (stage = .ready ∧ ∃ log s, Ends new z log s) ∨ ∃ log stage' z', Step order stage z log stage' z' := by
  obtain ⟨path, focus⟩ := z
  obtain ⟨up, focusOk⟩ := (Path.noRedRedFill path).mp noRedRed
  cases stage with
  | returning =>
      obtain ⟨⟨f, above, rfl, black⟩, side, c, near, far, rfl, turn, quiet⟩ := stands
      have idle : near.color = .black := by
        cases near with
        | leaf => rfl
        | node => exact quiet.1
      exact .inr ⟨_, _, _, .walk turn (.inl idle) (.inl black)⟩
  | quiet =>
      obtain rfl | ⟨side, c, color, near, far, turn, rfl⟩ := focus.turnCases order
      · exact stands.elim
      · obtain ⟨black, idle⟩ := Shape.quietFork.mp stands
        exact .inr ⟨_, _, _, .walk turn idle (.inr black)⟩
  | ready =>
      have stands : Ready ⟨path, focus⟩ := stands
      -- under a red parent nothing red hangs yet, and above it there is a grandparent
      have parents : path.color = .black ∨
          ∃ p g above, path = p :: g :: above ∧ p.color = .red ∧ (p.side = g.side ∨ p.side = g.side.opposite) := by
        match path, stands with
        | [], _ => exact .inl rfl
        | [f], stands => exact .inl (stands.lone f rfl)
        | p :: g :: above, _ =>
            cases red : p.color with
            | black => exact .inl red
            | red => exact .inr ⟨p, g, above, rfl, red, by cases p.side <;> cases g.side <;> simp [Side.opposite]⟩
      obtain rfl | ⟨side, c, color, near, far, turn, rfl⟩ := focus.turnCases order
      · left
        obtain calm | ⟨p, g, above, rfl, redParent, straight | bent⟩ := parents
        · exact ⟨rfl, _, _, .plain calm⟩
        · exact ⟨rfl, _, _, .single redParent straight⟩
        · exact ⟨rfl, _, _, .double redParent bent⟩
      · right
        by_cases idle : near.color = .black ∨ far.color = .black
        · refine ⟨_, _, _, .walk turn idle ?_⟩
          cases path with
          | nil => exact .inl rfl
          | cons f above =>
              cases red : f.color with
              | black => exact .inl red
              | red => exact .inr (by simpa using (up.1 red).1)
        · obtain ⟨redNear, redFar⟩ : near.color = .red ∧ far.color = .red := by
            simpa [Color.eqBlackIff] using idle
          obtain calm | ⟨p, g, above, rfl, redParent, straight | bent⟩ := parents
          · exact ⟨_, _, _, .flip turn redNear redFar calm⟩
          · exact ⟨_, _, _, .single turn redNear redFar redParent straight⟩
          · by_cases away : g.side = side
            · exact ⟨_, _, _, .double turn redNear redFar redParent (.inl ⟨rfl, rfl⟩) (away ▸ bent) away⟩
            · have back := Side.eqOpposite away
              exact ⟨_, _, _, .double turn redNear redFar redParent (.inr ⟨rfl, rfl⟩) back (by simp [bent, back])⟩

def remaining (order : K → Ordering) : Stage → Place K V → Nat
  | .returning, z => 2 * z.focus.descent order
  | _, z => 2 * z.focus.descent order + 1

theorem Step.remaining (step : Step order stage z log stage' z') (follows : z.path.Follows order) :
    remaining order stage' z' < remaining order stage z := by
  cases step with
  | @walk _ path side c color near far turn idle calm =>
      cases stage <;> simp only [Stage.next, Insertion.remaining, Shape.descentFork turn] <;> omega
  | flip turn => simp only [Insertion.remaining, Shape.descentFork turn, Shape.descentBlacken]; omega
  | single turn => simp only [Insertion.remaining, Shape.descentFork turn, Shape.descentBlacken]; omega
  | @double p g q r above side c color near far turn redNear redFar redParent pair back away =>
      have onward : Side.toward (order q.cell.key) = q.side := by
        obtain ⟨rfl, rfl⟩ | ⟨rfl, rfl⟩ := pair
        · exact follows.head
        · exact follows.tail.head
      simp only [Insertion.remaining, Shape.descentFork turn, Frame.fill, Frame.redden, Shape.descentFork onward,
        Shape.descentBlacken]
      omega

theorem passes (new : Cell K V) (stands : At order stage z) (noRedRed : z.shape.NoRedRed)
    (follows : z.path.Follows order) :
    ∃ rounds log s, Passes order new rounds stage z log s ∧ rounds ≤ remaining order stage z := by
  generalize bound : remaining order stage z = n
  induction n using Nat.strongRecOn generalizing stage z with
  | ind n ih =>
      subst bound
      obtain ⟨rfl, log, s, last⟩ | ⟨log, stage', z', first⟩ := progress new stands noRedRed
      · exact ⟨1, log, s, .ends last, by simp [remaining]⟩
      · have less := first.remaining follows
        obtain ⟨rounds, rest, s, tail, few⟩ := ih _ less (first.at stands noRedRed follows)
          (first.noRedRed stands noRedRed) (first.follows follows) rfl
        exact ⟨rounds + 1, log ++ rest, s, .step first tail, by omega⟩

theorem Ends.cells {s : Shape K V} (ends : Ends new z log s) : s.cells = z.path.before ++ new :: z.path.after := by
  cases ends with
  | plain calm => simp [Path.cellsFill, Cell.sprout, Shape.cells]
  | @single p g above redParent straight =>
      rw [Path.cellsFill]
      cases hg : g.side <;>
        simp [Path.before, Path.after, Cell.sprout, Shape.cells, Frame.over, Frame.fill, Frame.redden, Shape.fork, straight, hg]
  | @double p g above redParent bent =>
      rw [Path.cellsFill]
      cases hg : g.side <;>
        simp [Path.before, Path.after, Shape.cells, Frame.fill, Frame.redden, Shape.fork, bent, hg, Side.opposite]

theorem Step.inner (step : Step order stage z log stage' z') : z.focus ≠ .leaf := by cases step <;> simp

theorem Ends.leaf {s : Shape K V} (ends : Ends new z log s) : z.focus = .leaf := by cases ends <;> rfl

section
variable {rounds : Nat} {s : Shape K V}

theorem Passes.cells (passes : Passes order new rounds stage z log s) (follows : z.path.Follows order) :
    s.cells = (z.shape.cut order).1 ++ new :: (z.shape.cut order).2 := by
  induction passes with
  | @ends z log s last =>
      rw [last.cells, Place.shape, Path.cutFill follows, last.leaf]
      simp [Shape.cut]
  | step first tail ih => rw [ih (first.follows follows), first.cut follows]

theorem Passes.ofLeaf (passes : Passes order new rounds .ready ⟨[], .leaf⟩ log s) : log = [] ∧ s = new.sprout := by
  cases passes with
  | ends last => cases last; exact ⟨rfl, rfl⟩
  | step first tail => exact absurd rfl first.inner

theorem Passes.balance (passes : Passes order new rounds stage z log s) (stands : At order stage z)
    (noRedRed : z.shape.NoRedRed) (follows : z.path.Follows order) {h : Nat} (even : z.shape.BlackHeight h) :
    s.NoRedRed ∧ s.BlackHeight h := by
  induction passes with
  | ends last => exact ⟨last.noRedRed stands noRedRed, last.blackHeight noRedRed even⟩
  | step first tail ih =>
      exact ih (first.at stands noRedRed follows) (first.noRedRed stands noRedRed) (first.follows follows)
        (first.blackHeight noRedRed even)

end

end Insertion

end RedBlack
