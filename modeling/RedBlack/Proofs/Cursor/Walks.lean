import RedBlack.Walk
import RedBlack.Proofs.Balance
import RedBlack.Proofs.Cursor.Moves

/-! A walk toward a side lists the entries of a tree that is not too tall, and never runs out of steps: a tree
of a height has fewer nodes than the steps allowed. -/
namespace RedBlack

theorem Shape.lengthToward {K V : Type} (side : Side) (s : Shape K V) : (s.toward side).length = s.size := by
  cases side <;> simp [toward]

open RedBlack.Tree (Linked)

namespace Cursor
variable {σ K V : Type} [Storage σ K V] {t : Tree σ} {s : Shape K V} {side : Side}

inductive Along (t : Tree σ) (s : Shape K V) (side : Side) : List (Cell K V) → Cursor σ → Prop where
  | off : Along t s side [] (off t)
  | on {path : Path K V} {c : Cell K V} {color : Color} {near far : Shape K V} {next : Cursor σ} {row : List (Cell K V)}
      (place : path.fill (.fork side c color near far) = s) (step : (on t path c).step side = pure next)
      (rest : Along t s side row next) : Along t s side (c :: row) (on t path c)

section
variable (linked : Linked t s) (low : s.height ≤ heightLimit + 1)
include linked low

theorem alongRow {path : Path K V} {c : Cell K V} {color : Color} {near far : Shape K V}
    (place : path.fill (.fork side c color near far) = s) :
    Along t s side (c :: (near.toward side ++ path.rim side)) (on t path c) := by
  generalize row : near.toward side ++ path.rim side = ahead
  induction ahead generalizing path c color near far with
  | nil =>
      subst place
      rcases stepOk linked low with ⟨-, step⟩ | ⟨_, _, _, _, _, -, next, -⟩
      · exact .on rfl step .off
      · rw [row] at next
        cases next
  | cons c' ahead ih =>
      subst place
      rcases stepOk linked low with ⟨last, -⟩ | ⟨path', c₁, color', near', far', same, next, step⟩
      · rw [row] at last
        cases last
      · rw [row] at next
        obtain ⟨rfl, rest⟩ := List.cons.inj next
        exact .on rfl step (ih same rest.symm)

theorem alongWhole (side : Side) : ∃ c, atEnd t side.opposite = pure c ∧ Along t s side (s.toward side) c := by
  rcases atEndOk linked low side.opposite with ⟨rfl, run⟩ | ⟨path, c, color, near, rfl, outer, run⟩
  · rw [Shape.towardLeaf]
    exact ⟨_, run, .off⟩
  · rw [Path.towardEnd outer]
    exact ⟨_, run, alongRow linked low (by rw [Shape.forkOpposite])⟩

end

end Cursor

namespace Walk
variable {σ K V : Type} [Storage σ K V] {t : Tree σ} {s : Shape K V} {side : Side} {cursor : Cursor σ} {c : Cell K V}
  {row : List (Cell K V)}

open Cursor (Along)

theorem nextOff (along : Along t s side [] cursor) : (⟨cursor, side⟩ : Walk σ).next = pure (none, ⟨cursor, side⟩) := by
  cases along
  rfl

theorem nextOn (linked : Linked t s) (along : Along t s side (c :: row) cursor) :
    ∃ cursor', (⟨cursor, side⟩ : Walk σ).next = pure (some c.entry, ⟨cursor', side⟩) ∧ Along t s side row cursor' := by
  cases along with
  | @on path _ color near far cursor' _ place step rest =>
      subst place
      obtain ⟨-, read, -, -⟩ := Spells.forkIff.mp linked.focus
      have entry : (Cursor.on t path c).entry = .ok (some c.entry) := by
        simp [Cursor.entry, Cursor.on, Storage.nodeOk read, Except.map, Node.entry, Cell.entry]
      refine ⟨cursor', ?_, rest⟩
      simp only [Walk.next, entry, Traced.liftMEqLift, Traced.liftOkBind, step, pure_bind]

theorem collectOk (linked : Linked t s) (along : Along t s side row cursor) {steps : Nat} (enough : row.length < steps) :
    collect steps (⟨cursor, side⟩ : Walk σ) = pure (row.map Cell.entry) := by
  induction row generalizing cursor steps with
  | nil =>
      obtain ⟨steps, rfl⟩ : ∃ fewer, steps = fewer + 1 := ⟨steps - 1, by omega⟩
      rw [collect, nextOff along]
      rfl
  | cons c row ih =>
      rw [List.length_cons] at enough
      obtain ⟨steps, rfl⟩ : ∃ fewer, steps = fewer + 1 := ⟨steps - 1, by omega⟩
      obtain ⟨cursor', next, rest⟩ := nextOn linked along
      have tail : collect steps (⟨cursor', side⟩ : Walk σ) = pure (row.map Cell.entry) := ih rest (by omega)
      rw [collect, next, pure_bind]
      simp only [tail, pure_bind, List.map_cons]

theorem startOk (linked : Linked t s) (low : s.height ≤ heightLimit + 1) (side : Side) :
    ∃ cursor, start t side = pure ⟨cursor, side⟩ ∧ Along t s side (s.toward side) cursor := by
  obtain ⟨cursor, run, along⟩ := Cursor.alongWhole linked low side
  exact ⟨cursor, by rw [start, run, pure_bind], along⟩

end Walk

theorem Tree.Linked.entries {σ K V : Type} [Storage σ K V] {t : Tree σ} {s : Shape K V} (linked : Linked t s)
    (low : s.height ≤ heightLimit + 1) (side : Side) : t.entries side = pure ((s.toward side).map Cell.entry) := by
  have few : s.size + 1 < Nat.pow 2 (heightLimit + 2) :=
    calc s.size + 1 ≤ 2 ^ s.height := s.sizeLtPow
      _ ≤ 2 ^ (heightLimit + 1) := Nat.pow_le_pow_right (by decide) low
      _ < Nat.pow 2 (heightLimit + 2) := by decide
  obtain ⟨cursor, run, along⟩ := Walk.startOk linked low side
  have enough : (s.toward side).length < Nat.pow 2 (heightLimit + 2) := by
    rw [Shape.lengthToward]
    omega
  rw [Tree.entries, run, pure_bind, Walk.toList, Walk.collectOk linked along enough]

end RedBlack
