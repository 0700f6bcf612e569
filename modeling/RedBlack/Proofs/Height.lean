import RedBlack.Proofs.Cursor.Walks
import RedBlack.Proofs.Cursor.Index
import RedBlack.Proofs.Runs
import RedBlack.Proofs.Validation

/-! Balanced trees are low: their height is at most twice the logarithm of their size. Below 2³² nodes every way
down fits into the path of a cursor and into the levels that validation accepts. -/
namespace RedBlack

open RedBlack.Tree (Linked)

namespace Walk
variable {σ K V : Type} [Storage σ K V] {t : Tree σ} {s : Shape K V} {spot : Spot} {w : Walk σ}

def skip : Nat → Walk σ → Traced (Walk σ)
  | 0, w => return w
  | steps + 1, w => do
      let (_, w) ← w.next
      skip steps w

open Cursor (Marks)

section
variable (linked : Linked t s) (low : s.height ≤ heightLimit + 1)
include linked low

theorem nextMarks (marks : Marks t s spot w.cursor) :
    ∃ entry w' spot', w.next = pure (entry, w') ∧ Marks t s spot' w'.cursor := by
  obtain ⟨c', step, marks'⟩ := marks.step linked low w.side
  obtain ⟨entry, read⟩ : ∃ entry, w.cursor.entry = .ok entry := by
    generalize w.cursor = cursor at marks
    cases marks with
    | detached => exact ⟨none, rfl⟩
    | off => exact ⟨none, rfl⟩
    | @on path c color left right whole =>
        subst whole
        obtain ⟨-, here, -⟩ := Spells.forkIff.mp linked.focus
        exact ⟨_, by simp [Cursor.entry, Cursor.on, Storage.nodeOk here, Except.map]; rfl⟩
  cases entry with
  | none => exact ⟨none, w, spot, by simp [next, read, Traced.pureEq], marks⟩
  | some e => exact ⟨some e, ⟨c', w.side⟩, _, by simp only [next, read, Traced.liftMEqLift, Traced.liftOkBind, step, pure_bind], marks'⟩

theorem skipMarks (marks : Marks t s spot w.cursor) (steps : Nat) : ∃ w', skip steps w = pure w' := by
  induction steps generalizing w spot with
  | zero => exact ⟨w, rfl⟩
  | succ steps ih =>
      obtain ⟨entry, w₁, spot₁, next, marks₁⟩ := nextMarks linked low marks
      obtain ⟨w₂, rest⟩ := ih marks₁
      refine ⟨w₂, ?_⟩
      rw [skip, next, pure_bind]
      exact rest

theorem startMarks (side : Side) : ∃ w spot, start t side = pure w ∧ Marks t s spot w.cursor := by
  obtain ⟨c, run, marks⟩ := Marks.atEnd linked low side.opposite
  exact ⟨⟨c, side⟩, _, by rw [start, run, pure_bind], marks⟩

end

end Walk

namespace Tree
variable {σ K V : Type} [Storage σ K V]

structure Low (t : Tree σ) (s : Shape K V) : Prop where
  height : t.height = .ok s.height ∧ 2 ^ s.height ≤ (s.ids.length + 1) ^ 2
  validates : s.ids.length < 2 ^ 32 → ∀ policy : Policy K, ∃ verdict, t.validate policy = .ok verdict ∧
    ∀ depth limit, verdict ≠ .error (.tooDeep depth limit)
  cursors : s.ids.length < 2 ^ 32 → ∀ moves : List Move, ∃ c, moves.foldlM (Cursor.move t) .detached = pure c
  walks : s.ids.length < 2 ^ 32 → ∀ side steps, ∃ w, (Walk.start t side >>= Walk.skip steps) = pure w

variable {t : Tree σ} {s : Shape K V}

theorem Linked.notTooDeep (linked : Linked t s) (low : s.height ≤ heightLimit) (policy : Policy K) :
    ∃ verdict, t.validate policy = .ok verdict ∧ ∀ depth limit, verdict ≠ .error (.tooDeep depth limit) := by
  have root : ∀ id, t.root = some id → id ∈ s.ids := fun id top => Shape.linkMem (linked.spells.linkEq ▸ top)
  obtain ⟨verdict, run, raised⟩ := validateReturns policy linked.closed root
  refine ⟨verdict, run, fun depth limit same => ?_⟩
  obtain ⟨-, -, passed, last, way, long⟩ := raised _ same
  have short := way.lengthLeHeight linked.spells
  omega

theorem Linked.low (linked : Linked t s) (balanced : s.Balanced) : Low t s := by
  have count : s.ids.length = s.size := s.lengthIds
  have fits : s.ids.length < 2 ^ 32 → s.height ≤ heightLimit := fun few => balanced.withinLimit (count ▸ few)
  refine ⟨⟨linked.height, count ▸ balanced.powHeightLe⟩, fun few => linked.notTooDeep (fits few), fun few moves => ?_,
    fun few side steps => ?_⟩
  · obtain ⟨c, run, -⟩ := Cursor.Marks.moves .detached linked (Nat.le_succ_of_le (fits few)) moves
    exact ⟨c, run⟩
  · have room := Nat.le_succ_of_le (fits few)
    obtain ⟨w, spot, started, marks⟩ := Walk.startMarks linked room side
    obtain ⟨w', rest⟩ := Walk.skipMarks linked room marks steps
    exact ⟨w', by rw [started, pure_bind, rest]⟩

theorem everyBalancedTreeLow :
    (∀ (t : Tree σ) (s : Shape K V), Linked t s → s.Balanced → Low t s) ∧
      ∀ (policy : Policy K) (t : Tree σ), Reached policy t → ∃ s : Shape K V, Linked t s ∧ Low t s := by
  refine ⟨fun t s linked balanced => linked.low balanced, fun policy t reached => ?_⟩
  obtain ⟨s, sound⟩ := reached.sound
  exact ⟨s, sound.linked, sound.linked.low sound.balanced⟩

def fourLow : Tree (Array (Node Nat Unit)) :=
  ⟨some ⟨0⟩, #[⟨.black, some ⟨1⟩, some ⟨2⟩, 20, ()⟩, ⟨.black, some ⟨3⟩, none, 10, ()⟩, ⟨.black, none, none, 30, ()⟩,
    ⟨.red, none, none, 5, ()⟩]⟩

def fourLowShape : Shape Nat Unit :=
  .node ⟨0⟩ .black (.node ⟨1⟩ .black (.node ⟨3⟩ .red .leaf 5 () .leaf) 10 () .leaf) 20 () (.node ⟨2⟩ .black .leaf 30 () .leaf)

def oneLow : Tree (Array (Node Nat Unit)) := ⟨some ⟨0⟩, #[⟨.black, none, none, 7, ()⟩]⟩

theorem lowOverFour : Low fourLow fourLowShape ∧ ∃ s : Shape Nat Unit, Linked oneLow s ∧ Low oneLow s := by
  have linked : Linked fourLow fourLowShape := by
    refine ⟨Spells.nodeIff.mpr ⟨rfl, rfl, Spells.nodeIff.mpr ⟨rfl, rfl, ?_, .leaf⟩, ?_⟩, by decide⟩
    · exact Spells.nodeIff.mpr ⟨rfl, rfl, .leaf, .leaf⟩
    · exact Spells.nodeIff.mpr ⟨rfl, rfl, .leaf, .leaf⟩
  have balanced : fourLowShape.Balanced :=
    ⟨rfl, by simp [fourLowShape, Shape.NoRedRed, Shape.color], 2, by simp [fourLowShape, Shape.BlackHeight]⟩
  have started : Reached (.natural : Policy Nat) (.rootless #[⟨.red, none, some ⟨4⟩, 7, ()⟩] : Tree (Array (Node Nat Unit))) :=
    .start _
  have reached : Reached .natural oneLow :=
    started.insert (soundRootless .natural _).linked rfl (by decide : (⟨0⟩ : NodeId) ∉ Shape.ids .leaf) rfl
  exact ⟨everyBalancedTreeLow.1 _ _ linked balanced, everyBalancedTreeLow.2 _ _ reached⟩

end Tree

end RedBlack
