import RedBlack.Proofs.Search
import RedBlack.Proofs.Cursor.Walks
import RedBlack.Proofs.Cursor.Capacity

/-! Four walks over one tree: the two orders of an iterator, the count and the height from their stacks, and a cursor
that reports its depth. Whatever the colors and the keys, they see the same nodes at the same depths. -/
namespace RedBlack

open RedBlack.Tree (Linked)
open RedBlack.Cursor (Along)

section
variable {α : Type}

def answers (row : List α) (calls : Nat) : List (Option α) := (List.range calls).map fun i => row[i]?

theorem answersEmpty (calls : Nat) : answers ([] : List α) (calls + 1) = none :: answers [] calls := by
  simp [answers, List.replicate_succ]

theorem answersMore (a : α) (row : List α) (calls : Nat) : answers (a :: row) (calls + 1) = some a :: answers row calls := by
  simp [answers, List.range_succ_eq_map]

end

namespace Walk
variable {σ K V : Type} [Storage σ K V] {t : Tree σ} {s : Shape K V} {side : Side}

def draw : Nat → Walk σ → Traced (List (Option (K × V)))
  | 0, _ => return []
  | calls + 1, w => do
      let (entry, w) ← w.next
      return entry :: (← draw calls w)

theorem drawOk (linked : Linked t s) {cursor : Cursor σ} {row : List (Cell K V)} (along : Along t s side row cursor) (calls : Nat) :
    draw calls (⟨cursor, side⟩ : Walk σ) = pure (answers (row.map Cell.entry) calls) := by
  induction calls generalizing row cursor with
  | zero => rfl
  | succ calls ih =>
      cases row with
      | nil =>
          rw [draw, nextOff along, pure_bind, List.map_nil, answersEmpty]
          simp only [ih along, pure_bind, List.map_nil]
      | cons c row =>
          obtain ⟨cursor', next, rest⟩ := nextOn linked along
          rw [draw, next, pure_bind, List.map_cons, answersMore]
          simp only [ih rest, pure_bind]

theorem drawWhole (linked : Linked t s) (low : s.height ≤ heightLimit + 1) (side : Side) (calls : Nat) :
    (start t side >>= draw calls) = pure (answers ((s.toward side).map Cell.entry) calls) := by
  obtain ⟨cursor, run, along⟩ := startOk linked low side
  rw [run, pure_bind, drawOk linked along]

end Walk

namespace Shape
variable {K V : Type} {s : Shape K V}

def depth (s : Shape K V) (id : NodeId) : Nat := (s.ancestors id).length

theorem depthLtHeight (once : s.ids.Nodup) {id : NodeId} (member : id ∈ s.ids) : s.depth id + 1 ≤ s.height := by
  rw [idsEqCells] at member
  obtain ⟨c, inside, rfl⟩ := List.mem_map.mp member
  obtain ⟨path, color, left, right, rfl⟩ := Path.placeOf inside
  have here := Path.lengthLtHeight path (s := .fork .right c color right left)
  rw [heightFork] at here
  rw [depth, Path.lengthAncestors once]
  omega

theorem heightDepths (once : s.ids.Nodup) : s.height = (s.ids.map s.depth).max?.elim 0 (· + 1) := by
  by_cases empty : s = leaf
  · subst empty
    rfl
  · obtain ⟨path, c, color, near, far, rfl, deep⟩ := s.deepest empty
    have inside : c.id ∈ (path.fill (.fork .right c color near far)).ids := Path.memFill.mpr (.inl (by simp))
    have largest : ((path.fill (.fork .right c color near far)).ids.map (path.fill (.fork .right c color near far)).depth).max? =
        some path.length := by
      refine List.max?_eq_some_iff.mpr ⟨List.mem_map.mpr ⟨c.id, inside, Path.lengthAncestors once⟩, ?_⟩
      intro depth member
      obtain ⟨id, inside', rfl⟩ := List.mem_map.mp member
      have higher := depthLtHeight once inside'
      omega
    rw [largest, ← deep]
    rfl

end Shape

namespace Cursor
variable {σ K V : Type} [Storage σ K V] {t : Tree σ} {s : Shape K V}

def survey : Nat → Cursor σ → Traced (List Nat)
  | 0, _ => Traced.fail .endless
  | steps + 1, c =>
      match c.current with
      | none => return []
      | some _ => do return c.depth :: (← survey steps (← c.next))

theorem surveyOk (linked : Linked t s) {c : Cursor σ} {row : List (Cell K V)} (along : Along t s .right row c) {steps : Nat}
    (enough : row.length < steps) : survey steps c = pure (row.map fun cell => s.depth cell.id) := by
  induction along generalizing steps with
  | off =>
      obtain ⟨steps, rfl⟩ : ∃ fewer, steps = fewer + 1 := ⟨steps - 1, by omega⟩
      rfl
  | @on path cell color near far next row place step rest ih =>
      rw [List.length_cons] at enough
      obtain ⟨steps, rfl⟩ : ∃ fewer, steps = fewer + 1 := ⟨steps - 1, by omega⟩
      have here : (on t path cell).depth = s.depth cell.id := by
        subst place
        rw [Shape.depth, Path.lengthAncestors linked.once]
        simp [on, depth, Path.ids]
      have tail : survey steps next = pure (row.map fun cell => s.depth cell.id) := ih (by omega)
      change (do return (on t path cell).depth :: (← survey steps (← (on t path cell).next))) = _
      rw [Cursor.next, step, pure_bind, tail, pure_bind, here, List.map_cons]

theorem surveyWhole (linked : Linked t s) (low : s.height ≤ heightLimit + 1) {steps : Nat} (enough : s.size < steps) :
    (first t >>= survey steps) = pure (s.ids.map s.depth) := by
  obtain ⟨c, run, along⟩ := alongWhole linked low .right
  have run : first t = pure c := run
  rw [run, pure_bind, surveyOk linked along (by rwa [Shape.lengthToward]), Shape.idsEqCells, List.map_map]
  rfl

theorem everyTraversalAgrees (linked : Linked t s) (low : s.height ≤ heightLimit + 1) :
    (∀ calls, (Walk.start t .right >>= Walk.draw calls) = pure (answers s.entries calls)) ∧
      (∀ calls, (Walk.start t .left >>= Walk.draw calls) = pure (answers s.entries.reverse calls)) ∧
      t.size = .ok s.entries.length ∧
      ∃ depths, (∀ steps, s.size < steps → (first t >>= survey steps) = pure depths) ∧ depths.length = s.entries.length ∧
        t.height = .ok (depths.max?.elim 0 (· + 1)) := by
  have ascending : (s.toward .right).map Cell.entry = s.entries := s.entriesEqCells.symm
  have descending : (s.toward .left).map Cell.entry = s.entries.reverse := by
    rw [Shape.toward, List.map_reverse, s.entriesEqCells]
  refine ⟨fun calls => ?_, fun calls => ?_, ?_, s.ids.map s.depth, fun steps enough => surveyWhole linked low enough, ?_, ?_⟩
  · rw [Walk.drawWhole linked low, ascending]
  · rw [Walk.drawWhole linked low, descending]
  · rw [linked.size, Shape.lengthEntries]
  · simp
  · rw [linked.height, Shape.heightDepths linked.once]

def crooked : Tree (Array (Node Nat Nat)) :=
  ⟨some ⟨0⟩, #[⟨.red, some ⟨1⟩, some ⟨2⟩, 5, 50⟩, ⟨.red, none, some ⟨3⟩, 9, 90⟩, ⟨.black, none, none, 5, 51⟩,
    ⟨.red, none, none, 1, 10⟩]⟩

theorem crookedTraversalsAgree :
    (Walk.start crooked .right >>= Walk.draw 5) = pure [some (9, 90), some (1, 10), some (5, 50), some (5, 51), none] ∧
      (Walk.start crooked .left >>= Walk.draw 2) = pure [some (5, 51), some (5, 50)] ∧ crooked.size = .ok 4 ∧
      ∃ depths, (first crooked >>= survey 5) = pure depths ∧ crooked.height = .ok (depths.max?.elim 0 (· + 1)) := by
  have linked : Linked crooked
      (.node ⟨0⟩ .red (.node ⟨1⟩ .red .leaf 9 90 (.node ⟨3⟩ .red .leaf 1 10 .leaf)) 5 50 (.node ⟨2⟩ .black .leaf 5 51 .leaf)) := by
    refine ⟨Spells.nodeIff.mpr ⟨rfl, rfl, ?_, ?_⟩, by decide⟩
    · exact Spells.nodeIff.mpr ⟨rfl, rfl, .leaf, Spells.nodeIff.mpr ⟨rfl, rfl, .leaf, .leaf⟩⟩
    · exact Spells.nodeIff.mpr ⟨rfl, rfl, .leaf, .leaf⟩
  obtain ⟨ascending, descending, size, depths, surveyed, -, height⟩ := everyTraversalAgrees linked (by decide)
  exact ⟨ascending 5, descending 2, size, depths, surveyed 5 (by decide), height⟩

end Cursor

end RedBlack
