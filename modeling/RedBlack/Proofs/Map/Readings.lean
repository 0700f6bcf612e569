import RedBlack.Proofs.Cursor.Walks
import RedBlack.Proofs.Map.State

/-! Operations that only read an ordered map. Searches answer in every map; those that walk need room on the
path of a cursor. -/
namespace RedBlack

namespace OrderedMap.Holds
variable {K V : Type} {policy : Policy K} {m : OrderedMap K V policy} {s : Shape K V} (holds : m.Holds s)
include holds

section
variable [Std.TransCmp policy] (key : K)

theorem reads {id : NodeId} (found : s.find? (policy key) = some id) :
    ∃ n, Storage.get? m.slab id = some n ∧ Row.held? (policy key) s.entries = some n.entry := by
  obtain ⟨c, front, behind, row, rfl, equal, greater, less⟩ := Shape.findSplit (holds.sorted.aligned key) found
  obtain ⟨n, read, entry⟩ := holds.linked.spells.readCell (c := c) (by simp [row])
  refine ⟨n, read, ?_⟩
  rw [Shape.entriesEqCells, row, List.map_append, List.map_cons, Row.heldSingle greater equal, entry]

theorem missing (absent : s.find? (policy key) = none) : Row.held? (policy key) s.entries = none :=
  Shape.heldNone (holds.sorted.aligned key) absent

theorem lookup {α : Type} (f : V → α) :
    m.lookup key f = .ok ((Row.held? (policy key) s.entries).map fun e => f e.2) := by
  cases found : s.find? (policy key) with
  | none =>
      simp only [OrderedMap.lookup, holds.find, found, holds.missing key found, bind, Except.bind]
      rfl
  | some id =>
      obtain ⟨n, read, held⟩ := holds.reads key found
      simp only [OrderedMap.lookup, holds.find, found, Storage.nodeOk read, held, bind, Except.bind]
      rfl

theorem get : m.get? key = .ok ((Row.held? (policy key) s.entries).map Prod.snd) := holds.lookup key id

theorem contains : m.contains key = .ok (Row.held? (policy key) s.entries).isSome := by
  rw [OrderedMap.contains, holds.find]
  cases found : s.find? (policy key) with
  | none => simp [holds.missing key found, Except.map]
  | some id =>
      obtain ⟨n, read, held⟩ := holds.reads key found
      simp [held, Except.map]

end

section
variable (few : m.size < 2 ^ 32)
include few

theorem low : s.height ≤ heightLimit + 1 := holds.balanced.low (holds.size ▸ few)

theorem ascending : m.entries .right = pure s.entries := by
  rw [Shape.entriesEqCells]
  exact holds.linked.entries (holds.low few) .right

theorem descending : m.entries .left = pure s.entries.reverse := by
  rw [Shape.entriesEqCells, ← List.map_reverse]
  exact holds.linked.entries (holds.low few) .left

theorem outermost (side : Side) :
    (do return (← (← m.walk side).next).1 : Traced (Option (K × V))) = pure ((s.toward side).map Cell.entry).head? := by
  obtain ⟨cursor, run, along⟩ := Walk.startOk holds.linked (holds.low few) side
  cases row : s.toward side with
  | nil =>
      rw [row] at along
      rw [walk, run, pure_bind, Walk.nextOff along, pure_bind]
      rfl
  | cons c rest =>
      rw [row] at along
      obtain ⟨cursor', next, -⟩ := Walk.nextOn holds.linked along
      rw [walk, run, pure_bind, next, pure_bind, List.map_cons, List.head?_cons]

theorem first : m.first? = pure s.entries.head? := by
  rw [Shape.entriesEqCells]
  exact holds.outermost few .right

theorem last : m.last? = pure s.entries.getLast? := by
  rw [Shape.entriesEqCells, List.getLast?_eq_head?_reverse, ← List.map_reverse]
  exact holds.outermost few .left

end

end OrderedMap.Holds

end RedBlack
