import RedBlack.Proofs.Map.Refinement
import RedBlack.Proofs.Validation

/-! The slots of an ordered map after any run: each is linked once or free once, and there are as many as were
ever needed at one time. A refused insertion needs a slot too, for the entry it drops. -/
namespace RedBlack

def Answer.reach {K V α : Type} (before after : Nat) : Answer K V α → Nat
  | .inserted (.error _) => before + 1
  | _ => after

def Op.peak {K V α : Type} (peak reach : Nat) : Op K V α → Nat
  | .clear => 0
  | _ => max peak reach

namespace OrderedMap
variable {K V α : Type} {policy : Policy K} {m m' : OrderedMap K V policy} {s s' : Shape K V} {peak : Nat} {op : Op K V α}
  {answer : Answer K V α}

inductive Reached : OrderedMap K V policy → Nat → Prop where
  | start : Reached .empty 0
  | step {α : Type} {m m' : OrderedMap K V policy} {peak : Nat} (op : Op K V α) {answer : Answer K V α}
      (before : Reached m peak) (result : (m.perform op).result = .ok (answer, m')) :
      Reached m' (op.peak peak (answer.reach m.size m'.size))

theorem walkKeeps (walks : op.Walks) (result : (m.perform op).result = .ok (answer, m')) :
    m' = m ∧ ∀ peak, op.peak peak (answer.reach m.size m'.size) = max peak m'.size := by
  have read : ∃ (β : Type) (walk : Traced β) (found : β → Answer K V α), m.perform op = (do return (found (← walk), m)) ∧
      ∀ b peak, op.peak peak ((found b).reach m.size m'.size) = max peak m'.size := by
    cases op with
    | first => exact ⟨_, m.first?, .entry, rfl, fun _ _ => rfl⟩
    | last => exact ⟨_, m.last?, .entry, rfl, fun _ _ => rfl⟩
    | entries side => exact ⟨_, m.entries side, .row, rfl, fun _ _ => rfl⟩
    | _ => exact walks.elim
  obtain ⟨β, walk, found, same, reach⟩ := read
  rw [same] at result
  obtain ⟨b, -, last⟩ := Traced.resultBindEqOk.mp result
  cases last
  exact ⟨rfl, reach b⟩

theorem Holds.peakPerformed (holds : m.Holds s) (holds' : m'.Holds s')
    (entries : s'.entries = (Row.perform policy s.entries op).2) (slots : m'.slab.slotCount = op.slots m.size m.slab.slotCount) :
    op.peak m.slab.slotCount ((Row.perform policy s.entries op).1.reach m.size m'.size) = m'.slab.slotCount := by
  have room : max (op.slots m.size m.slab.slotCount) m'.size = op.slots m.size m.slab.slotCount :=
    Nat.max_eq_left (slots ▸ holds'.sizeLeSlots)
  rw [slots]
  cases op with
  | insert key value =>
      cases held : Row.held? (policy key) s.entries with
      | none =>
          have grown : m'.size = m.size + 1 := by
            rw [← holds'.lengthRow, entries, ← holds.lengthRow]
            simp [Row.perform, held, Row.lengthInsert]
          simp [Row.perform, held, Op.peak, Op.slots, Answer.reach, grown]
      | some e => simp [Row.perform, held, Op.peak, Op.slots, Answer.reach]
  | remove key | removeEntry key =>
      simp only [Row.perform]
      split <;> exact room
  | clear => rfl
  | entries side => cases side <;> exact room
  | _ => exact room

theorem Reached.holds [Std.TransCmp policy] (reached : Reached m peak) : ∃ s, m.Holds s ∧ m.slab.slotCount = peak := by
  induction reached with
  | start => exact ⟨.leaf, holdsEmpty, rfl⟩
  | @step α m m' peak op answer before result ih =>
      obtain ⟨s, holds, rfl⟩ := ih
      by_cases walks : op.Walks
      · obtain ⟨rfl, reach⟩ := walkKeeps walks result
        exact ⟨s, holds, by rw [reach, Nat.max_eq_left holds.sizeLeSlots]⟩
      · obtain ⟨m'', s', run, holds', entries, slots⟩ := holds.performed op fun walk => absurd walk walks
        cases run.symm.trans result
        exact ⟨s', holds', (holds.peakPerformed holds' entries slots).symm⟩

theorem Holds.noStrays (holds : m.Holds s) (linked live : Nat) : m.assertInvariants ≠ .error (.strayNodes linked live) := by
  have root : ∀ id, m.tree.root = some id → id ∈ s.ids := fun id top => Shape.linkMem (holds.linked.spells.linkEq ▸ top)
  obtain ⟨verdict, run, -⟩ := Tree.validateReturns policy holds.linked.closed root
  have size : m.tree.size = .ok m.size := by rw [holds.linked.size, holds.size]
  cases verdict with
  | ok height => simp [assertInvariants, Tree.assertInvariants, run, size, bind, Except.bind, pure, Except.pure]
  | error violation => simp [assertInvariants, Tree.assertInvariants, run, bind, Except.bind, throw, throwThe, MonadExceptOf.throw]

theorem Holds.removeReturns [Std.TransCmp policy] (holds : m.Holds s) (key : K) :
    ∃ answer, (m.removeEntry key).result = .ok answer := by
  by_cases absent : s.find? (policy key) = none
  · exact ⟨_, holds.removeMissing absent⟩
  · obtain ⟨entry, m', s', run, -⟩ := holds.removeHeld absent
    exact ⟨_, run⟩

theorem everySlotAccounted [Std.TransCmp policy] (reached : Reached m peak) :
    (∃ s : Shape K V, Tree.Linked m.tree s ∧ ∀ id, id ∈ s.ids ↔ (m.slab.get? id).isSome) ∧
      (m.slab.free.Nodup ∧ ∀ id, id ∈ m.slab.free ↔ id.index < m.slab.slotCount ∧ m.slab.get? id = none) ∧
      (m.tree.size = .ok m.size ∧ (m.size = 0 ↔ m.isEmpty)) ∧
      (∀ key, ∃ answer, (m.removeEntry key).result = .ok answer) ∧
      (∀ linked live, m.assertInvariants ≠ .error (.strayNodes linked live)) ∧
      m.slab.slotCount = peak := by
  obtain ⟨s, holds, slots⟩ := reached.holds
  have size : m.tree.size = .ok m.size := by rw [holds.linked.size, holds.size]
  have empty : m.size = 0 ↔ m.isEmpty := by rw [holds.isEmpty, ← holds.lengthRow, List.length_eq_zero_iff, List.isEmpty_iff]
  exact ⟨⟨s, holds.linked, holds.aliveIff⟩, ⟨holds.kept.once, holds.kept.dead⟩, ⟨size, empty⟩, holds.removeReturns,
    holds.noStrays, slots⟩

theorem refusedRunAccounted :
    ∃ m : OrderedMap Nat Nat .natural, m.slab.slots.map (Option.map Node.entry) = #[none, some (5, 50), some (7, 70)] ∧
      (m.slab.free.Nodup ∧ ∀ id, id ∈ m.slab.free ↔ id.index < m.slab.slotCount ∧ m.slab.get? id = none) ∧
      (∀ key, ∃ answer, (m.removeEntry key).result = .ok answer) ∧ m.slab.slotCount = 3 := by
  have entered : Reached (⟨⟨some ⟨0⟩, #[some ⟨.black, none, none, 3, 30⟩], [], 1⟩⟩ : OrderedMap Nat Nat .natural) 1 :=
    Reached.start.step (.insert 3 30 : Op Nat Nat Unit) rfl
  have refused : Reached (⟨⟨some ⟨0⟩, #[some ⟨.black, none, none, 3, 30⟩, none], [⟨1⟩], 1⟩⟩ : OrderedMap Nat Nat .natural) 2 :=
    entered.step (.insert 3 31 : Op Nat Nat Unit) rfl
  have again : Reached (⟨⟨some ⟨0⟩, #[some ⟨.black, none, some ⟨1⟩, 3, 30⟩, some ⟨.red, none, none, 5, 50⟩], [], 2⟩⟩ :
      OrderedMap Nat Nat .natural) 2 := refused.step (.insert 5 50 : Op Nat Nat Unit) rfl
  have turned : Reached (⟨⟨some ⟨1⟩, #[some ⟨.red, none, none, 3, 30⟩, some ⟨.black, some ⟨0⟩, some ⟨2⟩, 5, 50⟩,
      some ⟨.red, none, none, 7, 70⟩], [], 3⟩⟩ : OrderedMap Nat Nat .natural) 3 :=
    again.step (.insert 7 70 : Op Nat Nat Unit) rfl
  have reached : Reached (⟨⟨some ⟨1⟩, #[none, some ⟨.black, none, some ⟨2⟩, 5, 50⟩, some ⟨.red, none, none, 7, 70⟩], [⟨0⟩], 2⟩⟩ :
      OrderedMap Nat Nat .natural) 3 := turned.step (.remove 3 : Op Nat Nat Unit) rfl
  obtain ⟨-, free, -, removes, -, slots⟩ := everySlotAccounted reached
  exact ⟨_, by simp [slab, Node.entry], free, removes, slots⟩

end OrderedMap

end RedBlack
