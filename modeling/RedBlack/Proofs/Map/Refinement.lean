import RedBlack.Proofs.Map.Changes
import RedBlack.Proofs.Map.Readings

/-! An ordered map answers every run of operations as a row does. Only the operations that follow a cursor ask
the map not to be too large. -/
namespace RedBlack.OrderedMap
variable {K V α : Type} {policy : Policy K} {m : OrderedMap K V policy} {s : Shape K V}

def Matches (m : OrderedMap K V policy) (s : Shape K V) (op : Op K V α) : Prop :=
  ∃ m' s', (m.perform op).result = .ok ((Row.perform policy s.entries op).1, m') ∧ m'.Holds s' ∧
    s'.entries = (Row.perform policy s.entries op).2 ∧ m'.slab.slotCount = op.slots m.size m.slab.slotCount

def Within (limit : Nat) (m : OrderedMap K V policy) : List (Op K V α) → Prop
  | [] => m.size < limit
  | op :: rest => m.size < limit ∧
      match (m.perform op).result with
      | .ok (_, m') => Within limit m' rest
      | .error _ => True

instance decidableWithin (limit : Nat) (m : OrderedMap K V policy) : (ops : List (Op K V α)) → Decidable (Within limit m ops)
  | [] => inferInstanceAs (Decidable (m.size < limit))
  | op :: rest => @instDecidableAnd _ _ (inferInstanceAs (Decidable (m.size < limit)))
      (match (m.perform op).result with
      | .ok (_, m') => decidableWithin limit m' rest
      | .error _ => .isTrue trivial)

namespace Holds
variable [Std.TransCmp policy] (holds : m.Holds s)
include holds

theorem matchesInsert (key : K) (value : V) : Matches m s (.insert key value : Op K V α) := by
  cases found : s.find? (policy key) with
  | none =>
      obtain ⟨m', s', run, holds', entries, slots⟩ := holds.insertNew value found
      refine ⟨m', s', Traced.resultBindEqOk.mpr ⟨_, run, ?_⟩, holds', ?_, slots⟩
      · simp [Row.perform, holds.missing key found]
      · simp [Row.perform, holds.missing key found, entries]
  | some holder =>
      obtain ⟨m', run, holds', -, slots⟩ := holds.insertOld value found
      obtain ⟨n, -, held⟩ := holds.reads key found
      refine ⟨m', s, Traced.resultBindEqOk.mpr ⟨_, run, ?_⟩, holds', ?_, slots.trans (holds.kept.alloc key value).size⟩
      · simp [Row.perform, held]
      · simp [Row.perform, held]

theorem matchesRemoveEntry (key : K) : Matches m s (.removeEntry key : Op K V α) := by
  by_cases absent : s.find? (policy key) = none
  · refine ⟨m, s, Traced.resultBindEqOk.mpr ⟨_, holds.removeMissing absent, ?_⟩, holds, ?_, rfl⟩
    · simp [Row.perform, holds.missing key absent]
    · simp [Row.perform, holds.missing key absent]
  · obtain ⟨entry, m', s', run, holds', held, entries, slots⟩ := holds.removeHeld absent
    refine ⟨m', s', Traced.resultBindEqOk.mpr ⟨_, run, ?_⟩, holds', ?_, slots⟩
    · simp [Row.perform, held]
    · simp [Row.perform, held, entries]

theorem matchesRemove (key : K) : Matches m s (.remove key : Op K V α) := by
  have removed : ∀ {outcome m'}, (m.removeEntry key).result = .ok (outcome, m') →
      (m.remove key).result = .ok (outcome.map Prod.snd, m') := fun run => Traced.resultBindEqOk.mpr ⟨_, run, rfl⟩
  by_cases absent : s.find? (policy key) = none
  · refine ⟨m, s, Traced.resultBindEqOk.mpr ⟨_, removed (holds.removeMissing absent), ?_⟩, holds, ?_, rfl⟩
    · simp [Row.perform, holds.missing key absent, Except.map]
    · simp [Row.perform, holds.missing key absent]
  · obtain ⟨entry, m', s', run, holds', held, entries, slots⟩ := holds.removeHeld absent
    refine ⟨m', s', Traced.resultBindEqOk.mpr ⟨_, removed run, ?_⟩, holds', ?_, slots⟩
    · simp [Row.perform, held, Except.map]
    · simp [Row.perform, held, entries]

theorem matchesModify (key : K) (change : V → V) : Matches m s (.modify key change : Op K V α) := by
  cases found : s.find? (policy key) with
  | none =>
      have unequal : ∀ e ∈ s.entries, policy key e.1 ≠ .eq := by simpa [Row.held?] using holds.missing key found
      refine ⟨m, s, Traced.resultBindEqOk.mpr ⟨_, holds.modifyMissing change found, ?_⟩, holds, ?_, rfl⟩
      · simp [Row.perform, holds.missing key found]
      · exact (Row.modifyNone unequal change).symm
  | some id =>
      obtain ⟨entry, m', run, holds', held, entries, -, slots⟩ := holds.modifyHeld change found
      refine ⟨m', _, Traced.resultBindEqOk.mpr ⟨_, run, ?_⟩, holds', entries, slots⟩
      simp [Row.perform, held]

omit [Std.TransCmp policy] in
theorem matchesReading {op : Op K V α} {answer : Answer K V α} (run : m.perform op = pure (answer, m))
    (same : Row.perform policy s.entries op = (answer, s.entries)) (slots : op.slots m.size m.slab.slotCount = m.slab.slotCount) :
    Matches m s op := by
  refine ⟨m, s, ?_, holds, ?_, slots.symm⟩
  · rw [run, same]
    rfl
  · rw [same]

theorem performed (op : Op K V α) (few : op.Walks → m.size < 2 ^ 32) : Matches m s op := by
  cases op with
  | insert key value => exact holds.matchesInsert key value
  | remove key => exact holds.matchesRemove key
  | removeEntry key => exact holds.matchesRemoveEntry key
  | get key => exact holds.matchesReading (by rw [perform, holds.get]; rfl) rfl rfl
  | modify key change => exact holds.matchesModify key change
  | lookup key read => exact holds.matchesReading (by rw [perform, holds.lookup]; rfl) rfl rfl
  | contains key => exact holds.matchesReading (by rw [perform, holds.contains]; rfl) rfl rfl
  | first => exact holds.matchesReading (by rw [perform, holds.first (few trivial)]; rfl) rfl rfl
  | last => exact holds.matchesReading (by rw [perform, holds.last (few trivial)]; rfl) rfl rfl
  | size => exact holds.matchesReading (by rw [perform, ← holds.lengthRow]) rfl rfl
  | isEmpty => exact holds.matchesReading (by rw [perform, holds.isEmpty]) rfl rfl
  | entries side =>
      cases side with
      | right => exact holds.matchesReading (by rw [perform, holds.ascending (few trivial)]; rfl) rfl rfl
      | left => exact holds.matchesReading (by rw [perform, holds.descending (few trivial)]; rfl) rfl rfl
  | clear => exact ⟨empty, .leaf, rfl, holdsEmpty, rfl, rfl⟩

theorem runs (ops : List (Op K V α)) (few : Within (2 ^ 32) m ops) :
    ∃ m', (m.run ops).result = .ok (Row.run policy s.entries ops, m') := by
  induction ops generalizing m s with
  | nil => exact ⟨m, rfl⟩
  | cons op rest ih =>
      obtain ⟨now, later⟩ := few
      obtain ⟨m', s', step, holds', entries, -⟩ := holds.performed op fun _ => now
      rw [step] at later
      obtain ⟨last, run⟩ := ih holds' later
      refine ⟨last, ?_⟩
      rw [runOk step, run, Row.run, entries]
      rfl

end Holds

theorem everyRunMatchesRow [Std.TransCmp policy] (ops : List (Op K V α))
    (few : Within (2 ^ 32) (empty : OrderedMap K V policy) ops) :
    ∃ m, ((empty : OrderedMap K V policy).run ops).result = .ok (Row.run policy [] ops, m) := holdsEmpty.runs ops few

theorem halvedRunMatchesRow :
    ∃ m, ((empty : OrderedMap Nat Nat (.byMeasure (· / 2))).run
        [.insert 4 40, .insert 5 50, .insert 9 90, .modify 5 (· + 1), .entries .left, .removeEntry 5, .get 4, .first]).result =
      .ok ([.inserted (.ok ()), .inserted (.error .duplicateKey), .inserted (.ok ()), .value (some 40),
        .row [(9, 90), (4, 41)], .removedEntry (.ok (4, 41)), .value none, (.entry (some (9, 90)) : Answer Nat Nat Unit)], m) :=
  everyRunMatchesRow _ (by decide +kernel)

end RedBlack.OrderedMap
