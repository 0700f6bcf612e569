import RedBlack.Proofs.Cursor.Agreement
import RedBlack.Proofs.Map.Refinement

/-! Refused operations leave no trace. Two maps are compared, one of which has never seen them: their trees are the
same in the same slots, and the only slot that one of them can have more is the last that it will hand out. -/
namespace RedBlack

namespace Slab
variable {K V : Type} {slab slab' slab₁ slab₁' : Slab K V} {id : NodeId}

def Ahead (slab slab' : Slab K V) : Prop :=
  slab.free = slab'.free ∧ slab.slotCount = slab'.slotCount ∨
    slab.free = slab'.free ++ [⟨slab'.slotCount⟩] ∧ slab.slotCount = slab'.slotCount + 1

def hands (slab : Slab K V) : List (K × V) → List NodeId
  | [] => []
  | e :: rest => (slab.alloc e.1 e.2).1 :: hands (slab.alloc e.1 e.2).2 rest

namespace Ahead
variable (ahead : Ahead slab slab')
include ahead

theorem alloc (key : K) (value : V) :
    (slab.alloc key value).1 = (slab'.alloc key value).1 ∧ Ahead (slab.alloc key value).2 (slab'.alloc key value).2 := by
  cases next : slab'.free with
  | nil =>
      obtain ⟨first', none', more'⟩ := allocPushed next key value
      rw [Ahead, next] at ahead
      rcases ahead with ⟨free, slots⟩ | ⟨free, slots⟩
      · obtain ⟨first, none, more⟩ := allocPushed free key value
        exact ⟨by rw [first, first', slots], .inl ⟨none.trans none'.symm, by rw [more, more', slots]⟩⟩
      -- the one slot too many is handed out where the other slab makes a new one
      · obtain ⟨first, none, same⟩ := allocReused free key value
        exact ⟨first.trans first'.symm, .inl ⟨none.trans none'.symm, by rw [same, more', slots]⟩⟩
  | cons id rest =>
      obtain ⟨first', left', same'⟩ := allocReused next key value
      rw [Ahead, next, List.cons_append] at ahead
      rcases ahead with ⟨free, slots⟩ | ⟨free, slots⟩
      · obtain ⟨first, left, same⟩ := allocReused free key value
        exact ⟨first.trans first'.symm, .inl ⟨left.trans left'.symm, by rw [same, same', slots]⟩⟩
      · obtain ⟨first, left, same⟩ := allocReused free key value
        exact ⟨first.trans first'.symm, .inr ⟨by rw [left, left', same'], by rw [same, same', slots]⟩⟩

theorem hands (entries : List (K × V)) : slab.hands entries = slab'.hands entries := by
  induction entries generalizing slab slab' with
  | nil => rfl
  | cons e rest ih =>
      obtain ⟨same, ahead'⟩ := ahead.alloc e.1 e.2
      rw [Slab.hands, Slab.hands, same, ih ahead']

theorem slots : slab'.slotCount ≤ slab.slotCount ∧ slab.slotCount ≤ slab'.slotCount + 1 := by
  rcases ahead with ⟨-, slots⟩ | ⟨-, slots⟩ <;> omega

theorem keep (free : slab₁.free = slab.free) (slots : slab₁.slotCount = slab.slotCount)
    (free' : slab₁'.free = slab'.free) (slots' : slab₁'.slotCount = slab'.slotCount) : Ahead slab₁ slab₁' := by
  rw [Ahead, free, slots, free', slots']
  exact ahead

theorem push (free : slab₁.free = id :: slab.free) (slots : slab₁.slotCount = slab.slotCount)
    (free' : slab₁'.free = id :: slab'.free) (slots' : slab₁'.slotCount = slab'.slotCount) : Ahead slab₁ slab₁' := by
  rw [Ahead, free, slots, free', slots', List.cons_append, List.cons_inj_right, List.cons_inj_right]
  exact ahead

theorem refused {key : K} {value : V} (free : slab₁.free = (slab.alloc key value).1 :: (slab.alloc key value).2.free)
    (slots : slab₁.slotCount = (slab.alloc key value).2.slotCount) : Ahead slab₁ slab' := by
  cases next : slab.free with
  | nil =>
      obtain ⟨first, none, more⟩ := allocPushed next key value
      rw [first, none] at free
      rw [Ahead, next] at ahead
      rcases ahead with ⟨empty, count⟩ | ⟨empty, -⟩
      · exact .inr ⟨by rw [free, ← empty, count, List.nil_append], by rw [slots, more, count]⟩
      · simp at empty
  | cons id rest =>
      obtain ⟨first, left, same⟩ := allocReused next key value
      rw [first, left, ← next] at free
      exact ahead.keep free (slots.trans same) rfl rfl

end Ahead

end Slab

def Answer.refused {K V α : Type} : Answer K V α → Bool
  | .inserted (.error .duplicateKey) | .removed (.error .notFound) | .removedEntry (.error .notFound) => true
  | _ => false

namespace OrderedMap
variable {K V α : Type} {policy : Policy K} {m m' m₁ : OrderedMap K V policy} {op : Op K V α} {answer : Answer K V α}

def accepted (m : OrderedMap K V policy) : List (Op K V α) → List (Op K V α)
  | [] => []
  | op :: rest =>
      match (m.perform op).result with
      | .ok (answer, m₁) => if answer.refused then accepted m₁ rest else op :: accepted m₁ rest
      | .error _ => op :: rest

structure Alike (m m' : OrderedMap K V policy) : Prop where
  root : m.tree.root = m'.tree.root
  nodes : ∀ id, m.slab.get? id = m'.slab.get? id
  hands : ∀ entries, m.slab.hands entries = m'.slab.hands entries
  slots : m'.slab.slotCount ≤ m.slab.slotCount ∧ m.slab.slotCount ≤ m'.slab.slotCount + 1

structure Twin (m m' : OrderedMap K V policy) : Prop where
  shape : ∃ s, m.Holds s ∧ m'.Holds s
  ahead : m.slab.Ahead m'.slab

def Paired {β : Type} (r r' : β × OrderedMap K V policy) : Prop := r.1 = r'.1 ∧ r.2.Twin r'.2

theorem Holds.sameNodes {s : Shape K V} (holds : m.Holds s) (holds' : m'.Holds s) (id : NodeId) :
    m.slab.get? id = m'.slab.get? id := by
  by_cases member : id ∈ s.ids
  · exact holds.linked.spells.agree holds'.linked.spells id member
  · have dead := mt (holds.alive id) member
    have dead' := mt (holds'.alive id) member
    rw [Option.not_isSome_iff_eq_none.mp dead, Option.not_isSome_iff_eq_none.mp dead']

namespace Twin

theorem empty : (OrderedMap.empty : OrderedMap K V policy).Twin .empty :=
  ⟨⟨.leaf, holdsEmpty, holdsEmpty⟩, .inl ⟨rfl, rfl⟩⟩

variable (twin : m.Twin m')
include twin

theorem alike : m.Alike m' := by
  obtain ⟨⟨s, holds, holds'⟩, ahead⟩ := twin
  have root : m.tree.root = s.link := holds.linked.spells.linkEq
  exact ⟨root.trans holds'.linked.spells.linkEq.symm, holds.sameNodes holds', ahead.hands, ahead.slots⟩

theorem reads (id : NodeId) : Storage.node m.tree.store id = Storage.node m'.tree.store id := by
  have same : Storage.get? m.tree.store id = Storage.get? m'.tree.store id := twin.alike.nodes id
  simp only [Storage.node, same]
  rfl

theorem walk (side : Side) : Agree Walk.Twin (m.walk side).result (m'.walk side).result :=
  Walk.Twin.start twin.alike.root twin.reads side

theorem entries (side : Side) : Agree Eq (m.entries side).result (m'.entries side).result :=
  .bind (twin.walk side) fun _ _ walks => walks.collect _

theorem outermost (side : Side) :
    Agree Eq (do return (← (← m.walk side).next).1 : Traced (Option (K × V))).result
      (do return (← (← m'.walk side).next).1 : Traced (Option (K × V))).result :=
  .bind (twin.walk side) fun _ _ walks => .bind walks.next fun _ _ found => .ok found.1

variable [Std.TransCmp policy]

theorem insert (key : K) (value : V) : Agree Paired (m.insert key value).result (m'.insert key value).result := by
  obtain ⟨⟨s, holds, holds'⟩, ahead⟩ := twin
  obtain ⟨same, allocated⟩ := ahead.alloc key value
  cases found : s.find? (policy key) with
  | none =>
      obtain ⟨log, s', grows⟩ := Insertion.grows (policy key) ⟨(m.slab.alloc key value).1, key, value⟩
        holds.balanced.root holds.balanced.noRedRed
      obtain ⟨m₁, run, holds₁, free, slots⟩ := holds.insertGrows found grows
      obtain ⟨m₁', run', holds₁', free', slots'⟩ := holds'.insertGrows found (same ▸ grows)
      rw [run, run']
      exact .ok ⟨rfl, ⟨s', holds₁, holds₁'⟩, allocated.keep free slots free' slots'⟩
  | some holder =>
      obtain ⟨m₁, run, holds₁, free, slots⟩ := holds.insertOld value found
      obtain ⟨m₁', run', holds₁', free', slots'⟩ := holds'.insertOld value found
      rw [run, run']
      exact .ok ⟨rfl, ⟨s, holds₁, holds₁'⟩, allocated.push free slots (same ▸ free') slots'⟩

theorem removeEntry (key : K) : Agree Paired (m.removeEntry key).result (m'.removeEntry key).result := by
  obtain ⟨⟨s, holds, holds'⟩, ahead⟩ := twin
  by_cases absent : s.find? (policy key) = none
  · rw [holds.removeMissing absent, holds'.removeMissing absent]
    exact .ok ⟨rfl, ⟨s, holds, holds'⟩, ahead⟩
  · obtain ⟨log, id, entry, -, s', erases, -⟩ := Tree.erases holds.linked absent
    obtain ⟨m₁, run, holds₁, free, slots⟩ := holds.removeErases erases
    obtain ⟨m₁', run', holds₁', free', slots'⟩ := holds'.removeErases erases
    rw [run, run']
    exact .ok ⟨rfl, ⟨s', holds₁, holds₁'⟩, ahead.push free slots free' slots'⟩

theorem modify (key : K) (change : V → V) : Agree Paired (m.modify key change) (m'.modify key change) := by
  obtain ⟨⟨s, holds, holds'⟩, ahead⟩ := twin
  cases found : s.find? (policy key) with
  | none =>
      rw [holds.modifyMissing change found, holds'.modifyMissing change found]
      exact .ok ⟨rfl, ⟨s, holds, holds'⟩, ahead⟩
  | some id =>
      obtain ⟨entry, m₁, run, holds₁, held, -, free, slots⟩ := holds.modifyHeld change found
      obtain ⟨entry', m₁', run', holds₁', held', -, free', slots'⟩ := holds'.modifyHeld change found
      cases Option.some.inj (held.symm.trans held')
      rw [run, run']
      exact .ok ⟨rfl, ⟨_, holds₁, holds₁'⟩, ahead.keep free slots free' slots'⟩

theorem perform (op : Op K V α) : Agree Paired (m.perform op).result (m'.perform op).result := by
  obtain ⟨s, holds, holds'⟩ := twin.shape
  cases op with
  | insert key value => exact .bind (twin.insert key value) fun _ _ same => .ok ⟨congrArg Answer.inserted same.1, same.2⟩
  | remove key =>
      have removed : Agree Paired (m.remove key).result (m'.remove key).result :=
        .bind (twin.removeEntry key) fun _ _ same => .ok ⟨congrArg (Except.map Prod.snd) same.1, same.2⟩
      exact .bind removed fun _ _ same => .ok ⟨congrArg Answer.removed same.1, same.2⟩
  | removeEntry key => exact .bind (twin.removeEntry key) fun _ _ same => .ok ⟨congrArg Answer.removedEntry same.1, same.2⟩
  | get key =>
      rw [OrderedMap.perform, OrderedMap.perform, holds.get, holds'.get]
      exact .ok ⟨rfl, twin⟩
  | modify key change =>
      exact Agree.bind (x := Traced.lift (m.modify key change)) (twin.modify key change) fun _ _ same =>
        .ok ⟨congrArg Answer.value same.1, same.2⟩
  | lookup key read =>
      rw [OrderedMap.perform, OrderedMap.perform, holds.lookup, holds'.lookup]
      exact .ok ⟨rfl, twin⟩
  | contains key =>
      rw [OrderedMap.perform, OrderedMap.perform, holds.contains, holds'.contains]
      exact .ok ⟨rfl, twin⟩
  | first => exact .bind (twin.outermost .right) fun _ _ same => .ok ⟨congrArg Answer.entry same, twin⟩
  | last => exact .bind (twin.outermost .left) fun _ _ same => .ok ⟨congrArg Answer.entry same, twin⟩
  | size => exact .ok ⟨by rw [holds.size, holds'.size], twin⟩
  | isEmpty => exact .ok ⟨by rw [holds.isEmpty, holds'.isEmpty], twin⟩
  | entries side => exact .bind (twin.entries side) fun _ _ same => .ok ⟨congrArg Answer.row same, twin⟩
  | clear => exact .ok ⟨rfl, .empty⟩

theorem refused (result : (m.perform op).result = .ok (answer, m₁)) (refused : answer.refused) : m₁.Twin m' := by
  obtain ⟨⟨s, holds, holds'⟩, ahead⟩ := twin
  have removed : ∀ {key refusal}, (m.removeEntry key).result = .ok (.error refusal, m₁) → m₁.Twin m' := by
    intro key refusal run
    by_cases absent : s.find? (policy key) = none
    · cases (holds.removeMissing absent).symm.trans run
      exact ⟨⟨s, holds, holds'⟩, ahead⟩
    · obtain ⟨entry, m₂, s', run', -⟩ := holds.removeHeld absent
      cases run'.symm.trans run
  cases op with
  | insert key value =>
      obtain ⟨⟨outcome, m₂⟩, run, last⟩ := Traced.resultBindEqOk.mp result
      cases last
      cases found : s.find? (policy key) with
      | none =>
          obtain ⟨m₃, s', run', -⟩ := holds.insertNew value found
          cases run'.symm.trans run
          cases refused
      | some holder =>
          obtain ⟨m₃, run', holds₃, free, slots⟩ := holds.insertOld value found
          cases run'.symm.trans run
          exact ⟨⟨s, holds₃, holds'⟩, ahead.refused free slots⟩
  | remove key =>
      obtain ⟨⟨outcome, m₂⟩, run, last⟩ := Traced.resultBindEqOk.mp result
      obtain ⟨⟨taken, m₃⟩, run, mapped⟩ := Traced.resultBindEqOk.mp run
      cases mapped
      cases last
      cases taken with
      | ok entry => cases refused
      | error refusal => exact removed run
  | removeEntry key =>
      obtain ⟨⟨taken, m₂⟩, run, last⟩ := Traced.resultBindEqOk.mp result
      cases last
      cases taken with
      | ok entry => cases refused
      | error refusal => exact removed run
  | size | isEmpty | clear =>
      cases result
      cases refused
  | _ =>
      obtain ⟨_, -, last⟩ := Traced.resultBindEqOk.mp result
      cases last
      cases refused

end Twin

theorem Twin.run [Std.TransCmp policy] (twin : m.Twin m') (ops : List (Op K V α)) :
    Agree (fun full kept => kept.1 = full.1.filter (! ·.refused) ∧ full.2.Twin kept.2) (m.run ops).result
      (m'.run (m.accepted ops)).result := by
  induction ops generalizing m m' with
  | nil => exact .ok ⟨rfl, twin⟩
  | cons op rest ih =>
      have both := twin.perform op
      generalize first : (m.perform op).result = r, second : (m'.perform op).result = r' at both
      cases both with
      | error fault =>
          rw [accepted, first, runError first, runError second]
          exact .error fault
      | @ok r r' same =>
          obtain ⟨answer, m₁⟩ := r
          obtain ⟨_, m₁'⟩ := r'
          obtain ⟨rfl, twin₁⟩ := same
          rw [runOk first, accepted, first]
          by_cases refused : answer.refused
          · simp only [refused, if_true]
            exact (ih (twin.refused first refused)).mapLeft fun full kept related => ⟨by simp [refused, related.1], related.2⟩
          · simp only [refused]
            rw [if_neg (by simp), runOk second]
            exact (ih twin₁).map fun full kept related => ⟨by simp [refused, related.1], related.2⟩

theorem acceptedBegins (m : OrderedMap K V policy) (ops more : List (Op K V α)) :
    m.accepted ops <+: m.accepted (ops ++ more) := by
  induction ops generalizing m with
  | nil => exact List.nil_prefix
  | cons op rest ih =>
      rw [List.cons_append, accepted, accepted]
      cases (m.perform op).result with
      | error fault => exact List.prefix_append ..
      | ok r =>
          obtain ⟨answer, m₁⟩ := r
          by_cases refused : answer.refused
          · simpa only [refused, if_true] using ih m₁
          · simpa [refused] using ih m₁

/-- A run with its refused operations left out answers the others in the same way, and it has the same nodes in the
same slots after each of them. Whatever is put in next goes to the same slots too. Neither ends in a fault unless
the map grows beyond what a cursor has room for. -/
theorem everyRefusalForgotten [Std.TransCmp policy] (ops more : List (Op K V α)) :
    (empty : OrderedMap K V policy).accepted ops <+: (empty : OrderedMap K V policy).accepted (ops ++ more) ∧
      (Within (2 ^ 32) (empty : OrderedMap K V policy) ops → ∃ full, ((empty : OrderedMap K V policy).run ops).result = .ok full) ∧
      Agree (fun full kept => kept.1 = full.1.filter (! ·.refused) ∧ full.2.Alike kept.2)
        ((empty : OrderedMap K V policy).run ops).result
        ((empty : OrderedMap K V policy).run ((empty : OrderedMap K V policy).accepted ops)).result := by
  refine ⟨acceptedBegins empty ops more, fun few => ?_, ?_⟩
  · obtain ⟨m, run⟩ := holdsEmpty.runs ops few
    exact ⟨_, run⟩
  · exact (Twin.empty.run ops).weaken fun _ _ related => ⟨related.1, related.2.alike⟩

def halvedOps : List (Op Nat Nat Unit) := [.insert 4 40, .insert 5 50, .removeEntry 9, .get 5]

theorem halvedRefusalForgotten :
    ∃ m m' : OrderedMap Nat Nat (.byMeasure (· / 2)),
      ((empty : OrderedMap Nat Nat (.byMeasure (· / 2))).run halvedOps).result =
        .ok ([.inserted (.ok ()), .inserted (.error .duplicateKey), .removedEntry (.error .notFound), .value (some 40)], m) ∧
      ((empty : OrderedMap Nat Nat (.byMeasure (· / 2))).run [.insert 4 40, .get 5]).result =
        .ok ([.inserted (.ok ()), (.value (some 40) : Answer Nat Nat Unit)], m') ∧
      m.Alike m' ∧ m.slab.slotCount = 2 ∧ m'.slab.slotCount = 1 := by
  refine ⟨⟨⟨some ⟨0⟩, ⟨#[some ⟨.black, none, none, 4, 40⟩, none], [⟨1⟩], 1⟩⟩⟩,
    ⟨⟨some ⟨0⟩, ⟨#[some ⟨.black, none, none, 4, 40⟩], [], 1⟩⟩⟩, rfl, rfl, ?_, rfl, rfl⟩
  have agree : Agree _ (.ok _) (.ok _) := (@everyRefusalForgotten Nat Nat Unit (.byMeasure (· / 2)) _ halvedOps []).2.2
  cases agree with
  | ok related => exact related.2

end OrderedMap

end RedBlack
