import RedBlack.Proofs.Map.Changes

/-! The map against a caller who does its work by hand: a tree over an array of nodes, with a stack of the places in
it that are free. What the tree does is decided by its shape, so the two stay in step wherever the nodes are. -/
namespace RedBlack

open RedBlack.Tree (Linked)

inductive Call (K V : Type) where
  | insert (key : K) (value : V)
  | removeEntry (key : K)

def Call.op {K V α : Type} : Call K V → Op K V α
  | .insert key value => .insert key value
  | .removeEntry key => .removeEntry key

structure Caller (K V : Type) where
  tree : Tree (Array (Node K V))
  free : List NodeId

namespace Caller
variable {K V α : Type} (policy : Policy K)

def empty : Caller K V := ⟨.rootless #[], []⟩

def place (c : Caller K V) (key : K) (value : V) : Except Fault (NodeId × Caller K V) := do
  match c.free with
  | id :: rest =>
      let store ← Storage.modify c.tree.store id fun _ => .fresh key value
      return (id, ⟨{ c.tree with store }, rest⟩)
  | [] => return (⟨c.tree.store.size⟩, ⟨{ c.tree with store := c.tree.store.push (.fresh key value) }, []⟩)

def insert (c : Caller K V) (key : K) (value : V) : Traced (Except Refusal Unit × Caller K V) := do
  let (id, c) ← c.place key value
  match ← Tree.insert policy c.tree id with
  | (.ok (), tree) => return (.ok (), { c with tree })
  | (.error refusal, tree) => return (.error refusal, ⟨tree, id :: c.free⟩)

def removeEntry (c : Caller K V) (key : K) : Traced (Except Refusal (K × V) × Caller K V) := do
  match ← c.tree.erase policy key with
  | (.error refusal, tree) => return (.error refusal, { c with tree })
  | (.ok id, tree) => return (.ok (← Storage.node tree.store id).entry, ⟨tree, id :: c.free⟩)

def perform (c : Caller K V) : Call K V → Traced (Answer K V α × Caller K V)
  | .insert key value => do
      let (outcome, c) ← c.insert policy key value
      return (.inserted outcome, c)
  | .removeEntry key => do
      let (outcome, c) ← c.removeEntry policy key
      return (.removedEntry outcome, c)

def run (c : Caller K V) : List (Call K V) → Traced (List (Answer K V α) × Caller K V)
  | [] => return ([], c)
  | call :: rest => do
      let (answer, c) ← c.perform policy call
      let (answers, c) ← c.run rest
      return (answer :: answers, c)

end Caller

namespace OrderedMap
variable {K V α : Type} {policy : Policy K} {m : OrderedMap K V policy} {c : Caller K V} {s : Shape K V}

structure Lockstep (m : OrderedMap K V policy) (c : Caller K V) : Prop where
  root : m.tree.root = c.tree.root
  slots : m.slab.slotCount = c.tree.store.size
  free : m.slab.free = c.free
  nodes : ∀ id n, m.slab.get? id = some n → c.tree.store[id.index]? = some n

structure Mirrors (m : OrderedMap K V policy) (c : Caller K V) (s : Shape K V) : Prop where
  holds : m.Holds s
  linked : Linked c.tree s
  slots : c.tree.store.size = m.slab.slotCount
  free : c.free = m.slab.free

namespace Mirrors

theorem empty : (OrderedMap.empty : OrderedMap K V policy).Mirrors .empty .leaf :=
  ⟨holdsEmpty, ⟨.leaf, .nil⟩, rfl, rfl⟩

variable (mirrors : m.Mirrors c s)
include mirrors

theorem lockstep : m.Lockstep c := by
  obtain ⟨holds, linked, slots, free⟩ := mirrors
  have root : m.tree.root = s.link := holds.linked.spells.linkEq
  refine ⟨root.trans linked.spells.linkEq.symm, slots.symm, free.symm, fun id n read => ?_⟩
  have member : id ∈ s.ids := holds.alive id (by simp [read])
  exact (linked.spells.agree holds.linked.spells id member).trans read

theorem place (key : K) (value : V) :
    ∃ c', c.place key value = .ok ((m.slab.alloc key value).1, c') ∧ Linked c'.tree s ∧
      Storage.get? c'.tree.store (m.slab.alloc key value).1 = some (.fresh key value) ∧
      c'.free = (m.slab.alloc key value).2.free ∧ c'.tree.store.size = (m.slab.alloc key value).2.slotCount := by
  obtain ⟨holds, linked, slots, free⟩ := mirrors
  obtain ⟨out, -⟩ := holds.prepared key value
  cases next : m.slab.free with
  | nil =>
      obtain ⟨first, none, more⟩ := Slab.allocPushed next key value
      have kept : ∀ id ∈ s.ids, (c.tree.store.push (.fresh key value))[id.index]? = c.tree.store[id.index]? := by
        intro id member
        obtain ⟨n, read⟩ := Option.isSome_iff_exists.mp (linked.live member)
        have below : id.index < c.tree.store.size := Storage.inRange read
        simp [Array.getElem?_push, Nat.ne_of_lt below]
      refine ⟨⟨{ c.tree with store := c.tree.store.push (.fresh key value) }, []⟩, ?_,
        ⟨linked.spells.transport kept, linked.once⟩, ?_, none.symm, ?_⟩
      · rw [Caller.place, free, next, first, slots]
        rfl
      · rw [first, ← slots]
        exact Array.getElem?_push_size
      · rw [more, ← slots, Array.size_push]
  | cons id rest =>
      obtain ⟨first, left, same⟩ := Slab.allocReused next key value
      rw [first] at out ⊢
      have below : id.index < c.tree.store.size := by
        rw [slots]
        exact ((holds.kept.dead id).mp (by simp [next])).1
      have read : Storage.get? c.tree.store id = some c.tree.store[id.index] := Array.getElem?_eq_getElem below
      refine ⟨⟨{ c.tree with store := Storage.put c.tree.store id (.fresh key value) }, rest⟩, ?_,
        ⟨linked.spells.keepPut out _, linked.once⟩, Storage.getPutSame read _, left.symm, ?_⟩
      · rw [Caller.place, free, next]
        simp only [Storage.modifyOk read]
        rfl
      · exact (Storage.slotCountPut c.tree.store id _).trans (slots.trans same.symm)

variable [Std.TransCmp policy]

theorem insert (key : K) (value : V) :
    ∃ outcome m' c' s', (m.insert key value).result = .ok (outcome, m') ∧
      (c.insert policy key value).result = .ok (outcome, c') ∧ m'.Mirrors c' s' := by
  obtain ⟨c₁, placed, linked₁, here, free₁, slots₁⟩ := mirrors.place key value
  obtain ⟨holds, linked, slots, free⟩ := mirrors
  obtain ⟨out, -⟩ := holds.prepared key value
  cases found : s.find? (policy key) with
  | none =>
      obtain ⟨log, s', grows⟩ := Insertion.grows (policy key) ⟨(m.slab.alloc key value).1, key, value⟩
        holds.balanced.root holds.balanced.noRedRed
      obtain ⟨m', run, holds', free', slots'⟩ := holds.insertGrows found grows
      obtain ⟨t', run', linked', writes⟩ := Tree.insertGrows linked₁ here out found grows
      refine ⟨_, m', { c₁ with tree := t' }, s', run, ?_, holds', linked', ?_, free₁.trans free'.symm⟩
      · simp [Caller.insert, placed, run']
      · exact (Storage.Rewrites.slotCount writes).trans (slots₁.trans slots'.symm)
  | some holder =>
      obtain ⟨m', run, holds', free', slots'⟩ := holds.insertOld value found
      have run' := Tree.insertHeld linked₁ here found
      refine ⟨_, m', { c₁ with free := (m.slab.alloc key value).1 :: c₁.free }, s, run, ?_, holds', linked₁,
        slots₁.trans slots'.symm, ?_⟩
      · simp [Caller.insert, placed, run']
      · exact (congrArg _ free₁).trans free'.symm

theorem removeEntry (key : K) :
    ∃ outcome m' c' s', (m.removeEntry key).result = .ok (outcome, m') ∧
      (c.removeEntry policy key).result = .ok (outcome, c') ∧ m'.Mirrors c' s' := by
  obtain ⟨holds, linked, slots, free⟩ := mirrors
  by_cases absent : s.find? (policy key) = none
  · refine ⟨_, m, c, s, holds.removeMissing absent, ?_, holds, linked, slots, free⟩
    simp [Caller.removeEntry, Tree.eraseMissing linked absent]
  · obtain ⟨log, id, entry, t', s', erases, run', linked', fresh, writes⟩ := Tree.erases linked absent
    obtain ⟨m', run, holds', free', slots'⟩ := holds.removeErases erases
    refine ⟨_, m', ⟨t', id :: c.free⟩, s', run, ?_, holds', linked', ?_, ?_⟩
    · simp only [Caller.removeEntry, run', Traced.okBind, Storage.nodeOk fresh]
      rfl
    · exact (Storage.Rewrites.slotCount writes).trans (slots.trans slots'.symm)
    · exact (congrArg (id :: ·) free).trans free'.symm

theorem perform (call : Call K V) :
    ∃ (answer : Answer K V α) (m' : OrderedMap K V policy) (c' : Caller K V) (s' : Shape K V),
      (m.perform call.op).result = .ok (answer, m') ∧ (c.perform policy call).result = .ok (answer, c') ∧
        m'.Mirrors c' s' := by
  cases call with
  | insert key value =>
      obtain ⟨outcome, m', c', s', run, run', mirrors'⟩ := mirrors.insert key value
      exact ⟨.inserted outcome, m', c', s', Traced.resultBindEqOk.mpr ⟨_, run, rfl⟩,
        Traced.resultBindEqOk.mpr ⟨_, run', rfl⟩, mirrors'⟩
  | removeEntry key =>
      obtain ⟨outcome, m', c', s', run, run', mirrors'⟩ := mirrors.removeEntry key
      exact ⟨.removedEntry outcome, m', c', s', Traced.resultBindEqOk.mpr ⟨_, run, rfl⟩,
        Traced.resultBindEqOk.mpr ⟨_, run', rfl⟩, mirrors'⟩

theorem run (calls : List (Call K V)) :
    ∃ (answers : List (Answer K V α)) (m' : OrderedMap K V policy) (c' : Caller K V) (s' : Shape K V),
      (m.run (calls.map Call.op)).result = .ok (answers, m') ∧ (c.run policy calls).result = .ok (answers, c') ∧
        m'.Mirrors c' s' := by
  induction calls generalizing m c s with
  | nil => exact ⟨[], m, c, s, rfl, rfl, mirrors⟩
  | cons call rest ih =>
      obtain ⟨answer, m₁, c₁, s₁, first, first', mirrors₁⟩ := mirrors.perform (α := α) call
      obtain ⟨answers, m', c', s', tail, tail', mirrors'⟩ := ih mirrors₁
      refine ⟨answer :: answers, m', c', s', ?_, ?_, mirrors'⟩
      · rw [List.map_cons, runOk first, tail]
        rfl
      · exact Traced.resultBindEqOk.mpr ⟨_, first', Traced.resultBindEqOk.mpr ⟨_, tail', rfl⟩⟩

end Mirrors

theorem everyRunInLockstep [Std.TransCmp policy] (calls : List (Call K V)) :
    ∃ (answers : List (Answer K V α)) (m : OrderedMap K V policy) (c : Caller K V),
      ((empty : OrderedMap K V policy).run (calls.map Call.op)).result = .ok (answers, m) ∧
        (Caller.empty.run policy calls).result = .ok (answers, c) ∧ m.Lockstep c := by
  have start : (empty : OrderedMap K V policy).Mirrors .empty .leaf := .empty
  obtain ⟨answers, m, c, s, run, run', mirrors⟩ := start.run calls
  exact ⟨answers, m, c, run, run', mirrors.lockstep⟩

def halvedCalls : List (Call Nat Nat) := [.insert 4 40, .insert 5 50, .insert 9 90, .removeEntry 5, .insert 7 70]

theorem halvedRunInLockstep :
    ∃ (m : OrderedMap Nat Nat (.byMeasure (· / 2))) (c : Caller Nat Nat),
      (Caller.empty.run (.byMeasure (· / 2)) halvedCalls).result =
        .ok ([.inserted (.ok ()), .inserted (.error .duplicateKey), .inserted (.ok ()), .removedEntry (.ok (4, 40)),
          (.inserted (.ok ()) : Answer Nat Nat Unit)], c) ∧
      c.tree.store = #[⟨.black, some ⟨1⟩, none, 9, 90⟩, ⟨.red, none, none, 7, 70⟩] ∧ m.Lockstep c := by
  obtain ⟨answers, m, c, -, run, lockstep⟩ := @everyRunInLockstep Nat Nat Unit (.byMeasure (· / 2)) _ halvedCalls
  have ends := congrArg (Except.map fun r : List (Answer Nat Nat Unit) × Caller Nat Nat => (r.1, r.2.tree.store)) run
  have given : Except.ok ([.inserted (.ok ()), .inserted (.error .duplicateKey), .inserted (.ok ()),
      .removedEntry (.ok (4, 40)), .inserted (.ok ())], #[⟨.black, some ⟨1⟩, none, 9, 90⟩, ⟨.red, none, none, 7, 70⟩]) =
        Except.ok (answers, c.tree.store) := ends
  obtain ⟨rfl, store⟩ := Prod.mk.inj (Except.ok.inj given)
  exact ⟨m, c, run, store.symm, lockstep⟩

end OrderedMap

end RedBlack
