import RedBlack.Proofs.Erasure.Removal
import RedBlack.Proofs.Insertion.Outcome
import RedBlack.Proofs.Map.State

/-! Operations that change an ordered map: each does to the entries what it does to a row, and says how many
slots the slab has afterwards. -/
namespace RedBlack

open RedBlack.Tree (Linked)
open RedBlack.Insertion (Grows)
open RedBlack.Erasure (Erases)

namespace Slab
variable {K V : Type} {t : Tree (Slab K V)} {s : Shape K V} {slab : Slab K V} {id : NodeId} {n : Node K V}

theorem Allocated.linked (allocated : Allocated t.store id n slab) (linked : Linked t s) :
    id ∉ s.ids ∧ Linked ({ t with store := slab } : Tree (Slab K V)) s := by
  have out : id ∉ s.ids := by
    intro member
    have live : (t.store.get? id).isSome := linked.live member
    simp [allocated.fresh] at live
  refine ⟨out, linked.spells.transport fun other member => ?_, linked.once⟩
  exact allocated.elsewhere other fun same => out (same ▸ member)

theorem Removed.linked (removed : Removed t.store id slab) (linked : Linked t s) (out : id ∉ s.ids) :
    Linked ({ t with store := slab } : Tree (Slab K V)) s := by
  refine ⟨linked.spells.transport fun other member => ?_, linked.once⟩
  exact removed.elsewhere other fun same => out (same ▸ member)

end Slab

namespace OrderedMap
variable {K V : Type} {policy : Policy K}

def prepared (m : OrderedMap K V policy) (key : K) (value : V) : Tree (Slab K V) :=
  { m.tree with store := (m.slab.alloc key value).2 }

theorem insertAccepted {m : OrderedMap K V policy} {key : K} {value : V} {log : List Event} {t : Tree (Slab K V)}
    (run : Tree.insert policy (m.prepared key value) (m.slab.alloc key value).1 = ⟨log, .ok (.ok (), t)⟩) :
    (m.insert key value).result = .ok (.ok (), ⟨t⟩) :=
  Traced.resultBindEqOk.mpr ⟨(.ok (), t), congrArg Traced.result run, rfl⟩

theorem insertRefused {m : OrderedMap K V policy} {key : K} {value : V} {log : List Event} {refusal : Refusal}
    (run : Tree.insert policy (m.prepared key value) (m.slab.alloc key value).1 =
      ⟨log, .ok (.error refusal, m.prepared key value)⟩) :
    (m.insert key value).result = .ok (.error refusal,
      ⟨{ m.prepared key value with store := ((m.slab.alloc key value).2.remove (m.slab.alloc key value).1).2 }⟩) :=
  Traced.resultBindEqOk.mpr ⟨(.error refusal, _), congrArg Traced.result run, rfl⟩

namespace Holds
variable {m : OrderedMap K V policy} {s s' : Shape K V} {log : List Event} (holds : m.Holds s)
include holds

theorem prepared (key : K) (value : V) :
    (m.slab.alloc key value).1 ∉ s.ids ∧ Linked (m.prepared key value) s :=
  Slab.Allocated.linked (holds.kept.alloc key value) holds.linked

theorem insertGrows [Std.TransCmp policy] {key : K} {value : V} (missing : s.find? (policy key) = none)
    (grows : Grows (policy key) ⟨(m.slab.alloc key value).1, key, value⟩ s log s') :
    ∃ m', (m.insert key value).result = .ok (.ok (), m') ∧ m'.Holds s' ∧
      m'.slab.free = (m.slab.alloc key value).2.free ∧ m'.slab.slotCount = (m.slab.alloc key value).2.slotCount := by
  have allocated := holds.kept.alloc key value
  obtain ⟨out, linked⟩ := holds.prepared key value
  obtain ⟨t', run, linked', writes⟩ := Tree.insertGrows linked allocated.here out missing grows
  have alive : ∀ other, (t'.store.get? other).isSome → other ∈ s'.ids := by
    intro other live
    have live : ((m.slab.alloc key value).2.get? other).isSome := (writes.live other).symm.trans live
    exact grows.memIds.mpr ((allocated.alive live).imp_right (holds.alive other))
  have sorted : s'.Sorted policy := holds.sorted.insert ⟨_, key, value⟩ missing grows.cells
  exact ⟨⟨t'⟩, insertAccepted run, ⟨linked', grows.balanced holds.balanced, sorted, allocated.kept.rewrite writes, alive⟩,
    (Slab.rewriteBooks writes).1, Storage.Rewrites.slotCount writes⟩

theorem insertNew [Std.TransCmp policy] {key : K} (value : V) (missing : s.find? (policy key) = none) :
    ∃ m' s', (m.insert key value).result = .ok (.ok (), m') ∧ m'.Holds s' ∧
      s'.entries = Row.insert (policy key) (key, value) s.entries ∧
      m'.slab.slotCount = max m.slab.slotCount (m.size + 1) := by
  obtain ⟨log, s', grows⟩ := Insertion.grows (policy key) ⟨(m.slab.alloc key value).1, key, value⟩
    holds.balanced.root holds.balanced.noRedRed
  obtain ⟨m', run, holds', -, slots⟩ := holds.insertGrows missing grows
  obtain ⟨greater, less⟩ := Shape.cutGap (holds.sorted.aligned key) missing
  refine ⟨m', s', run, holds', ?_, slots.trans (holds.kept.alloc key value).size⟩
  rw [Shape.entriesEqCells, grows.cells, Shape.entriesEqCells, ← Shape.cutAppend (policy key) s, List.map_append,
    List.map_append, Row.insertGap greater less]
  rfl

theorem insertOld {key : K} (value : V) {holder : NodeId} (found : s.find? (policy key) = some holder) :
    ∃ m', (m.insert key value).result = .ok (.error .duplicateKey, m') ∧ m'.Holds s ∧
      m'.slab.free = (m.slab.alloc key value).1 :: (m.slab.alloc key value).2.free ∧
      m'.slab.slotCount = (m.slab.alloc key value).2.slotCount := by
  have allocated := holds.kept.alloc key value
  obtain ⟨out, linked⟩ := holds.prepared key value
  have run := Tree.insertHeld linked allocated.here found
  obtain ⟨-, removed⟩ := allocated.kept.remove allocated.here
  have alive : ∀ other, (((m.slab.alloc key value).2.remove (m.slab.alloc key value).1).2.get? other).isSome →
      other ∈ s.ids := by
    intro other live
    obtain ⟨apart, live⟩ := removed.alive live
    exact holds.alive other ((allocated.alive live).resolve_left apart)
  have linked' := removed.linked linked out
  exact ⟨_, insertRefused run, ⟨linked', holds.balanced, holds.sorted, removed.kept, alive⟩, removed.free, removed.size⟩

theorem removeErases [Std.TransCmp policy] {key : K} {id : NodeId} {entry : K × V}
    (erases : Erases (policy key) s log id entry s') :
    ∃ m', (m.removeEntry key).result = .ok (.ok entry, m') ∧ m'.Holds s' ∧ m'.slab.free = id :: m.slab.free ∧
      m'.slab.slotCount = m.slab.slotCount := by
  have aligned := holds.sorted.aligned key
  obtain ⟨t', run, linked, fresh, writes⟩ := Tree.eraseErases holds.linked aligned erases
  have kept : t'.store.Kept := holds.kept.rewrite writes
  obtain ⟨taken, removed⟩ := kept.remove fresh
  have once : (id :: s'.ids).Nodup := erases.ids.nodup_iff.mp holds.linked.once
  have alive : ∀ other, ((t'.store.remove id).2.get? other).isSome → other ∈ s'.ids := by
    intro other live
    obtain ⟨apart, live⟩ := removed.alive live
    have live : (m.slab.get? other).isSome := (writes.live other).symm.trans live
    exact (List.mem_cons.mp (erases.ids.mem_iff.mp (holds.alive other live))).resolve_left apart
  refine ⟨⟨{ t' with store := (t'.store.remove id).2 }⟩, ?_, ⟨?_, erases.balanced holds.balanced, ?_, removed.kept, alive⟩, ?_, ?_⟩
  · refine Traced.resultBindEqOk.mpr ⟨(.ok id, t'), congrArg Traced.result run, ?_⟩
    show (Traced.lift (Tree.require .unlinkedVanished (t'.store.remove id).1) >>= _).result = _
    rw [taken]
    rfl
  · exact removed.linked linked (List.nodup_cons.mp once).1
  · exact holds.sorted.erase (erases.singles holds.linked.once aligned)
  · exact removed.free.trans (congrArg (id :: ·) (Slab.rewriteBooks writes).1)
  · exact removed.size.trans (Storage.Rewrites.slotCount writes)

theorem removeHeld [Std.TransCmp policy] {key : K} (held : s.find? (policy key) ≠ none) :
    ∃ entry m' s', (m.removeEntry key).result = .ok (.ok entry, m') ∧ m'.Holds s' ∧
      Row.held? (policy key) s.entries = some entry ∧ s'.entries = Row.erase (policy key) s.entries ∧
      m'.slab.slotCount = m.slab.slotCount := by
  obtain ⟨log, id, entry, -, s', erases, -⟩ := Tree.erases holds.linked held
  obtain ⟨m', run, holds', -, slots⟩ := holds.removeErases erases
  obtain ⟨front, behind, before, after, equal, greater, less⟩ := erases.singles holds.linked.once (holds.sorted.aligned key)
  refine ⟨entry, m', s', run, holds', ?_, ?_, slots⟩
  · rw [before, Row.heldSingle greater equal]
  · rw [before, after, Row.eraseSingle greater less equal]

theorem removeMissing {key : K} (missing : s.find? (policy key) = none) :
    (m.removeEntry key).result = .ok (.error .notFound, m) := by
  simp [removeEntry, Tree.eraseMissing holds.linked missing]

theorem modifyHeld [Std.TransCmp policy] {key : K} (change : V → V) {id : NodeId} (found : s.find? (policy key) = some id) :
    ∃ entry m', m.modify key change = .ok (some entry.2, m') ∧ m'.Holds (s.give id (entry.1, change entry.2)) ∧
      Row.held? (policy key) s.entries = some entry ∧
      (s.give id (entry.1, change entry.2)).entries = Row.modify (policy key) change s.entries ∧
      m'.slab.free = m.slab.free ∧ m'.slab.slotCount = m.slab.slotCount := by
  obtain ⟨c, front, behind, row, rfl, equal, greater, less⟩ := Shape.findSplit (holds.sorted.aligned key) found
  obtain ⟨n, read, entry⟩ := holds.linked.spells.readCell (c := c) (by simp [row])
  have read : Storage.get? m.slab c.id = some n := read
  let changed : Node K V := { n with value := change n.value }
  have writes : Storage.Rewrites [c.id] m.slab (Storage.put m.slab c.id changed) := .one (by simp) _
  have run : m.modify key change = .ok (some n.value, ⟨{ m.tree with store := Storage.put m.slab c.id changed }⟩) := by
    simp only [OrderedMap.modify, holds.find, found, Storage.nodeOk read, Storage.modifyOk read, bind, Except.bind]
    rfl
  have spells : Spells (Storage.put m.tree.store c.id (n.takeEntry changed)) m.tree.root (s.give c.id changed.entry) :=
    holds.linked.spells.give read
  have linked : Linked ({ m.tree with store := Storage.put m.slab c.id changed } : Tree (Slab K V)) (s.give c.id changed.entry) :=
    ⟨spells, by rw [Shape.idsGive]; exact holds.linked.once⟩
  have held : s.entries = front.map Cell.entry ++ n.entry :: behind.map Cell.entry := by
    rw [Shape.entriesEqCells, row, List.map_append, List.map_cons, entry]
  have equal : policy key n.entry.1 = .eq := by rw [entry]; exact equal
  have entries : (s.give c.id changed.entry).entries = Row.modify (policy key) change s.entries := by
    rw [held, Row.modifySingle greater less equal, Shape.entriesEqCells, Shape.cellsGiveAt holds.linked.once row]
    simp [Cell.entry, Node.entry, changed]
  have sorted : (s.give c.id changed.entry).Sorted policy := by
    rw [Shape.Sorted, entries, Row.keysModify]
    exact holds.sorted
  have alive : ∀ other, ((Storage.put m.slab c.id changed).get? other).isSome → other ∈ (s.give c.id changed.entry).ids := by
    intro other live
    rw [Shape.idsGive]
    exact holds.alive other ((writes.live other).symm.trans live)
  refine ⟨n.entry, _, run, ⟨linked, holds.balanced.give, sorted, holds.kept.rewrite writes, alive⟩, ?_, entries,
    (Slab.rewriteBooks writes).1, writes.slotCount⟩
  rw [held, Row.heldSingle greater equal]

theorem modifyMissing {key : K} (change : V → V) (missing : s.find? (policy key) = none) :
    m.modify key change = .ok (none, m) := by
  simp only [OrderedMap.modify, holds.find, missing]
  rfl

end Holds

end OrderedMap

end RedBlack
