import RedBlack.Slab
import RedBlack.Tree.Insertion
import RedBlack.Tree.Erasure
import RedBlack.Tree.Validation
import RedBlack.Walk

/-! A map in key order that owns its nodes: a tree over a slab. A new entry takes a slot before its key is
known to be new, and a refused one gives it back. -/
namespace RedBlack

structure OrderedMap (K V : Type) (policy : Policy K) where
  tree : Tree (Slab K V)
  deriving DecidableEq, Repr

namespace OrderedMap
variable {K V : Type} {policy : Policy K}

def empty : OrderedMap K V policy := ⟨.rootless .empty⟩

def slab (m : OrderedMap K V policy) : Slab K V := m.tree.store

def size (m : OrderedMap K V policy) : Nat := m.slab.live

def isEmpty (m : OrderedMap K V policy) : Bool := m.tree.isEmpty

def height (m : OrderedMap K V policy) : Except Fault Nat := m.tree.height

def clear (_ : OrderedMap K V policy) : OrderedMap K V policy := empty

def insert (m : OrderedMap K V policy) (key : K) (value : V) :
    Traced (Except Refusal Unit × OrderedMap K V policy) := do
  let (id, slab) := m.slab.alloc key value
  match ← Tree.insert policy { m.tree with store := slab } id with
  | (.ok (), tree) => return (.ok (), ⟨tree⟩)
  | (.error refusal, tree) => return (.error refusal, ⟨{ tree with store := (tree.store.remove id).2 }⟩)

def find? (m : OrderedMap K V policy) (key : K) : Except Fault (Option NodeId) := m.tree.search policy key

def lookup {α : Type} (m : OrderedMap K V policy) (key : K) (f : V → α) : Except Fault (Option α) := do
  match ← m.find? key with
  | none => return none
  | some id => return some (f (← Storage.node m.slab id).value)

def get? (m : OrderedMap K V policy) (key : K) : Except Fault (Option V) := m.lookup key id

def modify (m : OrderedMap K V policy) (key : K) (f : V → V) :
    Except Fault (Option V × OrderedMap K V policy) := do
  match ← m.find? key with
  | none => return (none, m)
  | some id =>
      let node ← Storage.node m.slab id
      let slab ← Storage.modify m.slab id fun node => { node with value := f node.value }
      return (some node.value, ⟨{ m.tree with store := slab }⟩)

def contains (m : OrderedMap K V policy) (key : K) : Except Fault Bool :=
  (m.find? key).map Option.isSome

def removeEntry (m : OrderedMap K V policy) (key : K) :
    Traced (Except Refusal (K × V) × OrderedMap K V policy) := do
  match ← m.tree.erase policy key with
  | (.error refusal, tree) => return (.error refusal, ⟨tree⟩)
  | (.ok id, tree) =>
      let (entry, slab) := tree.store.remove id
      return (.ok (← Tree.require .unlinkedVanished entry), ⟨{ tree with store := slab }⟩)

def remove (m : OrderedMap K V policy) (key : K) : Traced (Except Refusal V × OrderedMap K V policy) := do
  let (entry, m) ← m.removeEntry key
  return (entry.map Prod.snd, m)

def cursor (m : OrderedMap K V policy) : Traced (Cursor (Slab K V)) := Cursor.first m.tree

def walk (m : OrderedMap K V policy) (side : Side) : Traced (Walk (Slab K V)) := Walk.start m.tree side

def entries (m : OrderedMap K V policy) (side : Side) : Traced (List (K × V)) := m.tree.entries side

def first? (m : OrderedMap K V policy) : Traced (Option (K × V)) := do
  return (← (← m.walk .right).next).1

def last? (m : OrderedMap K V policy) : Traced (Option (K × V)) := do
  return (← (← m.walk .left).next).1

def validate (m : OrderedMap K V policy) : Except Fault (Except Violation Nat) := m.tree.validate policy

def assertInvariants (m : OrderedMap K V policy) : Except Fault Unit := do
  m.tree.assertInvariants policy
  let linked ← m.tree.size
  if linked ≠ m.size then throw (.strayNodes linked m.size)

end OrderedMap

end RedBlack
