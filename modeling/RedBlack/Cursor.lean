import RedBlack.Traced
import RedBlack.Tree.Basic

/-! A position in a tree whose nodes do not link back to their parents. The cursor records the ancestors
of its node, at most `heightLimit` of them, and climbs by taking them off again. It keeps the storage it
was placed on, and the tree cannot change under it. -/
namespace RedBlack

structure Cursor (σ : Type) where
  store : Option σ
  current : Option NodeId
  path : List NodeId

namespace Cursor
variable {σ K V : Type}

def detached : Cursor σ := ⟨none, none, []⟩

def depth (c : Cursor σ) : Nat := c.path.length

def isAttached (c : Cursor σ) : Bool := c.store.isSome

variable [Storage σ K V]

def overflow {α : Type} (id : NodeId) : Traced α := do
  Traced.note (.pathOverflow id heightLimit)
  Traced.fail (.pathOverflow heightLimit)

def push (path : List NodeId) (id : NodeId) : Traced (List NodeId) :=
  if path.length < heightLimit then pure (id :: path) else overflow id

def descend (store : σ) (side : Side) : Nat → List NodeId → NodeId → Traced (NodeId × List NodeId)
  | room, path, id => do
      match ← Storage.child store id side with
      | none => return (id, path)
      | some next =>
          match room with
          | 0 => overflow id
          | room + 1 => descend store side room (id :: path) next

def climb (store : σ) (side : Side) : NodeId → List NodeId → Except Fault (Option NodeId × List NodeId)
  | _, [] => .ok (none, [])
  | id, ancestor :: path => do
      if (← Storage.child store ancestor side) = some id then climb store side ancestor path
      else return (some ancestor, path)

def atEnd (t : Tree σ) (side : Side) : Traced (Cursor σ) := do
  match t.root with
  | none => return ⟨some t.store, none, []⟩
  | some root =>
      let (id, path) ← descend t.store side heightLimit [] root
      return ⟨some t.store, some id, path⟩

def first (t : Tree σ) : Traced (Cursor σ) := atEnd t .left

def last (t : Tree σ) : Traced (Cursor σ) := atEnd t .right

def step (c : Cursor σ) (side : Side) : Traced (Cursor σ) := do
  match c.store, c.current with
  | some store, some id =>
      match ← Storage.child store id side with
      | some next =>
          let path ← push c.path id
          let (id, path) ← descend store side.opposite (heightLimit - path.length) path next
          return { c with current := some id, path }
      | none =>
          let (ancestor, path) ← climb store side id c.path
          return { c with current := ancestor, path }
  | _, _ => return c

def next (c : Cursor σ) : Traced (Cursor σ) := c.step .right

def prev (c : Cursor σ) : Traced (Cursor σ) := c.step .left

def entry (c : Cursor σ) : Except Fault (Option (K × V)) :=
  match c.store, c.current with
  | some store, some id => (Storage.node store id).map fun node => some node.entry
  | _, _ => .ok none

end Cursor

end RedBlack
