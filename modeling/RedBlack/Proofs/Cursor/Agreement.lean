import RedBlack.Walk

/-! A walk depends on the nodes it reads and on nothing else: over two storages that read alike it gives the
same entries, or ends in the same fault. -/
namespace RedBlack

inductive Agree {α β : Type} (R : α → β → Prop) : Except Fault α → Except Fault β → Prop where
  | ok {a : α} {b : β} (related : R a b) : Agree R (.ok a) (.ok b)
  | error (fault : Fault) : Agree R (.error fault) (.error fault)

namespace Agree
variable {α β γ δ : Type} {R : α → β → Prop} {S : γ → δ → Prop}

theorem same (x : Except Fault α) : Agree Eq x x := by
  cases x with
  | ok a => exact .ok rfl
  | error fault => exact .error fault

theorem bind {x : Traced α} {y : Traced β} {f : α → Traced γ} {g : β → Traced δ} (first : Agree R x.result y.result)
    (next : ∀ a b, R a b → Agree S (f a).result (g b).result) : Agree S (x >>= f).result (y >>= g).result := by
  rw [Traced.resultBind, Traced.resultBind]
  generalize x.result = before, y.result = before' at first
  cases first with
  | ok related => exact next _ _ related
  | error fault => exact .error fault

theorem map {x : Except Fault α} {y : Except Fault β} {f : α → γ} {g : β → δ} (first : Agree R x y)
    (next : ∀ a b, R a b → S (f a) (g b)) : Agree S (x.map f) (y.map g) := by
  cases first with
  | ok related => exact .ok (next _ _ related)
  | error fault => exact .error fault

theorem mapLeft {T : γ → β → Prop} {x : Except Fault α} {y : Except Fault β} {f : α → γ} (first : Agree R x y)
    (next : ∀ a b, R a b → T (f a) b) : Agree T (x.map f) y := by
  cases first with
  | ok related => exact .ok (next _ _ related)
  | error fault => exact .error fault

theorem weaken {T : α → β → Prop} {x : Except Fault α} {y : Except Fault β} (first : Agree R x y)
    (next : ∀ a b, R a b → T a b) : Agree T x y := by
  cases first with
  | ok related => exact .ok (next _ _ related)
  | error fault => exact .error fault

theorem bindSame {x : Traced α} {f : α → Traced γ} {g : α → Traced δ} (next : ∀ a, Agree S (f a).result (g a).result) :
    Agree S (x >>= f).result (x >>= g).result :=
  bind (same x.result) fun a _ same => same ▸ next a

end Agree

variable {σ K V : Type} [Storage σ K V] {store store' : σ}

namespace Cursor

inductive Twin : Cursor σ → Cursor σ → Prop where
  | detached (current : Option NodeId) (path : List NodeId) : Twin ⟨none, current, path⟩ ⟨none, current, path⟩
  | on {store store' : σ} (reads : ∀ id, Storage.node store id = Storage.node store' id) (current : Option NodeId)
      (path : List NodeId) : Twin ⟨some store, current, path⟩ ⟨some store', current, path⟩

section
variable (reads : ∀ id, Storage.node store id = Storage.node store' id)
include reads

theorem childAlike (id : NodeId) (side : Side) : Storage.child store id side = Storage.child store' id side := by
  rw [Storage.child, reads, Storage.child]

theorem descendAlike (side : Side) (room : Nat) (path : List NodeId) (id : NodeId) :
    descend store side room path id = descend store' side room path id := by
  induction room generalizing path id with
  | zero =>
      unfold descend
      rw [childAlike reads]
  | succ room ih =>
      unfold descend
      simp only [childAlike reads, ih]

theorem climbAlike (side : Side) (id : NodeId) (path : List NodeId) :
    climb store side id path = climb store' side id path := by
  induction path generalizing id with
  | nil => rfl
  | cons ancestor path ih => simp only [climb, childAlike reads, ih]

end

theorem Twin.atEnd {t t' : Tree σ} (root : t.root = t'.root) (reads : ∀ id, Storage.node t.store id = Storage.node t'.store id)
    (side : Side) : Agree Twin (atEnd t side).result (Cursor.atEnd t' side).result := by
  simp only [Cursor.atEnd, root, descendAlike reads]
  cases t'.root with
  | none => exact .ok (.on reads _ _)
  | some root => exact .bindSame fun _ => .ok (.on reads _ _)

theorem Twin.step {c c' : Cursor σ} (twin : Twin c c') (side : Side) : Agree Twin (c.step side).result (c'.step side).result := by
  cases twin with
  | detached current path => exact .ok (.detached current path)
  | on reads current path =>
      cases current with
      | none => exact .ok (.on reads _ _)
      | some id =>
          simp only [Cursor.step, childAlike reads, descendAlike reads, climbAlike reads]
          refine .bindSame fun link => ?_
          cases link with
          | none => exact .bindSame fun _ => .ok (.on reads _ _)
          | some next => exact .bindSame fun path => .bindSame fun _ => .ok (.on reads _ _)

theorem Twin.entry {c c' : Cursor σ} (twin : Twin c c') : c.entry = c'.entry := by
  cases twin with
  | detached current path => rfl
  | on reads current path =>
      cases current with
      | none => rfl
      | some id => simp only [Cursor.entry, reads]

end Cursor

namespace Walk

structure Twin (w w' : Walk σ) : Prop where
  cursor : w.cursor.Twin w'.cursor
  side : w.side = w'.side

theorem Twin.start {t t' : Tree σ} (root : t.root = t'.root) (reads : ∀ id, Storage.node t.store id = Storage.node t'.store id)
    (side : Side) : Agree Twin (start t side).result (Walk.start t' side).result :=
  .bind (Cursor.Twin.atEnd root reads side.opposite) fun _ _ cursor => .ok ⟨cursor, rfl⟩

theorem Twin.next {w w' : Walk σ} (twin : w.Twin w') :
    Agree (fun found found' => found.1 = found'.1 ∧ found.2.Twin found'.2) w.next.result w'.next.result := by
  obtain ⟨cursor, side⟩ := twin
  simp only [Walk.next, cursor.entry, side]
  refine .bindSame fun entry => ?_
  cases entry with
  | none => exact .ok ⟨rfl, cursor, side⟩
  | some entry => exact .bind (cursor.step w'.side) fun _ _ cursor => .ok ⟨rfl, cursor, rfl⟩

theorem Twin.collect {w w' : Walk σ} (twin : w.Twin w') (steps : Nat) :
    Agree Eq (collect steps w).result (Walk.collect steps w').result := by
  induction steps generalizing w w' with
  | zero => exact .same _
  | succ steps ih =>
      refine .bind twin.next ?_
      rintro ⟨entry, w₁⟩ ⟨_, w₁'⟩ ⟨rfl, twin⟩
      cases entry with
      | none => exact .ok rfl
      | some entry => exact .bind (ih twin) fun _ _ same => .ok (congrArg (entry :: ·) same)

end Walk

end RedBlack
