import RedBlack.Proofs.Erasure.Outcome

/-! Which entry an erasure takes away. The node that goes is the last one of the pass; where the cells are
aligned with the wanted key it is the match itself or comes right after it, so that one entry is missing
and the others keep their order. -/
namespace RedBlack

namespace Erasure
variable {K V : Type} {order : K → Ordering} {s : Shape K V} {log : List Event} {rounds : Nat} {f g : Frame K V}
  {rest : Path K V} (passes : Passes order rounds ⟨[], s⟩ log (f :: rest))
include passes

theorem idsErase : s.ids.Perm (f.cell.id :: (rest.fill f.far).ids) := by
  rw [← Shape.idsOfCells passes.cellsRoot]
  exact (Path.idsFill (f :: rest) .leaf).trans (.cons _ (Path.idsFill rest f.far).symm)

theorem balanceErase (balanced : s.Balanced) :
    (rest.fill f.far).NoRedRed ∧ ∃ h, (rest.fill f.far).BlackHeight h := by
  obtain ⟨h, even⟩ := balanced.even
  obtain ⟨led, noRedRed, h', even'⟩ := passes.balance trivial balanced.noRedRed even
  exact spliceBalance led noRedRed even'

theorem onceErase (once : s.ids.Nodup) : f.cell.id ∉ (rest.fill f.far).ids ∧ (rest.fill f.far).ids.Nodup :=
  List.nodup_cons.mp ((idsErase passes).nodup_iff.mp once)

theorem cellsErase (once : s.ids.Nodup) {front : List (Cell K V)} (row : (s.cut order).1 = front ++ [g.cell]) :
    ((rest.fill f.far).give g.cell.id f.cell.entry).cells.map Cell.entry =
      front.map Cell.entry ++ ((s.cut order).2).map Cell.entry := by
  obtain ⟨before, after⟩ := passes.cutRoot
  obtain ⟨out, onceRest⟩ := onceErase passes once
  rw [row] at before
  cases side : f.side with
  | left =>
      simp only [Path.before, Path.after, side] at before after
      have cells : (rest.fill f.far).cells = front ++ g.cell :: (f.far.cells ++ rest.after) := by
        rw [Path.cellsFill, before]
        simp
      rw [Shape.cellsGiveAt onceRest cells, ← after]
      simp [Cell.entry]
  | right =>
      simp only [Path.before, Path.after, side] at before after
      obtain ⟨rfl, last⟩ := List.append_inj' before rfl
      rw [List.singleton_inj.mp last] at out
      rw [Shape.giveOut out, Path.cellsFill, after, List.map_append]

theorem entriesErase (once : s.ids.Nodup) (aligned : Aligned order s.cells) (member : g ∈ f :: rest)
    (equal : order g.cell.key = .eq) :
    ∃ front behind, s.entries = front ++ g.cell.entry :: behind ∧
      ((rest.fill f.far).give g.cell.id f.cell.entry).entries = front ++ behind ∧
      (∀ e ∈ front, order e.1 = .gt) ∧ ∀ e ∈ behind, order e.1 = .lt := by
  obtain ⟨notLess, less⟩ := Shape.cutSeparates aligned
  have split := Shape.cutAppend order s
  have inside : g.cell ∈ (s.cut order).1 := by
    have whole : g.cell ∈ (Path.fill (f :: rest) .leaf).cells := Path.frameCell member
    rw [passes.cellsRoot, ← split, List.mem_append] at whole
    exact whole.resolve_right fun behind => by simp [less _ behind] at equal
  have alignedFront : Aligned order (s.cut order).1 := by
    rw [← split] at aligned
    exact (List.pairwise_append.mp aligned).1
  obtain ⟨front, row, greater⟩ := alignedFront.lastEqual notLess inside equal
  refine ⟨front.map Cell.entry, ((s.cut order).2).map Cell.entry, ?_, ?_, ?_, ?_⟩
  · rw [Shape.entriesEqCells, ← split, row]
    simp
  · rw [Shape.entriesEqCells]
    exact cellsErase passes once row
  · exact List.forall_mem_map.mpr greater
  · exact List.forall_mem_map.mpr less

end Erasure

def Tree.Singles {K V : Type} (order : K → Ordering) (entry : K × V) (row rest : List (K × V)) : Prop :=
  ∃ front behind, row = front ++ entry :: behind ∧ rest = front ++ behind ∧ order entry.1 = .eq ∧
    (∀ e ∈ front, order e.1 = .gt) ∧ ∀ e ∈ behind, order e.1 = .lt

namespace Erasure
variable {K V : Type} {order : K → Ordering} {s s' : Shape K V} {log : List Event} {id : NodeId} {entry : K × V}

inductive Erases (order : K → Ordering) (s : Shape K V) (log : List Event) : NodeId → K × V → Shape K V → Prop where
  | mk {f g : Frame K V} {rest : Path K V}
      (passes : Passes order (s.descent order + 1) ⟨[], s⟩ log (f :: rest)) (member : g ∈ f :: rest)
      (equal : order g.cell.key = .eq) :
      Erases order s log f.cell.id g.cell.entry ((rest.fill f.far).give g.cell.id f.cell.entry).blacken

theorem Erases.balanced (erases : Erases order s log id entry s') (balanced : s.Balanced) : s'.Balanced := by
  obtain ⟨passes, member, equal⟩ := erases
  obtain ⟨noRedRed, h, even⟩ := balanceErase passes balanced
  exact Shape.balancedBlacken (Shape.noRedRedGive.mpr noRedRed) ⟨h, Shape.blackHeightGive.mpr even⟩

theorem Erases.ids (erases : Erases order s log id entry s') : s.ids.Perm (id :: s'.ids) := by
  obtain ⟨passes, member, equal⟩ := erases
  rw [Shape.idsBlacken, Shape.idsGive]
  exact idsErase passes

theorem Erases.singles (erases : Erases order s log id entry s') (once : s.ids.Nodup) (aligned : Aligned order s.cells) :
    Tree.Singles order entry s.entries s'.entries := by
  obtain ⟨passes, member, equal⟩ := erases
  obtain ⟨front, behind, before, after, greater, less⟩ := entriesErase passes once aligned member equal
  refine ⟨front, behind, before, ?_, equal, greater, less⟩
  rw [Shape.entriesEqCells, Shape.cellsBlacken, ← Shape.entriesEqCells]
  exact after

end Erasure

namespace Tree
variable {σ K V : Type} [Storage σ K V] {t : Tree σ} {s s' : Shape K V} {policy : Policy K} {key : K} {log : List Event}
  {id : NodeId} {entry : K × V}

open Erasure (Erases)

theorem erases (linked : Linked t s) (held : s.find? (policy key) ≠ none) :
    ∃ log id entry t' s', Erases (policy key) s log id entry s' ∧ erase policy t key = ⟨log, .ok (.ok id, t')⟩ ∧
      Linked t' s' ∧ Storage.get? t'.store id = some (.fresh entry.1 entry.2) ∧ Storage.Rewrites s.ids t.store t'.store := by
  obtain ⟨log, f, rest, g, t', passes, member, equal, run, linked', fresh, writes⟩ := erasePasses linked held
  exact ⟨log, f.cell.id, g.cell.entry, t', _, .mk passes member equal, run, linked', fresh, writes⟩

theorem eraseErases (linked : Linked t s) (aligned : Aligned (policy key) s.cells)
    (erases : Erases (policy key) s log id entry s') :
    ∃ t', erase policy t key = ⟨log, .ok (.ok id, t')⟩ ∧ Linked t' s' ∧
      Storage.get? t'.store id = some (.fresh entry.1 entry.2) ∧ Storage.Rewrites s.ids t.store t'.store := by
  obtain @⟨f, g, rest, passes, member, equal⟩ := erases
  have inside : ∀ g ∈ f :: rest, g.cell ∈ s.cells := fun g member => passes.cellsRoot ▸ Path.frameCell member
  have held : s.find? (policy key) ≠ none := fun none => Shape.findNone aligned none _ (inside g member) equal
  obtain ⟨f', rest', g', t', bottom, member', equal', run, linked', fresh, writes⟩ := eraseShows linked held passes
  cases bottom
  have same : g'.cell = g.cell := aligned.unique (inside g' member') equal' (inside g member) equal
  rw [same] at linked' fresh
  exact ⟨t', run, linked', fresh, writes⟩

theorem eraseHeld (linked : Linked t s) (balanced : s.Balanced) (held : s.find? (policy key) ≠ none) :
    ∃ log id entry t' s', erase policy t key = ⟨log, .ok (.ok id, t')⟩ ∧ Linked t' s' ∧ s'.Balanced ∧
      s.ids.Perm (id :: s'.ids) ∧ Storage.get? t'.store id = some (.fresh entry.1 entry.2) ∧
      Storage.Rewrites s.ids t.store t'.store ∧
      (Aligned (policy key) s.cells → Singles (policy key) entry s.entries s'.entries) := by
  obtain ⟨log, id, entry, t', s', erases, run, linked', fresh, writes⟩ := erases linked held
  exact ⟨log, id, entry, t', s', run, linked', erases.balanced balanced, erases.ids, fresh, writes,
    erases.singles linked.once⟩

end Tree

theorem Shape.Sorted.erase {K V : Type} {policy : Policy K} {s s' : Shape K V} {order : K → Ordering} {entry : K × V}
    (sorted : s.Sorted policy) (singles : Tree.Singles order entry s.entries s'.entries) : s'.Sorted policy := by
  obtain ⟨front, behind, before, after, -⟩ := singles
  have fewer : s'.entries.Sublist s.entries := by
    rw [before, after]
    exact (List.sublist_cons_self ..).append_left front
  exact sorted.sublist (fewer.map Prod.fst)

end RedBlack
