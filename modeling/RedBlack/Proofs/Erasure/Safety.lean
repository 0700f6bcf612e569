import RedBlack.Proofs.Erasure.Removal

/-! Erasure where nothing but the links is in order: colors, keys and policy may be anything. It still ends without
a fault and takes one node and one entry away, though not always the entry that the node had. -/
namespace RedBlack

namespace Shape
variable {K V : Type}

theorem entriesGive {s : Shape K V} {c : Cell K V} (once : s.ids.Nodup) (member : c ∈ s.cells) (entry : K × V) :
    (c.entry :: (s.give c.id entry).entries).Perm (entry :: s.entries) := by
  obtain ⟨front, behind, row⟩ := List.append_of_mem member
  have given : (s.give c.id entry).entries = front.map Cell.entry ++ entry :: behind.map Cell.entry := by
    rw [entriesEqCells, cellsGiveAt once row, List.map_append, List.map_cons]
    rfl
  have before : s.entries = front.map Cell.entry ++ c.entry :: behind.map Cell.entry := by
    rw [entriesEqCells, row, List.map_append, List.map_cons]
  rw [given, before]
  calc (c.entry :: (front.map Cell.entry ++ entry :: behind.map Cell.entry)).Perm
        (c.entry :: entry :: (front.map Cell.entry ++ behind.map Cell.entry)) := .cons _ List.perm_middle
    _ |>.Perm (entry :: c.entry :: (front.map Cell.entry ++ behind.map Cell.entry)) := .swap ..
    _ |>.Perm (entry :: (front.map Cell.entry ++ c.entry :: behind.map Cell.entry)) := .cons _ List.perm_middle.symm

end Shape

namespace Erasure
variable {K V : Type} {order : K → Ordering} {s s' : Shape K V} {log : List Event} {id : NodeId} {entry : K × V}

theorem entriesSplice {rounds : Nat} {f : Frame K V} {rest : Path K V} (passes : Passes order rounds ⟨[], s⟩ log (f :: rest)) :
    s.entries.Perm (f.cell.entry :: (rest.fill f.far).entries) := by
  rw [Shape.entriesEqCells, ← passes.cellsRoot, Shape.entriesEqCells]
  refine (List.Perm.map Cell.entry ?_ : List.Perm _ ((f.cell :: (rest.fill f.far).cells).map Cell.entry))
  rw [Path.fillCons, Path.cellsFill, Path.cellsFill]
  cases side : f.side with
  | left => simp [Frame.fill, Shape.fork, Shape.cells, side]
  | right =>
      simp only [Frame.fill, Shape.fork, Shape.cells, side, List.append_assoc, List.cons_append]
      rw [← List.append_assoc, ← List.append_assoc]
      exact List.perm_middle

theorem Erases.equal (erases : Erases order s log id entry s') : order entry.1 = .eq := by
  obtain ⟨passes, member, equal⟩ := erases
  exact equal

theorem Erases.entriesKept (erases : Erases order s log id entry s') (once : s.ids.Nodup) :
    (entry :: s'.entries).Perm s.entries := by
  obtain @⟨f, g, rest, passes, member, equal⟩ := erases
  obtain ⟨out, onceRest⟩ := onceErase passes once
  rw [Shape.entriesEqCells _, Shape.cellsBlacken, ← Shape.entriesEqCells]
  rcases List.mem_cons.mp member with rfl | member
  · rw [Shape.giveOut out]
    exact (entriesSplice passes).symm
  · exact (Shape.entriesGive onceRest (Path.frameCell member) f.cell.entry).trans (entriesSplice passes).symm

theorem Erases.idsIff (erases : Erases order s log id entry s') (once : s.ids.Nodup) (other : NodeId) :
    other ∈ s'.ids ↔ other ∈ s.ids ∧ other ≠ id := by
  obtain ⟨out, -⟩ := List.nodup_cons.mp (erases.ids.nodup_iff.mp once)
  rw [erases.ids.mem_iff, List.mem_cons]
  constructor
  · exact fun member => ⟨.inr member, fun same => out (same ▸ member)⟩
  · exact fun ⟨member, apart⟩ => member.resolve_left apart

end Erasure

namespace Tree
variable {σ K V : Type} [Storage σ K V] {t : Tree σ} {s : Shape K V}

/-- Either no key on the way of the search compares equal, and the caller is left with what it had; or one node
leaves the tree. It carries an entry whose key compares equal, and the other entries are still in the tree. -/
theorem everyErasureAccounted (linked : Linked t s) (policy : Policy K) (key : K) :
    (t.search policy key = .ok none ∧ (erase policy t key).result = .ok (.error .notFound, t)) ∨
      ∃ holder id n t' s', t.search policy key = .ok (some holder) ∧ (erase policy t key).result = .ok (.ok id, t') ∧
        Linked t' s' ∧ id ∈ s.ids ∧ (∀ other, other ∈ s'.ids ↔ other ∈ s.ids ∧ other ≠ id) ∧
        Storage.get? t'.store id = some n ∧ policy key n.key = .eq ∧ (n.entry :: s'.entries).Perm s.entries := by
  have searched := linked.search policy key
  cases found : s.find? (policy key) with
  | none =>
      exact .inl ⟨found ▸ searched, congrArg Traced.result (eraseMissing linked found)⟩
  | some holder =>
      obtain ⟨log, id, entry, t', s', erases, run, linked', fresh, -⟩ :=
        erases linked (show s.find? (policy key) ≠ none by simp [found])
      refine .inr ⟨holder, id, _, t', s', found ▸ searched, by rw [run], linked', ?_, erases.idsIff linked.once, fresh,
        erases.equal, erases.entriesKept linked.once⟩
      exact erases.ids.mem_iff.mpr List.mem_cons_self

def mostlyRed : Tree (Array (Node Nat Nat)) :=
  ⟨some ⟨0⟩, #[⟨.red, some ⟨1⟩, some ⟨2⟩, 3, 30⟩, ⟨.red, none, none, 5, 50⟩, ⟨.red, some ⟨3⟩, none, 1, 10⟩,
    ⟨.black, none, none, 9, 90⟩]⟩

theorem lawlessErasureAccounted :
    ∃ (t' : Tree (Array (Node Nat Nat))) (s' : Shape Nat Nat) (n : Node Nat Nat),
      (erase (fun a b => if a = b then .eq else .gt) mostlyRed 3).result = .ok (.ok ⟨2⟩, t') ∧ Linked t' s' ∧
      (∀ other, other ∈ s'.ids ↔ other ∈ [⟨1⟩, ⟨0⟩, ⟨3⟩, ⟨2⟩] ∧ other ≠ ⟨2⟩) ∧ t'.store[2]? = some n ∧
      (n.entry :: s'.entries).Perm [(5, 50), (3, 30), (9, 90), (1, 10)] := by
  have linked : Linked mostlyRed (.node ⟨0⟩ .red (.node ⟨1⟩ .red .leaf 5 50 .leaf) 3 30
      (.node ⟨2⟩ .red (.node ⟨3⟩ .black .leaf 9 90 .leaf) 1 10 .leaf)) := by
    refine ⟨Spells.nodeIff.mpr ⟨rfl, rfl, ?_, Spells.nodeIff.mpr ⟨rfl, rfl, ?_, .leaf⟩⟩, by decide⟩
    · exact Spells.nodeIff.mpr ⟨rfl, rfl, .leaf, .leaf⟩
    · exact Spells.nodeIff.mpr ⟨rfl, rfl, .leaf, .leaf⟩
  rcases everyErasureAccounted linked (fun a b => if a = b then .eq else .gt) 3 with
    ⟨missed, -⟩ | ⟨_, id, n, t', s', -, run, linked', -, ids, read, -, entries⟩
  · exact absurd (missed.symm.trans rfl : Except.ok none = Except.ok (some (⟨0⟩ : NodeId))) (by simp)
  · obtain rfl : ⟨2⟩ = id := by
      have first : _ = Except.ok (Except.ok id) := congrArg (Except.map Prod.fst) run
      exact Except.ok.inj (Except.ok.inj first)
    exact ⟨t', s', n, run, linked', ids, read, entries⟩

end Tree

end RedBlack
