import RedBlack.Proofs.Balance
import RedBlack.Proofs.Linked

/-! Entries that change their nodes. Giving a node another entry leaves every link and color as it is. -/
namespace RedBlack

def Cell.give {K V : Type} (id : NodeId) (entry : K × V) (c : Cell K V) : Cell K V :=
  if c.id = id then ⟨c.id, entry.1, entry.2⟩ else c

@[simp] theorem Cell.idGive {K V : Type} {id : NodeId} {entry : K × V} (c : Cell K V) :
    (c.give id entry).id = c.id := by
  unfold Cell.give
  split <;> rfl

theorem Cell.giveOut {K V : Type} {id : NodeId} {entry : K × V} {row : List (Cell K V)} (out : id ∉ row.map Cell.id) :
    row.map (Cell.give id entry) = row := by
  have kept : ∀ c ∈ row, c.give id entry = c := by
    intro c member
    have other : c.id ≠ id := fun same => out (same ▸ List.mem_map_of_mem member)
    simp [give, other]
  rw [List.map_congr_left kept, List.map_id']

namespace Shape
variable {K V : Type} {id : NodeId} {entry : K × V}

def give (id : NodeId) (entry : K × V) : Shape K V → Shape K V
  | leaf => leaf
  | node other color left key value right =>
      fork .left (Cell.give id entry ⟨other, key, value⟩) color (left.give id entry) (right.give id entry)

@[simp] theorem giveFork (side : Side) (c : Cell K V) (color : Color) (near far : Shape K V) :
    (fork side c color near far).give id entry =
      fork side (c.give id entry) color (near.give id entry) (far.give id entry) := by cases side <;> rfl

@[simp] theorem linkGive (s : Shape K V) : (s.give id entry).link = s.link := by
  obtain rfl | ⟨c, color, near, far, rfl⟩ := s.forkCases .left
  · rfl
  · rw [giveFork, linkFork, linkFork, Cell.idGive]

@[simp] theorem colorGive (s : Shape K V) : (s.give id entry).color = s.color := by
  obtain rfl | ⟨c, color, near, far, rfl⟩ := s.forkCases .left
  · rfl
  · rw [giveFork, colorFork, colorFork]

theorem blackenGive (s : Shape K V) : (s.give id entry).blacken = s.blacken.give id entry := by
  obtain rfl | ⟨c, color, near, far, rfl⟩ := s.forkCases .left
  · rfl
  · rw [giveFork, blackenFork, blackenFork, giveFork]

theorem cellsGive (s : Shape K V) : (s.give id entry).cells = s.cells.map (Cell.give id entry) := by
  induction s with
  | leaf => rfl
  | node other color left key value right ihLeft ihRight =>
      simp only [give, fork, cells, ihLeft, ihRight, List.map_append, List.map_cons]

@[simp] theorem idsGive (s : Shape K V) : (s.give id entry).ids = s.ids := by
  rw [idsEqCells, cellsGive, idsEqCells, List.map_map]
  exact List.map_congr_left fun c _ => Cell.idGive c

theorem giveOut {s : Shape K V} (out : id ∉ s.ids) : s.give id entry = s := by
  induction s with
  | leaf => rfl
  | node other color left key value right ihLeft ihRight =>
      simp only [ids, List.mem_append, List.mem_cons, not_or] at out
      obtain ⟨outLeft, other', outRight⟩ := out
      simp [give, ihLeft outLeft, ihRight outRight, Cell.give, Ne.symm other', fork]

theorem cellsGiveAt {s : Shape K V} {front behind : List (Cell K V)} {c : Cell K V} (once : s.ids.Nodup)
    (row : s.cells = front ++ c :: behind) :
    (s.give c.id entry).cells = front ++ ⟨c.id, entry.1, entry.2⟩ :: behind := by
  rw [idsEqCells, row, List.map_append, List.map_cons, List.nodup_append, List.nodup_cons] at once
  obtain ⟨-, ⟨outBehind, -⟩, apart⟩ := once
  have outFront : c.id ∉ front.map Cell.id := fun member => apart c.id member c.id List.mem_cons_self rfl
  rw [cellsGive, row, List.map_append, List.map_cons, Cell.giveOut outFront, Cell.giveOut outBehind]
  simp [Cell.give]

theorem noRedRedGive {s : Shape K V} : (s.give id entry).NoRedRed ↔ s.NoRedRed := by
  induction s with
  | leaf => rfl
  | node other color left key value right ihLeft ihRight =>
      rw [give, noRedRedFork, ihLeft, ihRight, colorGive, colorGive]
      rfl

theorem blackHeightGive {s : Shape K V} {h : Nat} : (s.give id entry).BlackHeight h ↔ s.BlackHeight h := by
  induction s generalizing h with
  | leaf => rfl
  | node other color left key value right ihLeft ihRight =>
      rw [give, blackHeightFork, blackHeightNode]
      simp only [ihLeft, ihRight]

theorem Balanced.give {s : Shape K V} (balanced : s.Balanced) : (s.give id entry).Balanced := by
  obtain ⟨root, noRedRed, h, even⟩ := balanced
  exact ⟨by rw [colorGive, root], noRedRedGive.mpr noRedRed, h, blackHeightGive.mpr even⟩

end Shape

def Frame.give {K V : Type} (id : NodeId) (entry : K × V) (f : Frame K V) : Frame K V :=
  ⟨f.cell.give id entry, f.color, f.side, f.far.give id entry⟩

namespace Path
variable {K V : Type} {id : NodeId} {entry : K × V}

def give (id : NodeId) (entry : K × V) (path : Path K V) : Path K V := path.map (Frame.give id entry)

@[simp] theorem ownerGive (path : Path K V) : (path.give id entry).owner = path.owner := by
  cases path with
  | nil => rfl
  | cons f above => simp [give, Frame.give]

@[simp] theorem sideGive (path : Path K V) : (path.give id entry).side = path.side := by cases path <;> rfl

theorem giveFill (path : Path K V) (s : Shape K V) :
    (path.fill s).give id entry = (path.give id entry).fill (s.give id entry) := by
  induction path generalizing s with
  | nil => rfl
  | cons f above ih =>
      rw [fillCons, ih]
      simp [give, Frame.fill, Frame.give]

end Path

variable {σ K V : Type} [Storage σ K V] {id : NodeId} {n other : Node K V}

theorem Spells.give {store : σ} {link : Option NodeId} {s : Shape K V} (h : Spells store link s)
    (read : Storage.get? store id = some n) :
    Spells (Storage.put store id (n.takeEntry other)) link (s.give id other.entry) := by
  induction h with
  | leaf => exact .leaf
  | @node id' n' left right read' spellsLeft spellsRight ihLeft ihRight =>
      rw [spellsLeft.linkEq] at ihLeft
      rw [spellsRight.linkEq] at ihRight
      refine Spells.forkIff.mpr ⟨by simp, ?_, by simpa using ihLeft, by simpa using ihRight⟩
      by_cases here : id' = id
      · subst here
        obtain rfl := Option.some.inj (read'.symm.trans read)
        simp [Storage.getPutHere, read, Cell.node, Cell.give, Node.takeEntry, Node.entry, spellsLeft.linkEq,
          spellsRight.linkEq]
      · rw [Cell.idGive, Storage.getPutElsewhere _ _ here, read']
        simp [Cell.node, Cell.give, here, ← spellsLeft.linkEq, ← spellsRight.linkEq]

namespace Tree
open Storage (Rewrites)

theorem Linked.swapEntries {t : Tree σ} {s : Shape K V} (h : Linked t s) {a b : NodeId} {x y : Node K V}
    (distinct : a ≠ b) (readA : Storage.get? t.store a = some x) (readB : Storage.get? t.store b = some y) :
    ∃ store, Storage.swapEntries t.store a b = .ok store ∧
      Linked ({ t with store } : Tree σ) ((s.give a y.entry).give b x.entry) ∧
      Storage.get? store b = some (y.takeEntry x) ∧ Rewrites [a, b] t.store store := by
  have readB' : Storage.get? (Storage.put t.store a (x.takeEntry y)) b = some y := by
    rw [Storage.getPutElsewhere _ _ (Ne.symm distinct), readB]
  refine ⟨_, Storage.swapEntriesOk distinct readA readB, ⟨(h.spells.give readA).give readB', ?_⟩,
    Storage.getPutSame readB' _, .put b _ (by simp) (.one (by simp) _)⟩
  rw [Shape.idsGive, Shape.idsGive]
  exact h.once

end Tree

end RedBlack
