import RedBlack.Tree.Basic
import RedBlack.Proofs.Path

/-! Trees in storage. A place of the spelled shape is a place in the storage: the path is written in the
nodes above it, the subtree in the nodes below, and writing below does not reach above. -/
namespace RedBlack

namespace NodeId

def below (count : Nat) : List NodeId := (List.range count).map NodeId.mk

@[simp] theorem memBelow {count : Nat} {id : NodeId} : id ∈ below count ↔ id.index < count := by
  cases id
  simp [below]

@[simp] theorem lengthBelow (count : Nat) : (below count).length = count := by simp [below]

theorem onceBelow (count : Nat) : (below count).Nodup := by
  refine List.Pairwise.map _ ?_ List.nodup_range
  intro a b distinct same
  exact distinct (NodeId.mk.inj same)

end NodeId

namespace Storage
variable {σ K V : Type} [Storage σ K V]

theorem getPutSame {store : σ} {id : NodeId} {old : Node K V} (read : get? store id = some old)
    (n : Node K V) : get? (put store id n) id = some n := by simp [getPutHere, read]

theorem childRead {store : σ} {id : NodeId} {n : Node K V} (read : get? store id = some n) (side : Side) :
    child store id side = .ok (n.child side) := by simp [child, nodeOk read, Except.map]

theorem setChildWrite {store : σ} {id : NodeId} {n : Node K V} (read : get? store id = some n) (side : Side)
    (link : Option NodeId) : setChild store id side link = .ok (put store id (n.setChild side link)) :=
  modifyOk read _

theorem paintWrite {store : σ} {id : NodeId} {n : Node K V} (read : get? store id = some n) (color : Color) :
    paint store id color = .ok (put store id (n.paint color)) := modifyOk read _

inductive Rewrites (names : List NodeId) (store : σ) : σ → Prop where
  | none : Rewrites names store store
  | put {store'} (id : NodeId) (n : Node K V) (named : id ∈ names) (rest : Rewrites names store store') :
      Rewrites names store (put store' id n)

namespace Rewrites
variable {names names' : List NodeId} {store store' store'' : σ}

theorem one {id : NodeId} (named : id ∈ names) (n : Node K V) : Rewrites names store (Storage.put store id n) :=
  .put id n named .none

theorem trans (first : Rewrites names store store') (second : Rewrites names store' store'') :
    Rewrites names store store'' := by
  induction second with
  | none => exact first
  | put id n named _ ih => exact .put id n named ih

theorem widen (h : Rewrites names store store') (more : ∀ id ∈ names, id ∈ names') :
    Rewrites names' store store' := by
  induction h with
  | none => exact .none
  | put id n named _ ih => exact .put id n (more id named) ih

theorem slotCount (h : Rewrites names store store') : Storage.slotCount store' = Storage.slotCount store := by
  induction h with
  | none => rfl
  | put id n named _ ih => rw [slotCountPut, ih]

theorem elsewhere (h : Rewrites names store store') {id : NodeId} (unnamed : id ∉ names) :
    get? store' id = get? store id := by
  induction h with
  | none => rfl
  | put other n named _ ih =>
      have apart : id ≠ other := fun same => unnamed (same ▸ named)
      rw [getPutElsewhere _ _ apart, ih]

theorem live (h : Rewrites names store store') (id : NodeId) :
    (get? store' id).isSome = (get? store id).isSome := by
  induction h with
  | none => rfl
  | @put store' other n named _ ih =>
      by_cases same : id = other
      · subst same
        rw [getPutHere, Option.isSome_map, ih]
      · rw [getPutElsewhere _ _ same, ih]

end Rewrites

end Storage

open Storage (Rewrites)

namespace Spells
variable {σ K V : Type} [Storage σ K V] {store store' : σ}

theorem linkEq {link : Option NodeId} {s : Shape K V} (h : Spells store link s) : link = s.link := by
  cases h <;> rfl

theorem nodeIff {link : Option NodeId} {id : NodeId} {color : Color} {left right : Shape K V} {key : K} {value : V} :
    Spells store link (.node id color left key value right) ↔
      link = some id ∧ Storage.get? store id = some ⟨color, left.link, right.link, key, value⟩ ∧
        Spells store left.link left ∧ Spells store right.link right := by
  constructor
  · intro h
    cases h with
    | node read spellsLeft spellsRight =>
        rw [← spellsLeft.linkEq, ← spellsRight.linkEq]
        exact ⟨rfl, read, spellsLeft, spellsRight⟩
  · intro h
    obtain ⟨rfl, read, spellsLeft, spellsRight⟩ := h
    exact .node read spellsLeft spellsRight

theorem agree {σ' : Type} [Storage σ' K V] {store' : σ'} {link link' : Option NodeId} {s : Shape K V} (h : Spells store link s)
    (h' : Spells store' link' s) : ∀ id ∈ s.ids, Storage.get? store id = Storage.get? store' id := by
  induction s generalizing link link' with
  | leaf => simp [Shape.ids]
  | node id color left key value right ihLeft ihRight =>
      obtain ⟨-, read, spellsLeft, spellsRight⟩ := nodeIff.mp h
      obtain ⟨-, read', spellsLeft', spellsRight'⟩ := nodeIff.mp h'
      intro other member
      rcases List.mem_append.mp member with member | member
      · exact ihLeft spellsLeft spellsLeft' other member
      rcases List.mem_cons.mp member with rfl | member
      · exact read.trans read'.symm
      · exact ihRight spellsRight spellsRight' other member

theorem readCell {link : Option NodeId} {s : Shape K V} (h : Spells store link s) {c : Cell K V} (member : c ∈ s.cells) :
    ∃ n, Storage.get? store c.id = some n ∧ n.entry = c.entry := by
  induction h with
  | leaf => cases member
  | @node id n left right read _ _ ihLeft ihRight =>
      simp only [Shape.cells, List.mem_append, List.mem_cons] at member
      rcases member with member | rfl | member
      · exact ihLeft member
      · exact ⟨n, read, rfl⟩
      · exact ihRight member

theorem entryAt {link : Option NodeId} {s : Shape K V} (h : Spells store link s) {c : Cell K V} (member : c ∈ s.cells) :
    (Storage.get? store c.id).map Node.entry = some c.entry := by
  obtain ⟨n, read, entry⟩ := h.readCell member
  rw [read, Option.map_some, entry]

theorem cellAt {link : Option NodeId} {s : Shape K V} (h : Spells store link s) {id : NodeId} (member : id ∈ s.ids)
    {n : Node K V} (read : Storage.get? store id = some n) : ⟨id, n.key, n.value⟩ ∈ s.cells := by
  rw [Shape.idsEqCells] at member
  obtain ⟨c, inside, rfl⟩ := List.mem_map.mp member
  obtain ⟨n', read', entry⟩ := h.readCell inside
  obtain rfl := Option.some.inj (read'.symm.trans read)
  have key : n'.key = c.key := congrArg Prod.fst entry
  have value : n'.value = c.value := congrArg Prod.snd entry
  rw [key, value]
  exact inside

theorem forkIff {link : Option NodeId} {side : Side} {c : Cell K V} {color : Color} {near far : Shape K V} :
    Spells store link (.fork side c color near far) ↔
      link = some c.id ∧ Storage.get? store c.id = some (c.node color side near.link far.link) ∧
        Spells store near.link near ∧ Spells store far.link far := by
  cases side with
  | left => exact nodeIff
  | right =>
      refine nodeIff.trans ?_
      simp only [Cell.node, and_comm (a := Spells store far.link far)]

theorem someFork {id : NodeId} {s : Shape K V} (h : Spells store (some id) s) (side : Side) :
    ∃ c color near far, c.id = id ∧ s = .fork side c color near far := by
  obtain rfl | ⟨c, color, near, far, rfl⟩ := s.forkCases side
  · cases h
  · exact ⟨c, color, near, far, (Option.some.inj (h.linkEq.trans (Shape.linkFork ..))).symm, rfl⟩

theorem childBelow {id : NodeId} {s : Shape K V} (h : Spells store (some id) s) (side : Side) :
    Storage.child store id side = .ok (s.child side).link ∧ Spells store (s.child side).link (s.child side) := by
  cases h with
  | node read spellsLeft spellsRight =>
      have child := Storage.childRead read side
      cases side with
      | left => exact ⟨child.trans (congrArg Except.ok spellsLeft.linkEq), spellsLeft.linkEq ▸ spellsLeft⟩
      | right => exact ⟨child.trans (congrArg Except.ok spellsRight.linkEq), spellsRight.linkEq ▸ spellsRight⟩

theorem forkBelow {id next : NodeId} {s : Shape K V} {side : Side} (h : Spells store (some id) s)
    (hangs : Storage.child store id side = .ok (some next)) (turn : Side) :
    ∃ c color near far, c.id = next ∧ s.child side = .fork turn c color near far := by
  obtain ⟨child, below⟩ := h.childBelow side
  rw [Except.ok.inj (child.symm.trans hangs)] at below
  exact below.someFork turn

theorem linksAlike {link link' : Option NodeId} {side : Side} {c : Cell K V} {color color' : Color}
    {near far near' far' : Shape K V} (h : Spells store link (.fork side c color near far))
    (h' : Spells store' link' (.fork side c color' near' far')) (sameNear : near'.link = near.link)
    (sameFar : far'.link = far.link) (other : Side) :
    (Storage.get? store' c.id).map (·.child other) = (Storage.get? store c.id).map (·.child other) := by
  obtain ⟨-, read, -, -⟩ := forkIff.mp h
  obtain ⟨-, read', -, -⟩ := forkIff.mp h'
  rw [read, read', sameNear, sameFar, Option.map_some, Option.map_some, Cell.childRecolor c color]

theorem colorAt {id : NodeId} {s : Shape K V} (h : Spells store (some id) s) :
    (Storage.get? store id).map Node.color = some s.color := by
  cases h with
  | node read spellsLeft spellsRight =>
      rw [read]
      rfl

theorem entriesKept {link link' : Option NodeId} {s s' : Shape K V} {names : List NodeId} (h : Spells store link s)
    (h' : Spells store' link' s') (same : s'.cells = s.cells) (writes : Rewrites names store store')
    (inside : ∀ id ∈ names, id ∈ s.ids) (id : NodeId) :
    (Storage.get? store' id).map Node.entry = (Storage.get? store id).map Node.entry := by
  by_cases member : id ∈ s.ids
  · rw [Shape.idsEqCells] at member
    obtain ⟨c, cell, rfl⟩ := List.mem_map.mp member
    exact (h'.entryAt (same ▸ cell)).trans (h.entryAt cell).symm
  · rw [writes.elsewhere fun named => member (inside id named)]

theorem keep {link : Option NodeId} {s : Shape K V} {names : List NodeId} (h : Spells store link s)
    (writes : Rewrites names store store') (apart : ∀ id ∈ s.ids, id ∉ names) : Spells store' link s :=
  h.transport fun id member => writes.elsewhere (apart id member)

theorem keepPut {link : Option NodeId} {s : Shape K V} (h : Spells store link s) {id : NodeId}
    (out : id ∉ s.ids) (n : Node K V) : Spells (Storage.put store id n) link s :=
  h.transport fun _ member => Storage.getPutElsewhere _ _ (fun same => out (same ▸ member))

theorem isRed {link : Option NodeId} {s : Shape K V} (h : Spells store link s) :
    Storage.isRed store link = .ok (decide (s.color = .red)) := by
  cases h with
  | leaf => rfl
  | node read left right =>
      simp only [Storage.isRed, Storage.nodeOk read, Except.map]
      rfl

end Spells

namespace Tree
variable {σ K V : Type} [Storage σ K V]

/-- The links below the root spell a shape and reach no node twice. -/
structure Linked (t : Tree σ) (s : Shape K V) : Prop where
  spells : Spells t.store t.root s
  once : s.ids.Nodup

def Leads (t : Tree σ) : Path K V → Option NodeId → Prop
  | [], hole => t.root = hole
  | f :: above, hole =>
      Storage.get? t.store f.cell.id = some (f.node hole) ∧ Spells t.store f.far.link f.far ∧
        Leads t above (some f.cell.id)

theorem spellsFill {t : Tree σ} {path : Path K V} {s : Shape K V} :
    Spells t.store t.root (path.fill s) ↔ Leads t path s.link ∧ Spells t.store s.link s := by
  induction path generalizing s with
  | nil =>
      refine ⟨fun h => ⟨h.linkEq, h.linkEq ▸ h⟩, fun ⟨root, h⟩ => ?_⟩
      have root : t.root = s.link := root
      simpa only [Path.fillNil, root] using h
  | cons f above ih =>
      rw [Path.fillCons, ih]
      simp only [Frame.fill, Shape.linkFork, Spells.forkIff, Leads, Frame.node, true_and]
      constructor
      · intro h
        obtain ⟨up, read, near, far⟩ := h
        exact ⟨⟨read, far, up⟩, near⟩
      · intro h
        obtain ⟨⟨read, far, up⟩, near⟩ := h
        exact ⟨up, read, near, far⟩

theorem Leads.transport {t t' : Tree σ} {path : Path K V} {hole : Option NodeId} (h : Leads t path hole)
    (root : t'.root = t.root)
    (same : ∀ id ∈ Path.names path, Storage.get? t'.store id = Storage.get? t.store id) : Leads t' path hole := by
  induction path generalizing hole with
  | nil => exact root.trans h
  | cons f above ih =>
      obtain ⟨read, far, up⟩ := h
      simp only [Path.namesCons, List.mem_cons, List.mem_append] at same
      exact ⟨(same _ (.inl rfl)).trans read, far.transport fun id member => same id (.inr (.inl member)),
        ih up fun id member => same id (.inr (.inr member))⟩

theorem Leads.frame {t : Tree σ} {path : Path K V} {hole : Option NodeId} (h : Leads t path hole) {f : Frame K V}
    (member : f ∈ path) : ∃ below, Storage.get? t.store f.cell.id = some (f.node below) := by
  induction path generalizing hole with
  | nil => cases member
  | cons g above ih =>
      rcases List.mem_cons.mp member with rfl | member
      · exact ⟨hole, h.1⟩
      · exact ih h.2.2 member

theorem Leads.slot {t : Tree σ} {path : Path K V} {hole : Option NodeId} (h : Leads t path hole) :
    t.slot (Path.owner path) (Path.side path) = .ok hole := by
  cases path with
  | nil => exact congrArg Except.ok h
  | cons f above => simpa [Tree.slot, Frame.node] using Storage.childRead h.1 f.side

theorem Leads.sideOf {t : Tree σ} {path : Path K V} {id : NodeId} (h : Leads t path (some id))
    (apart : id ∉ Path.names path) : t.sideOf (Path.owner path) id = .ok (Path.side path) := by
  cases path with
  | nil =>
      have root : t.root = some id := h
      simp [Tree.sideOf, Tree.slot, root, bind, Except.bind, pure, Except.pure]
  | cons f above =>
      have other : f.far.link ≠ some id := fun same =>
        apart (List.mem_cons_of_mem _ (List.mem_append_left _ (Shape.linkMem same)))
      have read := Storage.childRead h.1 .right
      cases side : f.side <;>
        simp [Tree.sideOf, Tree.slot, read, Frame.node, side, Cell.node, Node.child, other, bind, Except.bind,
          pure, Except.pure]

theorem Leads.setSlot {t : Tree σ} {path : Path K V} {hole : Option NodeId} (h : Leads t path hole)
    (once : (Path.names path).Nodup) (link : Option NodeId) :
    ∃ t', t.setSlot (Path.owner path) (Path.side path) link = .ok t' ∧ Leads t' path link ∧
      Rewrites (Path.owner path).toList t.store t'.store := by
  cases path with
  | nil => exact ⟨{ t with root := link }, rfl, rfl, .none⟩
  | cons f above =>
      obtain ⟨read, far, up⟩ := h
      simp only [Path.namesCons, List.nodup_cons, List.mem_append, not_or] at once
      obtain ⟨⟨outFar, outAbove⟩, -⟩ := once
      refine ⟨{ t with store := Storage.put t.store f.cell.id (f.node link) }, ?_, ⟨?_, ?_, ?_⟩, ?_⟩
      · simp [Tree.setSlot, Storage.setChildWrite read, Frame.node, Except.map]
      · exact Storage.getPutSame read _
      · exact far.keepPut outFar _
      · exact up.transport rfl fun id member =>
          Storage.getPutElsewhere _ _ fun same => outAbove (same ▸ member)
      · exact .one (by simp) _

namespace Linked
variable {t : Tree σ} {path : Path K V} {s s' : Shape K V}

theorem leads (h : Linked t (Path.fill path s)) : Leads t path s.link := (spellsFill.mp h.spells).1

theorem focus (h : Linked t (Path.fill path s)) : Spells t.store s.link s := (spellsFill.mp h.spells).2

theorem live (h : Linked t s) {id : NodeId} (member : id ∈ s.ids) : (Storage.get? t.store id).isSome :=
  h.spells.live id member

theorem relink (h : Linked t (Path.fill path s)) {store : σ} {names : List NodeId}
    (writes : Rewrites names t.store store) (inside : ∀ id ∈ names, id ∈ s.ids) (spells : Spells store s'.link s')
    (once : (Path.fill path s').ids.Nodup) :
    ∃ t', ({ t with store } : Tree σ).setSlot (Path.owner path) (Path.side path) s'.link = .ok t' ∧
      Linked t' (Path.fill path s') ∧ Rewrites (Path.fill path s).ids t.store t'.store := by
  have kept : Leads ({ t with store } : Tree σ) path s.link :=
    h.leads.transport rfl fun id member =>
      writes.elsewhere fun named => Path.apart h.once (inside id named) member
  obtain ⟨t', set, leads, owner⟩ := kept.setSlot (Path.nodupNames h.once) s'.link
  have below : Spells t'.store s'.link s' := by
    refine spells.keep owner fun id member named => ?_
    exact Path.apart once member (Path.ownerMem (by simpa using named))
  refine ⟨t', set, ⟨spellsFill.mpr ⟨leads, below⟩, once⟩, ?_⟩
  refine (writes.widen fun id named => ?_).trans (owner.widen fun id named => ?_)
  · exact Path.memFill.mpr (.inl (inside id named))
  · exact Path.memFill.mpr (.inr (Path.ownerMem (by simpa using named)))

theorem rewrite (h : Linked t (Path.fill path s)) {store : σ} (writes : Rewrites s.ids t.store store)
    (spells : Spells store s'.link s') (top : s'.link = s.link) (once : (Path.fill path s').ids.Nodup) :
    Linked ({ t with store } : Tree σ) (Path.fill path s') := by
  have kept : Leads ({ t with store } : Tree σ) path s.link :=
    h.leads.transport rfl fun id member => writes.elsewhere fun named => Path.apart h.once named member
  exact ⟨spellsFill.mpr ⟨top ▸ kept, spells⟩, once⟩

theorem paint {side : Side} {c : Cell K V} {color : Color} {near far : Shape K V}
    (h : Linked t (Path.fill path (.fork side c color near far))) (color' : Color) :
    ∃ store, Storage.paint t.store c.id color' = .ok store ∧
      Linked ({ t with store } : Tree σ) (Path.fill path (.fork side c color' near far)) ∧
      Rewrites [c.id] t.store store := by
  obtain ⟨-, read, spellsNear, spellsFar⟩ := Spells.forkIff.mp h.focus
  obtain ⟨⟨outNear, outFar⟩, -⟩ := (Shape.onceFork ..).mp (Path.nodupFocus h.once)
  have painted : Spells (Storage.put t.store c.id (c.node color' side near.link far.link)) (some c.id)
      (.fork side c color' near far) :=
    Spells.forkIff.mpr ⟨rfl, Storage.getPutSame read _, spellsNear.keepPut outNear _, spellsFar.keepPut outFar _⟩
  have same : (Shape.fork side c color' near far).ids.Perm (Shape.fork side c color near far).ids :=
    (Shape.idsFork ..).trans (Shape.idsFork ..).symm
  refine ⟨Storage.put t.store c.id (c.node color' side near.link far.link), ?_, ⟨spellsFill.mpr ⟨?_, ?_⟩, ?_⟩,
    .one (by simp) _⟩
  · rw [Storage.paintWrite read, Cell.paintNode]
  · rw [Shape.linkFork]
    refine (Shape.linkFork side c color near far ▸ h.leads).transport rfl fun id member => ?_
    refine Storage.getPutElsewhere _ _ fun here => Path.apart h.once ?_ member
    rw [here]
    exact (Shape.memIdsFork ..).mpr (.inl rfl)
  · rw [Shape.linkFork]
    exact painted
  · exact (Path.namesOfPerm path same).nodup_iff.mpr h.once

theorem onceOf (h : Linked t (Path.fill path s)) (same : s'.ids.Perm s.ids) : (Path.fill path s').ids.Nodup :=
  (Path.namesOfPerm path same).nodup_iff.mpr h.once

end Linked

end Tree

end RedBlack
