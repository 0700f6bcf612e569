import RedBlack.Proofs.Insertion.Outcome

/-! Where an insertion puts the new node: between the two nodes where a plain descent of the tree as it was would
have hung it, under every policy. What its color and links were before makes no difference. -/
namespace RedBlack

namespace Shape
variable {K V : Type}

def attach (order : K → Ordering) (new : Cell K V) : Shape K V → Shape K V
  | leaf => new.sprout
  | node id color left key value right =>
      match Side.toward (order key) with
      | .left => node id color (left.attach order new) key value right
      | .right => node id color left key value (right.attach order new)

theorem cellsAttach (order : K → Ordering) (new : Cell K V) (s : Shape K V) :
    (s.attach order new).cells = (s.cut order).1 ++ new :: (s.cut order).2 := by
  induction s with
  | leaf => rfl
  | node id color left key value right ihLeft ihRight =>
      cases side : Side.toward (order key) <;> simp [attach, cut, cells, side, ihLeft, ihRight]

theorem idsAttach (order : K → Ordering) (new : Cell K V) (s : Shape K V) :
    (s.attach order new).ids = (s.cut order).1.map Cell.id ++ new.id :: (s.cut order).2.map Cell.id := by
  rw [idsEqCells, cellsAttach, List.map_append, List.map_cons]

theorem idsCut (order : K → Ordering) (s : Shape K V) :
    s.ids = (s.cut order).1.map Cell.id ++ (s.cut order).2.map Cell.id := by
  rw [idsEqCells, ← cutAppend order s, List.map_append]

end Shape

namespace Tree
variable {σ K V : Type} [Storage σ K V] {t t' : Tree σ} {s s' : Shape K V} {policy : Policy K} {id : NodeId} {n : Node K V}

structure SameBut (id : NodeId) (t other : Tree σ) : Prop where
  root : other.root = t.root
  elsewhere : ∀ node, node ≠ id → Storage.get? other.store node = Storage.get? t.store node
  entry : (Storage.get? other.store id).map Node.entry = (Storage.get? t.store id).map Node.entry

structure Same (t other : Tree σ) : Prop where
  root : other.root = t.root
  nodes : ∀ node, Storage.get? other.store node = Storage.get? t.store node

theorem SameBut.linked {other : Tree σ} (same : SameBut id t other) (linked : Linked t s) (out : id ∉ s.ids) : Linked other s where
  spells := by
    rw [same.root]
    exact linked.spells.transport fun node member => same.elsewhere node fun here => out (here ▸ member)
  once := linked.once

theorem SameBut.read {other : Tree σ} (same : SameBut id t other) (read : Storage.get? t.store id = some n) :
    ∃ m, Storage.get? other.store id = some m ∧ m.key = n.key ∧ m.value = n.value := by
  have entry := same.entry
  rw [read, Option.map_some, Option.map_eq_some_iff] at entry
  obtain ⟨m, read', entry⟩ := entry
  exact ⟨m, read', congrArg Prod.fst entry, congrArg Prod.snd entry⟩

theorem Linked.same {other other' : Tree σ} (linked : Linked t' s') (linked' : Linked other' s') {names : List NodeId}
    (writes : Storage.Rewrites names t.store t'.store) (writes' : Storage.Rewrites names other.store other'.store)
    (named : ∀ id ∈ names, id ∈ s'.ids) (before : ∀ id, id ∉ names → Storage.get? other.store id = Storage.get? t.store id) :
    Same t' other' where
  root := linked'.spells.linkEq.trans linked.spells.linkEq.symm
  nodes node := by
    by_cases inside : node ∈ s'.ids
    · exact linked'.spells.agree linked.spells node inside
    · have out : node ∉ names := fun member => inside (named node member)
      rw [writes'.elsewhere out, before node out, writes.elsewhere out]

structure Placed (policy : Policy K) (t t' : Tree σ) (s : Shape K V) (id : NodeId) (n : Node K V) : Prop where
  row : ∃ front behind s', s.ids = front ++ behind ∧
    (s.attach (policy n.key) ⟨id, n.key, n.value⟩).ids = front ++ id :: behind ∧ Linked t' s' ∧ s'.ids = front ++ id :: behind
  kept : ∀ other ∈ s.ids, (Storage.get? t'.store other).map Node.entry = (Storage.get? t.store other).map Node.entry
  carries : (Storage.get? t'.store id).map Node.entry = some n.entry
  untouched : ∀ other, other ∉ s.ids → other ≠ id → Storage.get? t'.store other = Storage.get? t.store other

theorem Linked.placed (linked : Linked t s) (linked' : Linked t' s')
    (cells : s'.cells = (s.cut (policy n.key)).1 ++ ⟨id, n.key, n.value⟩ :: (s.cut (policy n.key)).2)
    (writes : Storage.Rewrites (id :: s.ids) t.store t'.store) : Placed policy t t' s id n where
  row := by
    refine ⟨_, _, s', s.idsCut (policy n.key), s.idsAttach (policy n.key) ⟨id, n.key, n.value⟩, linked', ?_⟩
    rw [Shape.idsEqCells, cells, List.map_append, List.map_cons]
  kept other member := by
    rw [Shape.idsEqCells] at member
    obtain ⟨c, inside, rfl⟩ := List.mem_map.mp member
    have still : c ∈ s'.cells := by
      rw [← Shape.cutAppend (policy n.key) s] at inside
      rw [cells]
      simpa [or_left_comm] using Or.inr inside
    exact (linked'.spells.entryAt still).trans (linked.spells.entryAt inside).symm
  carries := by
    have new : (⟨id, n.key, n.value⟩ : Cell K V) ∈ s'.cells := by
      rw [cells]
      simp
    exact linked'.spells.entryAt new
  untouched other out apart := writes.elsewhere (by simp [out, apart])

theorem Linked.inserted (linked : Linked t s) (balanced : s.Balanced) (read : Storage.get? t.store id = some n)
    (out : id ∉ s.ids) (fresh : s.find? (policy n.key) = none) :
    ∃ t', (insert policy t id).result = .ok (.ok (), t') ∧ Placed policy t t' s id n ∧
      ∀ other : Tree σ, SameBut id t other → ∃ other',
        insert policy other id = ⟨(insert policy t id).log, .ok (.ok (), other')⟩ ∧ Same t' other' := by
  obtain ⟨log, s', grows⟩ := Insertion.grows (policy n.key) ⟨id, n.key, n.value⟩ balanced.root balanced.noRedRed
  obtain ⟨t', run, linked', writes⟩ := insertGrows linked read out fresh grows
  refine ⟨t', by rw [run], linked.placed linked' grows.cells writes, fun other same => ?_⟩
  obtain ⟨m, readOther, key, value⟩ := same.read read
  rw [← key] at fresh
  rw [← key, ← value] at grows
  obtain ⟨other', runOther, linkedOther, writesOther⟩ := insertGrows (same.linked linked out) readOther out fresh grows
  refine ⟨other', by rw [run, runOther], linked'.same linkedOther writes writesOther ?_ ?_⟩
  · intro node member
    rw [Shape.idsCut (policy n.key) s] at member
    rw [Shape.idsEqCells, grows.cells, key]
    simpa [or_left_comm] using member
  · intro node outside
    exact same.elsewhere node fun here => outside (here ▸ List.mem_cons_self)

theorem Linked.answers [Std.TransCmp policy] (linked : Linked t s) (balanced : s.Balanced) (sorted : s.Sorted policy)
    (read : Storage.get? t.store id = some n) :
    (s.find? (policy n.key) = none ∧ ∃ t', (insert policy t id).result = .ok (.ok (), t')) ∨
      s.find? (policy n.key) ≠ none ∧ (insert policy t id).result = .ok (.error .duplicateKey, t) := by
  cases found : s.find? (policy n.key) with
  | none =>
      have out : id ∉ s.ids := fun member =>
        (linked.findNoneIff (sorted.aligned n.key)).mp found id n member read Std.ReflCmp.compare_self
      obtain ⟨t', run, -⟩ := linked.inserted balanced read out found
      exact .inl ⟨rfl, t', run⟩
  | some holder => exact .inr ⟨nofun, congrArg Traced.result (insertHeld linked read found)⟩

/-- A node whose key the search does not find comes to stand where the plain insertion would have put it, whatever the
policy says and whatever the node was before. In a sorted tree only a key that compares equal is refused, and then
nothing changes. -/
theorem everyInsertionPlaced (policy : Policy K) (linked : Linked t s) (balanced : s.Balanced)
    (read : Storage.get? t.store id = some n) :
    (id ∉ s.ids → t.search policy n.key = .ok none →
      ∃ t', (insert policy t id).result = .ok (.ok (), t') ∧ Placed policy t t' s id n ∧
        ∀ other : Tree σ, SameBut id t other → ∃ other',
          insert policy other id = ⟨(insert policy t id).log, .ok (.ok (), other')⟩ ∧ Same t' other') ∧
    (Std.TransCmp policy → s.Sorted policy →
      ((∃ t', (insert policy t id).result = .ok (.error .duplicateKey, t')) ↔
        ∃ held m, held ∈ s.ids ∧ Storage.get? t.store held = some m ∧ policy n.key m.key = .eq) ∧
      (id ∈ s.ids → (insert policy t id).result = .ok (.error .duplicateKey, t)) ∧
      ∀ refusal t', (insert policy t id).result = .ok (.error refusal, t') → refusal = .duplicateKey ∧ t' = t) := by
  refine ⟨fun out missed => ?_, fun lawful sorted => ?_⟩
  · have fresh : s.find? (policy n.key) = none := Except.ok.inj ((linked.search policy n.key).symm.trans missed)
    exact linked.inserted balanced read out fresh
  have missing := linked.findNoneIff (sorted.aligned n.key)
  rcases linked.answers balanced sorted read with ⟨fresh, t₁, run⟩ | ⟨held, run⟩
  · have unequal := missing.mp fresh
    simp only [run]
    refine ⟨iff_of_false nofun ?_, fun member => ?_, nofun⟩
    · exact fun ⟨held, m, member, readHeld, equal⟩ => unequal held m member readHeld equal
    · exact absurd Std.ReflCmp.compare_self (unequal id n member read)
  · obtain ⟨held, m, member, readHeld, equal⟩ : ∃ held m, held ∈ s.ids ∧ Storage.get? t.store held = some m ∧
        policy n.key m.key = .eq := by
      simpa using mt missing.mpr held
    refine ⟨iff_of_true ⟨t, run⟩ ⟨held, m, member, readHeld, equal⟩, fun _ => run, fun refusal t' refused => ?_⟩
    cases run.symm.trans refused
    exact ⟨rfl, rfl⟩

def bentPair : Tree (Array (Node Nat Nat)) :=
  ⟨some ⟨0⟩, #[⟨.black, none, some ⟨1⟩, 10, 100⟩, ⟨.red, none, none, 30, 300⟩, ⟨.black, some ⟨2⟩, some ⟨0⟩, 20, 200⟩]⟩

theorem bentInsertionPlaced :
    (∃ (t' : Tree (Array (Node Nat Nat))) (s' : Shape Nat Nat),
      (insert (fun a b => if a < b then .lt else .gt) bentPair ⟨2⟩).result = .ok (.ok (), t') ∧ Linked t' s' ∧
      s'.ids = [⟨0⟩, ⟨2⟩, ⟨1⟩] ∧ (Storage.get? t'.store ⟨1⟩).map Node.entry = some (30, 300)) ∧
    (insert .natural bentPair ⟨1⟩).result = .ok (.error .duplicateKey, bentPair) := by
  have linked : Linked bentPair (.node ⟨0⟩ .black .leaf 10 100 (.node ⟨1⟩ .red .leaf 30 300 .leaf)) :=
    ⟨Spells.nodeIff.mpr ⟨rfl, rfl, .leaf, Spells.nodeIff.mpr ⟨rfl, rfl, .leaf, .leaf⟩⟩, by decide⟩
  have balanced : (Shape.node ⟨0⟩ .black .leaf 10 100 (.node ⟨1⟩ .red .leaf 30 300 .leaf)).Balanced :=
    ⟨rfl, by simp [Shape.NoRedRed, Shape.color], 1, by simp [Shape.BlackHeight]⟩
  constructor
  · obtain ⟨t', run, placed, -⟩ :=
      (everyInsertionPlaced (fun a b => if a < b then .lt else .gt) linked balanced
        (rfl : Storage.get? _ ⟨2⟩ = some ⟨.black, some ⟨2⟩, some ⟨0⟩, 20, 200⟩)).1 (by decide) rfl
    obtain ⟨front, behind, s', -, plain, linked', ids⟩ := placed.row
    exact ⟨t', s', run, linked', ids.trans (plain.symm.trans (by decide)), placed.kept ⟨1⟩ (by decide)⟩
  · have refused := (everyInsertionPlaced .natural linked balanced
      (rfl : Storage.get? _ ⟨1⟩ = some ⟨.red, none, none, 30, 300⟩)).2 inferInstance (by decide)
    exact refused.2.1 (by decide)

end Tree

end RedBlack
