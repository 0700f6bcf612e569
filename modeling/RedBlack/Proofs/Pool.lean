import RedBlack.Proofs.Slab

/-! Runs of a slab against their history. The history alone says which node each place holds, which places have been given
back and not yet taken again, and which have ever been handed out; the slab's own books agree with it after every call. -/
namespace RedBlack

namespace Storage
variable {σ K V : Type} [Storage σ K V] {s s' : σ}

theorem modifyEqOk {id : NodeId} {f : Node K V → Node K V} :
    modify s id f = .ok s' ↔ ∃ n, get? s id = some n ∧ put s id (f n) = s' := by
  cases read : get? s id with
  | none => simp [modify, node, read, Except.map]
  | some n => simp [modifyOk read]

theorem swapEntriesEqOk {a b : NodeId} :
    swapEntries s a b = .ok s' ↔
      a ≠ b ∧ ∃ x y, get? s a = some x ∧ get? s b = some y ∧ put (put s a (x.takeEntry y)) b (y.takeEntry x) = s' := by
  by_cases same : a = b
  · simp [swapEntries, same]
  cases readA : get? s a with
  | none =>
      simp only [swapEntries, if_neg same, readA]
      split <;> simp
  | some x =>
      cases readB : get? s b with
      | none =>
          simp only [swapEntries, if_neg same, readA, readB]
          split <;> simp
      | some y => simp [swapEntriesOk same readA readB, same]

end Storage

namespace Slab
variable {K V : Type}

inductive Request (K V : Type) where
  | alloc (key : K) (value : V)
  | remove (id : NodeId)
  | clear
  | write (id : NodeId) (change : Node K V → Node K V)
  | swap (a b : NodeId)

inductive Deed (K V : Type) where
  | placed (id : NodeId) (key : K) (value : V)
  | removed (id : NodeId) (entry : Option (K × V))
  | cleared
  | written (id : NodeId) (change : Node K V → Node K V)
  | swapped (a b : NodeId)

def perform (slab : Slab K V) : Request K V → Except Fault (Deed K V × Slab K V)
  | .alloc key value => .ok (.placed (slab.alloc key value).1 key value, (slab.alloc key value).2)
  | .remove id => .ok (.removed id (slab.remove id).1, (slab.remove id).2)
  | .clear => .ok (.cleared, .empty)
  | .write id change => (Storage.modify slab id change).map fun slab => (.written id change, slab)
  | .swap a b => (Storage.swapEntries slab a b).map fun slab => (.swapped a b, slab)

def Allowed (slab : Slab K V) : Request K V → Prop
  | .write id _ => (slab.get? id).isSome
  | .swap a b => a ≠ b ∧ (slab.get? a).isSome ∧ (slab.get? b).isSome
  | _ => True

/-! A history has its latest deed in front. -/

def exchanged (here there : Option (Node K V)) : Option (Node K V) := do return (← here).takeEntry (← there)

def held : List (Deed K V) → NodeId → Option (Node K V)
  | [], _ => none
  | .placed here key value :: past, id => if id = here then some (.fresh key value) else held past id
  | .removed gone _ :: past, id => if id = gone then none else held past id
  | .cleared :: _, _ => none
  | .written here change :: past, id => if id = here then (held past id).map change else held past id
  | .swapped a b :: past, id =>
      if id = a then exchanged (held past a) (held past b)
      else if id = b then exchanged (held past b) (held past a)
      else held past id

def waiting : List (Deed K V) → List NodeId
  | [] | .cleared :: _ => []
  | .placed id .. :: past => (waiting past).filter (· ≠ id)
  | .removed id (some _) :: past => id :: waiting past
  | .removed _ none :: past | .written .. :: past | .swapped .. :: past => waiting past

def opened : List (Deed K V) → List NodeId
  | [] | .cleared :: _ => []
  | .placed id .. :: past => id :: opened past
  | .removed .. :: past | .written .. :: past | .swapped .. :: past => opened past

def Deed.peak (peak live : Nat) : Deed K V → Nat
  | .cleared => 0
  | _ => max peak live

inductive Reached : Slab K V → List (Deed K V) → Nat → Prop where
  | start : Reached .empty [] 0
  | step {slab slab' : Slab K V} {past : List (Deed K V)} {peak : Nat} {deed : Deed K V} (request : Request K V)
      (before : Reached slab past peak) (result : slab.perform request = .ok (deed, slab')) :
      Reached slab' (deed :: past) (deed.peak peak slab'.live)

structure Recorded (slab : Slab K V) (past : List (Deed K V)) (peak : Nat) : Prop where
  kept : slab.Kept
  nodes : ∀ id, slab.get? id = held past id
  pool : slab.free = waiting past
  opened : ∀ id, id ∈ opened past ↔ id.index < slab.slotCount
  size : slab.slotCount = peak

theorem recordedEmpty : (empty : Slab K V).Recorded [] 0 :=
  ⟨keptEmpty, fun _ => rfl, rfl, by simp [opened, slotCount, empty], rfl⟩

namespace Recorded
variable {slab slab' : Slab K V} {past : List (Deed K V)} {peak : Nat} (recorded : slab.Recorded past peak)
include recorded

theorem next : ∀ key value, (slab.alloc key value).1 = (waiting past).headD ⟨slab.slotCount⟩ := by
  intro key value
  rw [← recorded.pool]
  cases free : slab.free with
  | nil => exact (allocPushed free key value).1
  | cons id rest => exact (allocReused free key value).1

theorem alloc (key : K) (value : V) :
    (slab.alloc key value).2.Recorded (.placed (slab.alloc key value).1 key value :: past)
      (max peak (slab.alloc key value).2.live) := by
  have allocated := recorded.kept.alloc key value
  refine ⟨allocated.kept, fun id => ?_, ?_, fun id => ?_, ?_⟩
  · by_cases here : id = (slab.alloc key value).1
    · simp [held, here, allocated.here]
    · simp [held, here, allocated.elsewhere id here, recorded.nodes]
  · rw [waiting, ← recorded.pool]
    cases free : slab.free with
    | nil => exact (allocPushed free key value).2.1
    | cons first rest =>
        obtain ⟨same, left, -⟩ := allocReused free key value
        have once := recorded.kept.once
        rw [free, List.nodup_cons] at once
        have others : ∀ other ∈ rest, other ≠ first := fun other member same => once.1 (same ▸ member)
        rw [left, same, List.filter_cons_of_neg (by simp), List.filter_eq_self.mpr (by simpa using others)]
  · rw [Slab.opened, List.mem_cons, recorded.opened]
    cases free : slab.free with
    | nil =>
        obtain ⟨same, -, size⟩ := allocPushed free key value
        rw [same, size, Nat.lt_succ_iff, Nat.le_iff_lt_or_eq]
        cases id
        simp [or_comm]
    | cons first rest =>
        obtain ⟨same, -, size⟩ := allocReused free key value
        have below := ((recorded.kept.dead first).mp (by simp [free])).1
        rw [same, size]
        exact or_iff_right_of_imp fun here => here ▸ below
  · rw [allocated.live, ← recorded.size]
    exact allocated.size

theorem quiet (size : slab'.slotCount = slab.slotCount) (live : slab'.live ≤ slab.live) :
    slab'.slotCount = max peak slab'.live := by
  have room : slab.live ≤ slab.slotCount := recorded.kept.liveLe
  rw [size, ← recorded.size]
  omega

theorem remove (id : NodeId) :
    (slab.remove id).2.Recorded (.removed id (slab.remove id).1 :: past) (max peak (slab.remove id).2.live) := by
  cases read : slab.get? id with
  | none =>
      have missed : slab.remove id = (none, slab) := by simp [Slab.remove, read]
      rw [missed]
      refine ⟨recorded.kept, fun other => ?_, recorded.pool, recorded.opened, recorded.quiet rfl (Nat.le_refl _)⟩
      by_cases here : other = id
      · simp [held, here, read]
      · simp [held, here, recorded.nodes]
  | some n =>
      obtain ⟨answer, removed⟩ := recorded.kept.remove read
      have size : (slab.remove id).2.slotCount = slab.slotCount := removed.size
      have live := removed.live
      rw [answer]
      refine ⟨removed.kept, fun other => ?_, ?_, fun other => ?_, recorded.quiet size (by omega)⟩
      · by_cases here : other = id
        · simp [held, here, removed.here]
        · simp [held, here, removed.elsewhere other here, recorded.nodes]
      · rw [removed.free, recorded.pool, waiting]
      · rw [size, Slab.opened, recorded.opened]

theorem rewrite {names : List NodeId} (writes : Storage.Rewrites names slab slab') {deed : Deed K V}
    (nodes : ∀ id, slab'.get? id = held (deed :: past) id) (pool : waiting (deed :: past) = waiting past)
    (handed : Slab.opened (deed :: past) = Slab.opened past) : slab'.Recorded (deed :: past) (max peak slab'.live) := by
  obtain ⟨free, live⟩ := rewriteBooks writes
  have size : slab'.slotCount = slab.slotCount := writes.slotCount
  refine ⟨recorded.kept.rewrite writes, nodes, ?_, fun id => ?_, recorded.quiet size (Nat.le_of_eq live)⟩
  · rw [free, recorded.pool, pool]
  · rw [handed, size, recorded.opened]

theorem write {id : NodeId} {change : Node K V → Node K V} (run : Storage.modify slab id change = .ok slab') :
    slab'.Recorded (.written id change :: past) (max peak slab'.live) := by
  obtain ⟨n, read, rfl⟩ := Storage.modifyEqOk.mp run
  refine recorded.rewrite (.one (List.mem_singleton_self id) _) (fun other => ?_) rfl rfl
  by_cases here : other = id
  · have read : slab.get? id = some n := read
    simp [held, here, ← recorded.nodes, read, Storage.put, getPut]
  · simp [held, here, ← recorded.nodes, Storage.put, getPutOther slab (change n) here]

theorem swap {a b : NodeId} (run : Storage.swapEntries slab a b = .ok slab') :
    slab'.Recorded (.swapped a b :: past) (max peak slab'.live) := by
  obtain ⟨apart, x, y, readA, readB, rfl⟩ := Storage.swapEntriesEqOk.mp run
  refine recorded.rewrite (.put b _ (by simp) (.one (by simp : a ∈ [a, b]) _)) (fun other => ?_) rfl rfl
  have readA : slab.get? a = some x := readA
  have readB : slab.get? b = some y := readB
  simp only [Storage.put, held, ← recorded.nodes, readA, readB, exchanged]
  by_cases atA : other = a
  · rw [getPutOther _ _ (atA ▸ apart), atA, getPut, readA]
    simp
  · by_cases atB : other = b
    · rw [if_neg atA, if_pos atB, atB, getPut, getPutOther _ _ (Ne.symm apart), readB]
      rfl
    · rw [if_neg atA, if_neg atB, getPutOther _ _ atB, getPutOther _ _ atA]

theorem step {request : Request K V} {deed : Deed K V} (result : slab.perform request = .ok (deed, slab')) :
    slab'.Recorded (deed :: past) (deed.peak peak slab'.live) := by
  cases request with
  | alloc key value =>
      cases result
      exact recorded.alloc key value
  | remove id =>
      cases result
      exact recorded.remove id
  | clear =>
      cases result
      exact ⟨keptEmpty, fun _ => rfl, rfl, by simp [Slab.opened, slotCount, empty], rfl⟩
  | write id change =>
      cases run : Storage.modify slab id change with
      | error fault => simp [perform, run, Except.map] at result
      | ok after =>
          simp only [perform, run, Except.map] at result
          cases result
          exact recorded.write run
  | swap a b =>
      cases run : Storage.swapEntries slab a b with
      | error fault => simp [perform, run, Except.map] at result
      | ok after =>
          simp only [perform, run, Except.map] at result
          cases result
          exact recorded.swap run

end Recorded

section
variable {slab : Slab K V} {past : List (Deed K V)} {peak : Nat}

theorem Reached.recorded (reached : Reached slab past peak) : slab.Recorded past peak := by
  induction reached with
  | start => exact recordedEmpty
  | step request before result ih => exact ih.step result

theorem performed {request : Request K V} (allowed : slab.Allowed request) :
    ∃ deed slab', slab.perform request = .ok (deed, slab') := by
  cases request with
  | alloc key value => exact ⟨_, _, rfl⟩
  | remove id => exact ⟨_, _, rfl⟩
  | clear => exact ⟨_, _, rfl⟩
  | write id change =>
      obtain ⟨n, read⟩ := Option.isSome_iff_exists.mp allowed
      have read : Storage.get? slab id = some n := read
      exact ⟨_, _, by rw [perform, Storage.modifyOk read]; rfl⟩
  | swap a b =>
      obtain ⟨apart, liveA, liveB⟩ := allowed
      obtain ⟨x, readA⟩ := Option.isSome_iff_exists.mp liveA
      obtain ⟨y, readB⟩ := Option.isSome_iff_exists.mp liveB
      have readA : Storage.get? slab a = some x := readA
      have readB : Storage.get? slab b = some y := readB
      exact ⟨_, _, by rw [perform, Storage.swapEntriesOk apart readA readB]; rfl⟩

theorem Kept.countLive (kept : slab.Kept) :
    slab.live = (NodeId.below slab.slotCount).countP fun id => (slab.get? id).isSome := by
  have count := kept.count
  have dead : slab.free.Perm ((NodeId.below slab.slotCount).filter fun id => ¬ (slab.get? id).isSome) := by
    refine (List.perm_ext_iff_of_nodup kept.once ((NodeId.onceBelow _).filter _)).mpr fun id => ?_
    simp [kept.dead, slotCount]
  have parts := List.length_eq_countP_add_countP (fun id => (slab.get? id).isSome) (l := NodeId.below slab.slotCount)
  rw [List.countP_eq_length_filter (p := fun id => decide (¬ (slab.get? id).isSome)), ← dead.length_eq, NodeId.lengthBelow] at parts
  rw [slotCount] at parts ⊢
  omega

theorem everyRunPooled (reached : Reached slab past peak) :
    (∀ id, slab.get? id = held past id) ∧
      (∀ key value, (slab.alloc key value).1 = (waiting past).headD ⟨slab.slotCount⟩ ∧
        Allocated slab (slab.alloc key value).1 (.fresh key value) (slab.alloc key value).2) ∧
      (∀ id, (slab.remove id).1 = (slab.get? id).map Node.entry ∧
        ((slab.get? id).isSome → Removed slab id (slab.remove id).2) ∧ (slab.get? id = none → (slab.remove id).2 = slab)) ∧
      (slab.free.Nodup ∧ ∀ id, id ∈ slab.free ↔ id.index < slab.slotCount ∧ slab.get? id = none) ∧
      slab.live = ((NodeId.below slab.slotCount).countP fun id => (slab.get? id).isSome) ∧
      ((∀ id, id ∈ opened past ↔ id.index < slab.slotCount) ∧ slab.slotCount = peak) ∧
      ∀ request, slab.Allowed request → ∃ deed slab', slab.perform request = .ok (deed, slab') := by
  have recorded := reached.recorded
  refine ⟨recorded.nodes, fun key value => ⟨recorded.next key value, recorded.kept.alloc key value⟩, fun id => ?_,
    ⟨recorded.kept.once, recorded.kept.dead⟩, recorded.kept.countLive, ⟨recorded.opened, recorded.size⟩,
    fun request => performed⟩
  cases read : slab.get? id with
  | none => simp [remove, read]
  | some n =>
      obtain ⟨answer, removed⟩ := recorded.kept.remove read
      exact ⟨answer, fun _ => removed, fun none => absurd none (Option.some_ne_none n)⟩

def onePlaceFree : Slab Nat Nat :=
  ⟨#[none, some ⟨.red, none, none, 4, 40⟩, some ⟨.black, none, none, 2, 20⟩], [⟨0⟩], 2⟩

theorem threePlacesPooled :
    ∃ past : List (Deed Nat Nat),
      past = [.written ⟨2⟩ (·.paint .black), .swapped ⟨1⟩ ⟨2⟩, .placed ⟨2⟩ 4 40, .removed ⟨2⟩ none,
        .removed ⟨2⟩ (some (3, 30)), .removed ⟨0⟩ (some (1, 10)), .placed ⟨2⟩ 3 30, .placed ⟨1⟩ 2 20, .placed ⟨0⟩ 1 10] ∧
      onePlaceFree.get? ⟨2⟩ = held past ⟨2⟩ ∧ (onePlaceFree.alloc 5 50).1 = (waiting past).headD ⟨3⟩ ∧
      (onePlaceFree.remove ⟨1⟩).1 = some (4, 40) ∧ Removed onePlaceFree ⟨1⟩ (onePlaceFree.remove ⟨1⟩).2 ∧
      (onePlaceFree.remove ⟨0⟩).2 = onePlaceFree ∧
      onePlaceFree.live = ((NodeId.below 3).countP fun id => (onePlaceFree.get? id).isSome) ∧ onePlaceFree.slotCount = 3 ∧
      ∃ deed slab', onePlaceFree.perform (.swap ⟨1⟩ ⟨2⟩) = .ok (deed, slab') := by
  have placed : Reached (⟨#[some (.fresh 1 10), some (.fresh 2 20), some (.fresh 3 30)], [], 3⟩ : Slab Nat Nat) _ _ :=
    ((Reached.start.step (.alloc 1 10) rfl).step (.alloc 2 20) rfl).step (.alloc 3 30) rfl
  have freed : Reached (⟨#[none, some (.fresh 2 20), none], [⟨2⟩, ⟨0⟩], 1⟩ : Slab Nat Nat) _ _ :=
    ((placed.step (.remove ⟨0⟩) rfl).step (.remove ⟨2⟩) rfl).step (.remove ⟨2⟩) rfl
  have reached : Reached onePlaceFree _ 3 :=
    ((freed.step (.alloc 4 40) rfl).step (.swap ⟨1⟩ ⟨2⟩) rfl).step (.write ⟨2⟩ (·.paint .black)) rfl
  obtain ⟨nodes, alloc, remove, -, live, ⟨-, size⟩, further⟩ := everyRunPooled reached
  obtain ⟨entry, removed, -⟩ := remove ⟨1⟩
  obtain ⟨-, -, missed⟩ := remove ⟨0⟩
  exact ⟨_, rfl, nodes ⟨2⟩, (alloc 5 50).1, entry, removed rfl, missed rfl, live, size,
    further (.swap ⟨1⟩ ⟨2⟩) ⟨by decide, rfl, rfl⟩⟩

end

end Slab

end RedBlack
