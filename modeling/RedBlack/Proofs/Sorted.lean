import RedBlack.Order
import RedBlack.Proofs.Path
import RedBlack.Proofs.Search

/-! Sorted shapes, and where a key belongs in them. A descent knows the policy only through the answers
it gives for the wanted key; `Aligned` is what being sorted means for these answers. -/
namespace RedBlack

namespace Policy
variable {K : Type}

instance naturalTrans [Ord K] [Std.TransOrd K] : Std.TransCmp (natural : Policy K) :=
  inferInstanceAs (Std.TransCmp (compare : K → K → Ordering))

instance byMeasureTrans (measure : K → Nat) : Std.TransCmp (byMeasure measure) :=
  inferInstanceAs (Std.TransCmp (compareOn measure))

end Policy

/-- The answers for one key along a row of cells: first greater, then at most one equal, then less. -/
def Aligned {K V : Type} (order : K → Ordering) (cells : List (Cell K V)) : Prop :=
  cells.Pairwise fun a b => order a.key = .gt ∨ order b.key = .lt

namespace Aligned
variable {K V : Type} {order : K → Ordering} {left right : List (Cell K V)} {c : Cell K V}

theorem allGreater (h : Aligned order (left ++ c :: right)) (notLess : order c.key ≠ .lt) :
    ∀ a ∈ left, order a.key = .gt := by
  intro a member
  exact ((List.pairwise_append.mp h).2.2 a member c List.mem_cons_self).resolve_right notLess

theorem allLess (h : Aligned order (left ++ c :: right)) (notGreater : order c.key ≠ .gt) :
    ∀ b ∈ right, order b.key = .lt := by
  intro b member
  exact ((List.pairwise_cons.mp (List.pairwise_append.mp h).2.1).1 b member).resolve_left notGreater

theorem lastEqual {row : List (Cell K V)} (h : Aligned order row) (notLess : ∀ c ∈ row, order c.key ≠ .lt)
    (member : c ∈ row) (equal : order c.key = .eq) : ∃ front, row = front ++ [c] ∧ ∀ a ∈ front, order a.key = .gt := by
  obtain ⟨front, behind, rfl⟩ := List.append_of_mem member
  have smaller := h.allGreater (by simp [equal])
  cases behind with
  | nil => exact ⟨front, rfl, smaller⟩
  | cons b behind =>
      have less := h.allLess (by simp [equal]) b List.mem_cons_self
      exact absurd less (notLess b (by simp))

theorem unique {row : List (Cell K V)} {d : Cell K V} (h : Aligned order row) (inside : c ∈ row) (equal : order c.key = .eq)
    (inside' : d ∈ row) (equal' : order d.key = .eq) : c = d := by
  obtain ⟨front, behind, rfl⟩ := List.append_of_mem inside'
  rcases List.mem_append.mp inside with before | after
  · have greater := h.allGreater (by simp [equal']) c before
    simp [equal] at greater
  rcases List.mem_cons.mp after with same | after
  · exact same
  · have less := h.allLess (by simp [equal']) c after
    simp [equal] at less

end Aligned

namespace Shape
variable {K V : Type}

def Sorted (policy : Policy K) (s : Shape K V) : Prop :=
  (s.entries.map Prod.fst).Pairwise fun a b => policy a b = .lt

instance (policy : Policy K) (s : Shape K V) : Decidable (s.Sorted policy) :=
  inferInstanceAs (Decidable ((s.entries.map Prod.fst).Pairwise fun a b => policy a b = .lt))

theorem sortedIff {policy : Policy K} {s : Shape K V} :
    s.Sorted policy ↔ s.cells.Pairwise fun a b => policy a.key b.key = .lt := by
  rw [Sorted, entriesEqCells, List.map_map, List.pairwise_map]
  rfl

theorem Sorted.aligned {policy : Policy K} [Std.TransCmp policy] {s : Shape K V} (h : s.Sorted policy) (key : K) :
    Aligned (policy key) s.cells := by
  refine (sortedIff.mp h).imp ?_
  intro a b less
  cases answer : policy key a.key with
  | gt => exact .inl rfl
  | lt => exact .inr (Std.TransCmp.lt_trans answer less)
  | eq => exact .inr (Std.TransCmp.lt_of_eq_of_lt answer less)

theorem findNone {order : K → Ordering} {s : Shape K V} (aligned : Aligned order s.cells) (h : s.find? order = none) :
    ∀ c ∈ s.cells, order c.key ≠ .eq := by
  induction s with
  | leaf => simp [cells]
  | node id color left key value right ihLeft ihRight =>
      simp only [cells] at aligned
      have parts := List.pairwise_append.mp aligned
      have alignedRight := (List.pairwise_cons.mp parts.2.1).2
      simp only [find?] at h
      simp only [cells, List.mem_append, List.mem_cons]
      split at h
      · cases h
      · rename_i less
        intro c member
        rcases member with member | rfl | member
        · exact ihLeft parts.1 h c member
        · simp [less]
        · simp [aligned.allLess (c := ⟨id, key, value⟩) (by simp [less]) c member]
      · rename_i greater
        intro c member
        rcases member with member | rfl | member
        · simp [aligned.allGreater (c := ⟨id, key, value⟩) (by simp [greater]) c member]
        · simp [greater]
        · exact ihRight alignedRight h c member

def cut (order : K → Ordering) : Shape K V → List (Cell K V) × List (Cell K V)
  | leaf => ([], [])
  | node id _ left key value right =>
      match Side.toward (order key) with
      | .left => ((left.cut order).1, (left.cut order).2 ++ ⟨id, key, value⟩ :: right.cells)
      | .right => (left.cells ++ ⟨id, key, value⟩ :: (right.cut order).1, (right.cut order).2)

theorem cutAppend (order : K → Ordering) (s : Shape K V) : (s.cut order).1 ++ (s.cut order).2 = s.cells := by
  induction s with
  | leaf => rfl
  | node id color left key value right ihLeft ihRight =>
      simp only [cut, cells]
      split
      · rw [← List.append_assoc, ihLeft]
      · rw [List.append_assoc, List.cons_append, ihRight]

@[simp] theorem cutBlacken (order : K → Ordering) (s : Shape K V) : s.blacken.cut order = s.cut order := by
  cases s <;> rfl

theorem cutSeparates {order : K → Ordering} {s : Shape K V} (aligned : Aligned order s.cells) :
    (∀ c ∈ (s.cut order).1, order c.key ≠ .lt) ∧ ∀ c ∈ (s.cut order).2, order c.key = .lt := by
  induction s with
  | leaf => simp [cut]
  | node id color left key value right ihLeft ihRight =>
      simp only [cells] at aligned
      have parts := List.pairwise_append.mp aligned
      have alignedRight := (List.pairwise_cons.mp parts.2.1).2
      by_cases less : order key = .lt
      · have greater := aligned.allLess (c := ⟨id, key, value⟩) (by simp [less])
        have ih := ihLeft parts.1
        simp only [cut, less, Side.toward, List.mem_append, List.mem_cons]
        refine ⟨ih.1, ?_⟩
        intro c member
        rcases member with member | rfl | member
        · exact ih.2 c member
        · exact less
        · exact greater c member
      · have smaller := aligned.allGreater (c := ⟨id, key, value⟩) less
        have ih := ihRight alignedRight
        have onward : Side.toward (order key) = .right := by cases answer : order key <;> simp_all [Side.toward]
        simp only [cut, onward, List.mem_append, List.mem_cons]
        refine ⟨?_, ih.2⟩
        intro c member
        rcases member with member | rfl | member
        · simp [smaller c member]
        · exact less
        · exact ih.1 c member

theorem Sorted.insert {policy : Policy K} [Std.TransCmp policy] {s s' : Shape K V} (sorted : s.Sorted policy)
    (new : Cell K V) (fresh : s.find? (policy new.key) = none)
    (cells : s'.cells = (s.cut (policy new.key)).1 ++ new :: (s.cut (policy new.key)).2) : s'.Sorted policy := by
  have aligned := sorted.aligned new.key
  obtain ⟨notGreater, greater⟩ := cutSeparates aligned
  have smaller : ∀ c ∈ (s.cut (policy new.key)).1, policy new.key c.key = .gt := by
    intro c member
    have unequal := findNone aligned fresh c (by rw [← cutAppend (policy new.key) s]; exact List.mem_append_left _ member)
    have notLess := notGreater c member
    cases answer : policy new.key c.key <;> simp_all
  have row := sortedIff.mp sorted
  rw [← cutAppend (policy new.key) s, List.pairwise_append] at row
  obtain ⟨before, after, across⟩ := row
  rw [sortedIff, cells, List.pairwise_append, List.pairwise_cons]
  refine ⟨before, ⟨greater, after⟩, fun a memberA b memberB => ?_⟩
  rcases List.mem_cons.mp memberB with rfl | memberB
  · exact Std.OrientedCmp.gt_iff_lt.mp (smaller a memberA)
  · exact across a memberA b memberB

end Shape

namespace Path
variable {K V : Type}

def Follows (order : K → Ordering) (path : Path K V) : Prop :=
  ∀ f ∈ path, Side.toward (order f.cell.key) = f.side

theorem Follows.cons {order : K → Ordering} {f : Frame K V} {path : Path K V}
    (turn : Side.toward (order f.cell.key) = f.side) (follows : Follows order path) : Follows order (f :: path) :=
  List.forall_mem_cons.mpr ⟨turn, follows⟩

theorem Follows.head {order : K → Ordering} {f : Frame K V} {path : Path K V} (follows : Follows order (f :: path)) :
    Side.toward (order f.cell.key) = f.side := follows f List.mem_cons_self

theorem Follows.tail {order : K → Ordering} {f : Frame K V} {path : Path K V} (follows : Follows order (f :: path)) :
    Follows order path := fun g member => follows g (List.mem_cons_of_mem _ member)

theorem cutFrame {order : K → Ordering} {f : Frame K V} (turn : Side.toward (order f.cell.key) = f.side)
    (s : Shape K V) :
    (f.fill s).cut order = (before [f] ++ (s.cut order).1, (s.cut order).2 ++ after [f]) := by
  cases side : f.side <;> simp [Frame.fill, Shape.fork, Shape.cut, turn, side, before, after]

theorem cutFill {order : K → Ordering} {path : Path K V} (follows : Follows order path) (s : Shape K V) :
    (fill path s).cut order = (before path ++ (s.cut order).1, (s.cut order).2 ++ after path) := by
  induction path generalizing s with
  | nil => simp [before, after]
  | cons f above ih =>
      rw [fillCons, ih follows.tail, cutFrame follows.head]
      cases side : f.side <;> simp [before, after, side]

theorem cutFillOf {order : K → Ordering} {path : Path K V} (follows : Follows order path) {s s' : Shape K V}
    (same : s.cut order = s'.cut order) : (fill path s).cut order = (fill path s').cut order := by
  rw [cutFill follows, cutFill follows, same]

end Path

def Place.cut {K V : Type} (order : K → Ordering) (z : Place K V) : List (Cell K V) × List (Cell K V) :=
  (z.path.before ++ (z.focus.cut order).1, (z.focus.cut order).2 ++ z.path.after)

theorem Place.cutAppend {K V : Type} (order : K → Ordering) (z : Place K V) :
    (z.cut order).1 ++ (z.cut order).2 = z.shape.cells := by
  rw [shape, Path.cellsFill, ← Shape.cutAppend order z.focus]
  simp [cut]

section
variable {σ K V : Type} [Storage σ K V] {policy : Policy K}

theorem Spells.equalIff {store : σ} {link : Option NodeId} {s : Shape K V} (spells : Spells store link s) {order : K → Ordering}
    {id : NodeId} :
    (∃ c ∈ s.cells, c.id = id ∧ order c.key = .eq) ↔ id ∈ s.ids ∧ ∃ n, Storage.get? store id = some n ∧ order n.key = .eq := by
  constructor
  · intro inside
    obtain ⟨c, member, rfl, equal⟩ := inside
    obtain ⟨n, read, entry⟩ := spells.readCell member
    have key : n.key = c.key := congrArg Prod.fst entry
    exact ⟨Shape.idsEqCells s ▸ List.mem_map_of_mem member, n, read, key ▸ equal⟩
  · intro found
    obtain ⟨member, n, read, equal⟩ := found
    exact ⟨_, spells.cellAt member read, rfl, equal⟩

namespace Tree

-- a node reached twice would be a key in front of itself
theorem onceOfSorted (irreflexive : ∀ a, policy a a ≠ .lt) {store : σ} {link : Option NodeId} {s : Shape K V}
    (spells : Spells store link s) (sorted : s.Sorted policy) : s.ids.Nodup := by
  rw [Shape.idsEqCells, List.Nodup, List.pairwise_map]
  refine (Shape.sortedIff.mp sorted).imp_of_mem ?_
  intro a b insideA insideB less same
  obtain ⟨n, readA, entryA⟩ := spells.readCell insideA
  obtain ⟨m, readB, entryB⟩ := spells.readCell insideB
  obtain rfl := Option.some.inj (readA.symm.trans (same ▸ readB))
  have key : a.key = b.key := congrArg Prod.fst (entryA.symm.trans entryB)
  exact irreflexive b.key (key ▸ less)

theorem Linked.findNoneIff {t : Tree σ} {s : Shape K V} (linked : Linked t s) {order : K → Ordering} (aligned : Aligned order s.cells) :
    s.find? order = none ↔ ∀ id n, id ∈ s.ids → Storage.get? t.store id = some n → order n.key ≠ .eq := by
  constructor
  · intro missing id n member read equal
    obtain ⟨c, inside, -, same⟩ := linked.spells.equalIff.mpr ⟨member, n, read, equal⟩
    exact Shape.findNone aligned missing c inside same
  · intro unequal
    refine Option.eq_none_iff_forall_ne_some.mpr fun id found => ?_
    obtain ⟨member, n, read, equal⟩ := linked.spells.equalIff.mp (Shape.findSome found)
    exact unequal id n member read equal

end Tree

end

end RedBlack
