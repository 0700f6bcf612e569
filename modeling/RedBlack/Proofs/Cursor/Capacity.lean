import Mathlib.Data.List.TakeWhile
import RedBlack.Proofs.Acceptance
import RedBlack.Proofs.Cursor.Index

/-! How far a cursor comes in a tree of any height. A walk stops in front of the first node with more ancestors than
its path can hold, and there is such a node if the tree has two levels more than the path has places. -/
namespace RedBlack

open RedBlack.Tree (Linked)

namespace Shape
variable {K V : Type} {s : Shape K V} {id : NodeId} {row : List NodeId}

def fits (s : Shape K V) (id : NodeId) : Bool := decide ((s.ancestors id).length ≤ heightLimit)

def ending (s : Shape K V) (row : List NodeId) : Option Fault :=
  if row.all s.fits then none else some (.pathOverflow heightLimit)

theorem endingFits (fits : s.fits id = true) : s.ending (id :: row) = s.ending row := by simp [ending, fits]

theorem endingOver (beyond : s.fits id = false) : s.ending (id :: row) = some (.pathOverflow heightLimit) := by
  simp [ending, beyond]

theorem deepest (s : Shape K V) (inhabited : s ≠ leaf) :
    ∃ (path : Path K V) (c : Cell K V) (color : Color) (near far : Shape K V),
      s = path.fill (.fork .right c color near far) ∧ path.length + 1 = s.height := by
  induction s with
  | leaf => exact absurd rfl inhabited
  | node id color left key value right ihLeft ihRight =>
      by_cases flat : left.height = 0 ∧ right.height = 0
      · exact ⟨[], ⟨id, key, value⟩, color, right, left, rfl, by simp [height, flat]⟩
      by_cases taller : right.height ≤ left.height
      · have kid : left ≠ leaf := by
          rintro rfl
          exact flat ⟨rfl, Nat.le_zero.mp taller⟩
        obtain ⟨path, c, color', near, far, rfl, deep⟩ := ihLeft kid
        refine ⟨path ++ [⟨⟨id, key, value⟩, color, .left, right⟩], c, color', near, far, ?_, ?_⟩
        · rw [Path.fillAppend]
          rfl
        · simp only [List.length_append, List.length_singleton, height]
          omega
      · have kid : right ≠ leaf := by
          rintro rfl
          exact taller (Nat.zero_le _)
        obtain ⟨path, c, color', near, far, rfl, deep⟩ := ihRight kid
        refine ⟨path ++ [⟨⟨id, key, value⟩, color, .right, left⟩], c, color', near, far, ?_, ?_⟩
        · rw [Path.fillAppend]
          rfl
        · simp only [List.length_append, List.length_singleton, height]
          omega

theorem fitsHere {path : Path K V} {side : Side} {c : Cell K V} {color : Color} {near far : Shape K V}
    (once : (path.fill (.fork side c color near far)).ids.Nodup) :
    (path.fill (.fork side c color near far)).fits c.id = decide (path.length ≤ heightLimit) := by
  rw [fits, Path.lengthAncestors once]

theorem fitsAll (once : s.ids.Nodup) : (∀ id ∈ s.ids, s.fits id = true) ↔ s.height ≤ heightLimit + 1 := by
  constructor
  · intro all
    by_cases empty : s = leaf
    · simp [empty, height]
    obtain ⟨path, c, color, near, far, rfl, deep⟩ := s.deepest empty
    have here := all c.id (Path.memFill.mpr (.inl (by simp)))
    rw [fitsHere once, decide_eq_true_eq] at here
    omega
  · intro low id member
    rw [idsEqCells] at member
    obtain ⟨c, inside, rfl⟩ := List.mem_map.mp member
    obtain ⟨path, color, left, right, rfl⟩ := Path.placeOf inside
    rw [fitsHere once, decide_eq_true_eq]
    exact Path.lengthLe low

end Shape

namespace Cursor
variable {σ K V : Type} [Storage σ K V] {t : Tree σ} {s : Shape K V} {side : Side} {x : Traced (Cursor σ)}

/-- The nodes that a cursor comes to when it is moved on until it is on no node or a move fails, and the fault. -/
inductive Visits (side : Side) : Traced (Cursor σ) → List NodeId → Option Fault → Prop where
  | ends {x : Traced (Cursor σ)} {c : Cursor σ} (run : x.result = .ok c) (off : c.current = none) : Visits side x [] none
  | fault {x : Traced (Cursor σ)} {fault : Fault} (run : x.result = .error fault) : Visits side x [] (some fault)
  | on {x : Traced (Cursor σ)} {c : Cursor σ} {id : NodeId} {ids : List NodeId} {ending : Option Fault}
      (run : x.result = .ok c) (here : c.current = some id) (rest : Visits side (c.step side) ids ending) :
      Visits side x (id :: ids) ending

theorem Visits.unique {ids ids' : List NodeId} {ending ending' : Option Fault} (h : Visits side x ids ending)
    (h' : Visits side x ids' ending') : ids = ids' ∧ ending = ending' := by
  induction h generalizing ids' ending' with
  | ends run off =>
      cases h' with
      | ends => exact ⟨rfl, rfl⟩
      | fault run' => cases run.symm.trans run'
      | on run' here => cases Except.ok.inj (run.symm.trans run'); cases off.symm.trans here
  | fault run =>
      cases h' with
      | ends run' => cases run.symm.trans run'
      | fault run' => exact ⟨rfl, congrArg some (Except.error.inj (run.symm.trans run'))⟩
      | on run' => cases run.symm.trans run'
  | on run here _ ih =>
      cases h' with
      | ends run' off => cases Except.ok.inj (run.symm.trans run'); cases off.symm.trans here
      | fault run' => cases run.symm.trans run'
      | on run' here' rest' =>
          cases Except.ok.inj (run.symm.trans run')
          cases Option.some.inj (here.symm.trans here')
          obtain ⟨rfl, rfl⟩ := ih rest'
          exact ⟨rfl, rfl⟩

theorem Visits.only {ids ids' : List NodeId} {ending ending' : Option Fault} (h : Visits side x ids ending) :
    Visits side x ids' ending' ↔ ids' = ids ∧ ending' = ending := by
  refine ⟨fun h' => h'.unique h, ?_⟩
  rintro ⟨rfl, rfl⟩
  exact h

theorem Lands.visits (linked : Linked t s) {row : List (Cell K V)} (lands : Lands t s side x row) :
    Visits side x ((row.map Cell.id).takeWhile s.fits) (s.ending (row.map Cell.id)) := by
  induction row generalizing x with
  | nil =>
      cases lands with
      | off run =>
          subst run
          exact .ends rfl rfl
  | cons c row ih =>
      cases lands with
      | @on path _ color near far place fits beyond =>
          subst place
          have here := Shape.fitsHere linked.once
          by_cases short : path.length ≤ heightLimit
          · have recorded := here.trans (decide_eq_true short)
            rw [List.map_cons, List.takeWhile_cons_of_pos recorded, Shape.endingFits recorded, fits short]
            exact .on rfl rfl (ih (stepLands linked short))
          · have full := here.trans (decide_eq_false short)
            rw [List.map_cons, List.takeWhile_cons_of_neg (by simp [full]), Shape.endingOver full]
            exact .fault (beyond (by omega))

theorem startLands (linked : Linked t s) (side : Side) : Lands t s side (atEnd t side.opposite) (s.toward side) := by
  rcases atEndExact linked side.opposite with ⟨rfl, run⟩ | ⟨path, c, color, near, rfl, outer, fits, beyond⟩
  · rw [Shape.towardLeaf]
    exact .off run
  · rw [Path.towardEnd outer]
    exact .on (by rw [Shape.forkOpposite]) fits beyond

def Complete (s : Shape K V) (side : Side) (start : Traced (Cursor σ)) (row : List NodeId) : Prop :=
  ∃ ids ending, (∀ ids' ending', Visits side start ids' ending' ↔ ids' = ids ∧ ending' = ending) ∧
    ids <+: row ∧ ids = row.takeWhile s.fits ∧ (ending = none → ids = row) ∧
    ending = if heightLimit + 2 ≤ s.height then some (.pathOverflow heightLimit) else none

theorem Lands.complete (linked : Linked t s) {cells : List (Cell K V)} (lands : Lands t s side x cells)
    {row : List NodeId} (listed : cells.map Cell.id = row) (whole : ∀ id, id ∈ row ↔ id ∈ s.ids) : Complete s side x row := by
  have visits := listed ▸ lands.visits linked
  have all : row.all s.fits = true ↔ s.height ≤ heightLimit + 1 := by
    rw [← Shape.fitsAll linked.once, List.all_eq_true]
    exact forall_congr' fun id => imp_congr_left (whole id)
  by_cases low : s.height ≤ heightLimit + 1
  · have fits := all.mpr low
    have through : row.takeWhile s.fits = row := List.takeWhile_eq_self_iff.mpr (List.all_eq_true.mp fits)
    rw [Shape.ending, if_pos fits, through] at visits
    exact ⟨row, none, fun _ _ => visits.only, List.prefix_refl row, through.symm, fun _ => rfl, by rw [if_neg (by omega)]⟩
  · rw [Shape.ending, if_neg fun fits => low (all.mp fits)] at visits
    exact ⟨_, _, fun _ _ => visits.only, List.takeWhile_prefix _, rfl, nofun, by rw [if_pos (by omega)]⟩

section
variable {store : σ} {id : NodeId} {above path : List NodeId}

def Roomy (store : σ) : List NodeId → Prop
  | [] => True
  | id :: above =>
      (∃ s : Shape K V, Spells store (some id) s ∧ above.length + s.height ≤ heightLimit + 1) ∧ Roomy store above

theorem Roomy.child (roomy : Roomy store (id :: above)) (side : Side) :
    ∃ link, Storage.child store id side = .ok link ∧
      ∀ next, link = some next → above.length < heightLimit ∧ Roomy store (next :: id :: above) := by
  have whole := roomy
  obtain ⟨⟨s, spells, low⟩, -⟩ := roomy
  obtain rfl | ⟨c, color, near, far, rfl⟩ := s.forkCases side
  · cases spells
  obtain ⟨top, read, spellsNear, -⟩ := Spells.forkIff.mp spells
  cases top
  have child := Storage.childRead read side
  rw [Cell.childNear] at child
  refine ⟨near.link, child, fun next link => ?_⟩
  rw [Shape.heightFork] at low
  have kid : near.height ≠ 0 := by
    intro zero
    rw [Shape.heightZero zero] at link
    cases link
  refine ⟨by omega, ⟨near, link ▸ spellsNear, ?_⟩, whole⟩
  rw [List.length_cons]
  omega

theorem Roomy.descend (roomy : Roomy store (id :: above)) (side : Side) (room : Nat) (enough : above.length + room = heightLimit) :
    ∃ next path, Cursor.descend store side room above id = pure (next, path) ∧ Roomy store (next :: path) := by
  induction room generalizing id above with
  | zero =>
      obtain ⟨link, child, below⟩ := roomy.child side
      cases link with
      | none => exact ⟨id, above, descendEnd child 0 above, roomy⟩
      | some next => exact absurd (below next rfl).1 (by omega)
  | succ room ih =>
      obtain ⟨link, child, below⟩ := roomy.child side
      cases link with
      | none => exact ⟨id, above, descendEnd child (room + 1) above, roomy⟩
      | some next =>
          rw [descendNext child]
          exact ih (below next rfl).2 (by rw [List.length_cons]; omega)

theorem Roomy.climb (roomy : Roomy store path) (side : Side) (id : NodeId) :
    Cursor.climb store side id path = .ok (none, []) ∨
      ∃ ancestor above, Cursor.climb store side id path = .ok (some ancestor, above) ∧ Roomy store (ancestor :: above) := by
  induction path generalizing id with
  | nil => exact .inl rfl
  | cons ancestor above ih =>
      obtain ⟨link, child, -⟩ := roomy.child side
      by_cases same : link = some id
      · have passed : Cursor.climb store side id (ancestor :: above) = Cursor.climb store side ancestor above := by
          simp [Cursor.climb, child, same, bind, Except.bind]
        rw [passed]
        exact ih roomy.2 ancestor
      · refine .inr ⟨ancestor, above, ?_, roomy⟩
        simp [Cursor.climb, child, same, bind, Except.bind, pure, Except.pure]

end

inductive Stands (t : Tree σ) : Cursor σ → Prop where
  | detached : Stands t .detached
  | off : Stands t (off t)
  | on {id : NodeId} {path : List NodeId} (roomy : Roomy t.store (id :: path)) : Stands t ⟨some t.store, some id, path⟩

theorem Stands.step {c : Cursor σ} (stands : Stands t c) (side : Side) : ∃ c', c.step side = pure c' ∧ Stands t c' := by
  cases stands with
  | detached => exact ⟨_, rfl, .detached⟩
  | off => exact ⟨_, rfl, .off⟩
  | @on id path roomy =>
      obtain ⟨link, child, below⟩ := roomy.child side
      cases link with
      | some next =>
          obtain ⟨room, further⟩ := below next rfl
          have pushed : push path id = pure (id :: path) := by rw [push, if_pos room]
          obtain ⟨last, path', run, roomy'⟩ := further.descend side.opposite (heightLimit - (path.length + 1)) (by
            rw [List.length_cons]
            omega)
          refine ⟨⟨some t.store, some last, path'⟩, ?_, .on roomy'⟩
          simp only [Cursor.step, Traced.liftMEqLift, child, Traced.liftOkBind, pushed, pure_bind, List.length_cons, run]
      | none =>
          rcases Roomy.climb roomy.2 side id with run | ⟨ancestor, above, run, roomy'⟩
          · refine ⟨_, ?_, .off⟩
            simp [Cursor.step, child, run, Traced.pureEq, Cursor.off]
          · refine ⟨_, ?_, .on roomy'⟩
            simp [Cursor.step, child, run, Traced.pureEq]

section
variable (spells : Spells t.store t.root s) (low : s.height ≤ heightLimit + 1)
include spells low

theorem Stands.atEnd (side : Side) : ∃ c, Cursor.atEnd t side = pure c ∧ Stands t c := by
  cases top : t.root with
  | none => exact ⟨Cursor.off t, by simp [Cursor.atEnd, top, Cursor.off], .off⟩
  | some root =>
      have roomy : Roomy t.store [root] := ⟨⟨s, top ▸ spells, by simpa using low⟩, trivial⟩
      obtain ⟨last, path, run, roomy'⟩ := roomy.descend side heightLimit (by simp)
      exact ⟨_, by simp [Cursor.atEnd, top, run], .on roomy'⟩

theorem Stands.move {c : Cursor σ} (stands : Stands t c) (move : Move) : ∃ c', c.move t move = pure c' ∧ Stands t c' := by
  cases move with
  | first => exact Stands.atEnd spells low .left
  | last => exact Stands.atEnd spells low .right
  | next => exact stands.step .right
  | prev => exact stands.step .left
  | step side => exact stands.step side
  | detach => exact ⟨_, rfl, .detached⟩

theorem Stands.moves {c : Cursor σ} (stands : Stands t c) (moves : List Move) :
    ∃ c', moves.foldlM (Cursor.move t) c = pure c' ∧ Stands t c' := by
  induction moves generalizing c with
  | nil => exact ⟨c, rfl, stands⟩
  | cons move rest ih =>
      obtain ⟨c₁, run, stands₁⟩ := stands.move spells low move
      obtain ⟨c₂, run', stands₂⟩ := ih stands₁
      exact ⟨c₂, by rw [List.foldlM_cons, run, pure_bind, run'], stands₂⟩

end

theorem everyWalkExact (t : Tree σ) :
    (∀ s : Shape K V, Linked t s → Complete s .right (first t) s.ids ∧ Complete s .left (last t) s.ids.reverse) ∧
      ∀ (policy : Policy K) (h : Nat), t.validate policy = .ok (.ok h) →
        ∀ moves : List Move, ∃ c, moves.foldlM (Cursor.move t) .detached = pure c := by
  refine ⟨fun s linked => ⟨?_, ?_⟩, fun policy h valid moves => ?_⟩
  · exact (startLands linked .right).complete linked s.idsEqCells.symm fun id => Iff.rfl
  · refine (startLands linked .left).complete linked ?_ fun id => List.mem_reverse
    rw [Shape.toward, List.map_reverse, Shape.idsEqCells]
  · obtain ⟨s, spells, -, accepted⟩ := Tree.validateFinds.mp valid
    obtain ⟨c, run, -⟩ := Stands.moves spells (Nat.le_succ_of_le accepted.low) .detached moves
    exact ⟨c, run⟩

def chain : Nat → Shape Nat Unit
  | 0 => .leaf
  | levels + 1 => .node ⟨levels⟩ .black (chain levels) levels () .leaf

def chained (levels : Nat) : Tree (Array (Node Nat Unit)) :=
  ⟨(chain levels).link, ((List.range levels).map fun key => ⟨.black, (chain key).link, none, key, ()⟩).toArray⟩

theorem heightChain (levels : Nat) : (chain levels).height = levels := by
  induction levels with
  | zero => rfl
  | succ levels ih => simp [chain, Shape.height, ih]

theorem idsChain (levels : Nat) : (chain levels).ids = NodeId.below levels := by
  induction levels with
  | zero => rfl
  | succ levels ih => simp [chain, Shape.ids, ih, NodeId.below, List.range_succ]

theorem linkedChain (levels : Nat) : Linked (chained levels) (chain levels) := by
  refine ⟨?_, by rw [idsChain]; exact NodeId.onceBelow levels⟩
  have below : ∀ depth ≤ levels, Spells (chained levels).store (chain depth).link (chain depth) := by
    intro depth low
    induction depth with
    | zero => exact .leaf
    | succ depth ih =>
        refine Spells.nodeIff.mpr ⟨rfl, ?_, ih (by omega), .leaf⟩
        have inside : depth < levels := low
        change (chained levels).store[depth]? = _
        simp [chained, inside, Shape.link]
  exact below levels (Nat.le_refl levels)

theorem chainsWalked :
    (∃ ids, Visits .right (first (chained 66)) ids (some (.pathOverflow 64))) ∧
      Visits .right (first (chained 65)) (NodeId.below 65) none ∧
      ∀ moves : List Move, ∃ c, moves.foldlM (Cursor.move (chained 1)) .detached = pure c := by
  refine ⟨?_, ?_, (everyWalkExact (chained 1)).2 .natural 1 rfl⟩
  · obtain ⟨ids, ending, only, -, -, -, stops⟩ := ((everyWalkExact (chained 66)).1 _ (linkedChain 66)).1
    rw [heightChain] at stops
    exact ⟨ids, (only _ _).mpr ⟨rfl, stops.symm⟩⟩
  · obtain ⟨ids, ending, only, -, -, whole, stops⟩ := ((everyWalkExact (chained 65)).1 _ (linkedChain 65)).1
    rw [heightChain] at stops
    exact (only _ _).mpr ⟨(idsChain 65).symm.trans (whole stops).symm, stops.symm⟩

end Cursor

end RedBlack
