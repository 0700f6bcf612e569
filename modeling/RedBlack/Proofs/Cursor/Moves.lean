import RedBlack.Proofs.Cursor.Places

/-! One move of a cursor, from a place in the tree to the next one on a side. -/
namespace RedBlack

open RedBlack.Tree (Linked Leads)

namespace Cursor
variable {σ K V : Type} [Storage σ K V] {t : Tree σ} {path : Path K V} {side : Side} {c : Cell K V} {color : Color}
  {near far : Shape K V}

omit [Storage σ K V] in
def on (t : Tree σ) (path : Path K V) (c : Cell K V) : Cursor σ := ⟨some t.store, some c.id, path.ids⟩

def off (t : Tree σ) : Cursor σ := ⟨some t.store, none, []⟩

theorem descendEnd {store : σ} {id : NodeId} (child : Storage.child store id side = .ok none) (room : Nat)
    (names : List NodeId) : descend store side room names id = pure (id, names) := by
  rw [descend, child]
  rfl

theorem descendNext {store : σ} {id next : NodeId} (child : Storage.child store id side = .ok (some next)) (room : Nat)
    (names : List NodeId) : descend store side (room + 1) names id = descend store side room (id :: names) next := by
  rw [descend, child]
  rfl

theorem descendFull {store : σ} {id next : NodeId} (child : Storage.child store id side = .ok (some next))
    (names : List NodeId) : (descend store side 0 names id).result = .error (.pathOverflow heightLimit) := by
  rw [descend, child]
  rfl

theorem descendExact {store : σ} (side : Side) {id : NodeId} {s : Shape K V} (spells : Spells store (some id) s) (room : Nat)
    (names : List NodeId) :
    ∃ (spine : Path K V) (c : Cell K V) (color : Color) (far : Shape K V), s = spine.fill (.fork side c color .leaf far) ∧
      (∀ f ∈ spine, f.side = side) ∧
      (spine.length ≤ room → descend store side room names id = pure (c.id, spine.ids ++ names)) ∧
      (room < spine.length → (descend store side room names id).result = .error (.pathOverflow heightLimit)) := by
  induction s using Shape.forkInduction side generalizing id room names with
  | leaf => cases spells
  | fork c color near far ih =>
      obtain ⟨top, read, spellsNear, -⟩ := Spells.forkIff.mp spells
      cases top
      have child := Storage.childRead read side
      rw [Cell.childNear] at child
      cases below : near.link with
      | none =>
          obtain rfl := Shape.linkEqNone.mp below
          rw [below] at child
          exact ⟨[], c, color, far, rfl, by simp, fun _ => descendEnd child room names, nofun⟩
      | some next =>
          rw [below] at spellsNear child
          obtain ⟨spine, c', color', far', rfl, all, fits, beyond⟩ := ih spellsNear (room - 1) (c.id :: names)
          refine ⟨spine ++ [⟨c, color, side, far⟩], c', color', far', ?_, ?_, fun enough => ?_, fun short => ?_⟩
          · rw [Path.fillAppend]
            rfl
          · intro f member
            rcases List.mem_append.mp member with inSpine | last
            · exact all f inSpine
            · cases List.mem_singleton.mp last
              rfl
          · rw [List.length_append, List.length_singleton] at enough
            obtain ⟨fewer, rfl⟩ : ∃ fewer, room = fewer + 1 := ⟨room - 1, by omega⟩
            rw [Nat.add_sub_cancel] at fits
            rw [descendNext child, fits (by omega)]
            simp [Path.ids]
          · cases room with
            | zero => exact descendFull child names
            | succ room =>
                rw [List.length_append, List.length_singleton] at short
                rw [Nat.add_sub_cancel] at beyond
                rw [descendNext child, beyond (by omega)]

theorem climbOk (side : Side) {hole : Option NodeId} {id : NodeId} (leads : Leads t path hole) (here : hole = some id)
    (once : path.names.Nodup) (out : id ∉ path.names) :
    (path.rim side = [] ∧ climb t.store side id path.ids = .ok (none, [])) ∨
      ∃ (lower : Path K V) (f : Frame K V) (above : Path K V), path = lower ++ f :: above ∧ (∀ g ∈ lower, g.side = side) ∧
        f.side = side.opposite ∧ climb t.store side id path.ids = .ok (some f.cell.id, above.ids) := by
  induction path generalizing hole id with
  | nil => exact .inl ⟨by cases side <;> rfl, rfl⟩
  | cons f above ih =>
      subst here
      obtain ⟨read, -, up⟩ := leads
      have child := Storage.childRead read side
      obtain ⟨outAbove, onceAbove⟩ := List.nodup_cons.mp once
      have parts := List.nodup_append.mp onceAbove
      by_cases same : f.side = side
      · have passed : climb t.store side id (Path.ids (f :: above)) = climb t.store side f.cell.id (Path.ids above) := by
          subst same
          rw [Path.ids, List.map_cons, climb, child]
          simp [Path.ids, Frame.node, bind, Except.bind]
        rcases ih up rfl parts.2.1 (fun member => outAbove (List.mem_append_right _ member)) with ⟨rim, run⟩ | found
        · refine .inl ⟨(Path.rimSame same).trans rim, ?_⟩
          exact passed.trans run
        · obtain ⟨lower, g, above', rfl, all, other, run⟩ := found
          refine .inr ⟨f :: lower, g, above', rfl, ?_, other, passed.trans run⟩
          exact List.forall_mem_cons.mpr ⟨same, all⟩
      · have other := Side.eqOpposite same
        refine .inr ⟨[], f, above, rfl, by simp, other, ?_⟩
        have apart : f.far.link ≠ some id := fun link =>
          out (List.mem_cons_of_mem _ (List.mem_append_left _ (Shape.linkMem link)))
        have opposite : side = f.side.opposite := by simp [other]
        rw [opposite, Frame.node, Cell.childFar, ← opposite] at child
        simp [climb, Path.ids, child, apart, bind, Except.bind, pure, Except.pure]

inductive Lands (t : Tree σ) (s : Shape K V) (side : Side) (x : Traced (Cursor σ)) : List (Cell K V) → Prop where
  | off (run : x = pure (off t)) : Lands t s side x []
  | on {path : Path K V} {c : Cell K V} {color : Color} {near far : Shape K V}
      (place : path.fill (.fork side c color near far) = s) (fits : path.length ≤ heightLimit → x = pure (on t path c))
      (beyond : heightLimit < path.length → x.result = .error (.pathOverflow heightLimit)) :
      Lands t s side x (c :: (near.toward side ++ path.rim side))

section
variable (linked : Linked t (path.fill (.fork side c color near far)))
include linked

theorem stepClimb (bare : near = .leaf) :
    (path.rim side = [] ∧ (on t path c).step side = pure (off t)) ∨
      ∃ (path' : Path K V) (c' : Cell K V) (color' : Color) (near' far' : Shape K V),
        path'.fill (.fork side c' color' near' far') = path.fill (.fork side c color near far) ∧
          path.rim side = c' :: (near'.toward side ++ path'.rim side) ∧ path'.length ≤ path.length ∧
          (on t path c).step side = pure (on t path' c') := by
  obtain ⟨-, read, -, -⟩ := Spells.forkIff.mp linked.focus
  have child := Storage.childRead read side
  rw [Cell.childNear, bare] at child
  have out : c.id ∉ path.names := Path.apart linked.once (by simp)
  rcases climbOk side linked.leads (Shape.linkFork ..) (Path.nodupNames linked.once) out with ⟨rim, run⟩ | found
  · refine .inl ⟨rim, ?_⟩
    simp [step, on, off, child, Shape.link, run, Traced.pureEq]
  · obtain ⟨lower, f, above, rfl, all, other, run⟩ := found
    refine .inr ⟨above, f.cell, f.color, f.far, lower.fill (.fork side c color near far), ?_, ?_, ?_, ?_⟩
    · rw [Path.fillAppend, Path.fillCons, Frame.fill, other, Shape.forkOpposite]
    · rw [Path.rimAppend, Path.rimAll all, Path.rimOther other, List.nil_append]
    · simp only [List.length_append, List.length_cons]
      omega
    · simp [step, on, child, Shape.link, run, Traced.pureEq]

theorem stepDescend (kid : near ≠ .leaf) :
    Lands t (path.fill (.fork side c color near far)) side ((on t path c).step side) (near.toward side ++ path.rim side) := by
  obtain ⟨-, read, spellsNear, -⟩ := Spells.forkIff.mp linked.focus
  obtain ⟨next, below⟩ := Shape.linkSome kid
  have child := Storage.childRead read side
  rw [Cell.childNear, below] at child
  rw [below] at spellsNear
  obtain ⟨spine, c', color', far', rfl, all, fits, beyond⟩ :=
    descendExact side.opposite spellsNear (heightLimit - (path.length + 1)) (c.id :: path.ids)
  have place : Path.fill (spine ++ ⟨c, color, side, far⟩ :: path) (.fork side c' color' far' .leaf) =
      path.fill (.fork side c color (spine.fill (.fork side.opposite c' color' .leaf far')) far) := by
    rw [Path.fillAppend, Path.fillCons, ← Shape.forkOpposite]
    rfl
  have row : (spine.fill (.fork side.opposite c' color' .leaf far')).toward side ++ path.rim side =
      c' :: (far'.toward side ++ Path.rim side (spine ++ ⟨c, color, side, far⟩ :: path)) := by
    rw [Path.towardFill, Path.rimAll all, Shape.forkOpposite, Shape.towardFork, Path.rimAppend,
      Path.rimSame (f := ⟨c, color, side, far⟩) rfl]
    simp
  have length : path.ids.length = path.length := by simp [Path.ids]
  rw [row]
  refine .on place (fun enough => ?_) fun short => ?_
  · rw [List.length_append, List.length_cons] at enough
    have room : path.length < heightLimit := by omega
    have pushed : push path.ids c.id = pure (c.id :: path.ids) := by simp [push, length, room]
    simp only [step, on, Traced.liftMEqLift, child, Traced.liftOkBind, pushed, pure_bind, List.length_cons, length,
      fits (by omega)]
    simp [Path.ids]
  · rw [List.length_append, List.length_cons] at short
    by_cases room : path.length < heightLimit
    · have pushed : push path.ids c.id = pure (c.id :: path.ids) := by simp [push, length, room]
      simp only [step, on, Traced.liftMEqLift, child, Traced.liftOkBind, pushed, pure_bind, List.length_cons, length]
      rw [Traced.bindError (beyond (by omega))]
    · have full : (push path.ids c.id).result = .error (.pathOverflow heightLimit) := by
        rw [push, length, if_neg room]
        rfl
      simp only [step, on, Traced.liftMEqLift, child, Traced.liftOkBind]
      rw [Traced.bindError full]

theorem stepLands (short : path.length ≤ heightLimit) :
    Lands t (path.fill (.fork side c color near far)) side ((on t path c).step side) (near.toward side ++ path.rim side) := by
  by_cases kid : near = .leaf
  · subst kid
    rw [Shape.towardLeaf, List.nil_append]
    rcases stepClimb linked rfl with ⟨rim, run⟩ | ⟨path', c', color', near', far', place, rim, higher, run⟩
    · rw [rim]
      exact .off run
    · rw [rim]
      exact .on place (fun _ => run) fun beyond => absurd beyond (by omega)
  · exact stepDescend linked kid

theorem stepOk (low : (path.fill (.fork side c color near far)).height ≤ heightLimit + 1) :
    (near.toward side ++ path.rim side = [] ∧ (on t path c).step side = pure (off t)) ∨
      ∃ (path' : Path K V) (c' : Cell K V) (color' : Color) (near' far' : Shape K V),
        path'.fill (.fork side c' color' near' far') = path.fill (.fork side c color near far) ∧
          near.toward side ++ path.rim side = c' :: (near'.toward side ++ path'.rim side) ∧
          (on t path c).step side = pure (on t path' c') := by
  have lands := stepLands linked (Path.lengthLe low)
  generalize near.toward side ++ path.rim side = row at lands
  cases lands with
  | off run => exact .inl ⟨rfl, run⟩
  | @on path' c' color' near' far' place fits beyond =>
      exact .inr ⟨path', c', color', near', far', place, rfl, fits (Path.lengthLe (place ▸ low))⟩

end

theorem atEndExact {s : Shape K V} (linked : Linked t s) (side : Side) :
    (s = .leaf ∧ atEnd t side = pure (off t)) ∨
      ∃ (path : Path K V) (c : Cell K V) (color : Color) (far : Shape K V), s = path.fill (.fork side c color .leaf far) ∧
        path.rim side = [] ∧ (path.length ≤ heightLimit → atEnd t side = pure (on t path c)) ∧
        (heightLimit < path.length → (atEnd t side).result = .error (.pathOverflow heightLimit)) := by
  have root := linked.spells.linkEq
  cases top : t.root with
  | none =>
      obtain rfl := Shape.linkEqNone.mp (root.symm.trans top)
      exact .inl ⟨rfl, by simp [atEnd, top, off]⟩
  | some id =>
      have spells := linked.spells
      rw [top] at spells
      obtain ⟨spine, c, color, far, rfl, all, fits, beyond⟩ := descendExact side spells heightLimit []
      refine .inr ⟨spine, c, color, far, rfl, Path.rimAll all, fun enough => ?_, fun short => ?_⟩
      · simp [atEnd, top, fits enough, on]
      · simp only [atEnd, top]
        rw [Traced.bindError (beyond short)]

theorem atEndOk {s : Shape K V} (linked : Linked t s) (low : s.height ≤ heightLimit + 1) (side : Side) :
    (s = .leaf ∧ atEnd t side = pure (off t)) ∨
      ∃ (path : Path K V) (c : Cell K V) (color : Color) (far : Shape K V), s = path.fill (.fork side c color .leaf far) ∧
        path.rim side = [] ∧ atEnd t side = pure (on t path c) := by
  rcases atEndExact linked side with empty | ⟨path, c, color, far, rfl, outer, fits, -⟩
  · exact .inl empty
  · exact .inr ⟨path, c, color, far, rfl, outer, fits (Path.lengthLe low)⟩

end Cursor

end RedBlack
