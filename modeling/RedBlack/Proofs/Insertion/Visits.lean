import Mathlib.Data.List.Nodup
import RedBlack.Proofs.Insertion.Windows

/-! How often an insertion comes to a node. A double rotation sends the pass back to one it was at before, and from
there it goes at once to where the plain descent would have gone; each node is come back to once at most. -/
namespace RedBlack

def Event.isDouble : Event → Bool
  | .insertDouble _ => true
  | _ => false

namespace Shape
variable {K V : Type} {order : K → Ordering}

def next (order : K → Ordering) : Shape K V → Shape K V
  | leaf => leaf
  | node id color left key value right => (node id color left key value right).child (Side.toward (order key))

def way (order : K → Ordering) : Shape K V → List NodeId
  | leaf => []
  | node id _ left key _ right =>
      match Side.toward (order key) with
      | .left => id :: left.way order
      | .right => id :: right.way order

@[simp] theorem nextFork {side : Side} {c : Cell K V} (turn : Side.toward (order c.key) = side) (color : Color)
    (near far : Shape K V) : (fork side c color near far).next order = near := by
  cases side <;> simp [fork, next, turn, child]

@[simp] theorem wayBlacken (s : Shape K V) : s.blacken.way order = s.way order := by cases s <;> rfl

theorem wayNext (order : K → Ordering) (s : Shape K V) : s.way order = s.link.toList ++ (s.next order).way order := by
  cases s with
  | leaf => rfl
  | node id color left key value right =>
      cases side : Side.toward (order key) <;> simp [way, next, side, link, child]

theorem lengthWay (order : K → Ordering) (s : Shape K V) : (s.way order).length = s.descent order := by
  induction s with
  | leaf => rfl
  | node id color left key value right ihLeft ihRight =>
      cases side : Side.toward (order key) <;> simp [way, descent, side, ihLeft, ihRight]

theorem countNext (order : K → Ordering) (s : Shape K V) (id : NodeId) :
    s.link.toList.count id + (s.next order).ids.count id ≤ s.ids.count id := by
  obtain rfl | ⟨side, c, color, near, far, turn, rfl⟩ := s.turnCases order
  · exact Nat.le_refl _
  · rw [nextFork turn, linkFork, (idsFork ..).count_eq, ← List.count_append]
    exact List.Sublist.count_le _ (.cons_cons _ (List.sublist_append_left ..))

end Shape

namespace Insertion
variable {K V : Type} {order : K → Ordering} {new : Cell K V} {stage stage' : Stage} {z z' : Place K V} {log : List Event}

def still (order : K → Ordering) : Stage → Place K V → Shape K V
  | .returning, z => z.focus.next order
  | _, z => z.focus

def again : Stage → Place K V → List NodeId
  | .returning, z => z.focus.link.toList
  | .quiet, _ => []
  | .ready, z => z.path.owner.toList ++ if z.path.color = .red then (Path.owner z.path.tail).toList else []

theorem Step.doubles (step : Step order stage z log stage' z') : log.any Event.isDouble = decide (stage' = .returning) := by
  cases step with
  | walk => cases stage <;> rfl
  | flip => rfl
  | single => rfl
  | double => rfl

theorem Step.back (step : Step order .returning z log stage' z') :
    log = [] ∧ stage' = .quiet ∧ z'.focus = z.focus.next order := by
  cases step with
  | walk turn idle calm => exact ⟨rfl, rfl, (Shape.nextFork turn ..).symm⟩

theorem Step.lifts (step : Step order stage z log .returning z') :
    stage = .ready ∧ ∃ p g above, z.path = p :: g :: above ∧
      (z'.focus.link = some p.cell.id ∨ z'.focus.link = some g.cell.id) := by
  generalize turned : Stage.returning = stage' at step
  cases step with
  | walk => cases stage <;> cases turned
  | flip => cases turned
  | single => cases turned
  | @double p g q r above side c color near far turn redNear redFar redParent pair back away =>
      refine ⟨rfl, p, g, above, rfl, ?_⟩
      obtain ⟨rfl, rfl⟩ | ⟨rfl, rfl⟩ := pair
      · exact .inl (Shape.linkFork ..)
      · exact .inr (Shape.linkFork ..)

theorem Step.onward (step : Step order stage z log stage' z') (follows : z.path.Follows order) (further : stage ≠ .returning) :
    still order stage' z' = z.focus.next order ∨ still order stage' z' = (z.focus.next order).blacken := by
  cases step with
  | @walk _ path side c color near far turn idle calm =>
      left
      cases stage with
      | returning => exact absurd rfl further
      | quiet => exact (Shape.nextFork turn ..).symm
      | ready => exact (Shape.nextFork turn ..).symm
  | flip turn redNear redFar calm => exact .inr (by simp [still, turn])
  | single turn redNear redFar redParent straight => exact .inr (by simp [still, turn])
  | @double p g q r above side c color near far turn redNear redFar redParent pair back away =>
      have along : Side.toward (order q.redden.cell.key) = q.redden.side := by
        obtain ⟨rfl, rfl⟩ | ⟨rfl, rfl⟩ := pair
        · exact follows.head
        · exact follows.tail.head
      exact .inr (by simp [still, turn, Frame.fill, along])

theorem Step.again (step : Step order stage z log stage' z') (colors : At order stage z) (further : stage ≠ .returning)
    (id : NodeId) :
    (Insertion.again stage' z').count id ≤ (Insertion.again stage z).count id + z.focus.link.toList.count id := by
  cases step with
  | @walk _ path side c color near far turn idle calm =>
      cases stage with
      | returning => exact absurd rfl further
      | quiet =>
          obtain ⟨black, -⟩ := Shape.quietFork.mp colors
          simp [Insertion.again, Stage.next, Path.color, black]
      | ready =>
          have parent : path.owner.toList.count id ≤ (Insertion.again .ready ⟨path, .fork side c color near far⟩).count id := by
            simp [Insertion.again]
          cases color with
          | black => simp [Insertion.again, Stage.next, Path.color]
          | red =>
              simp only [Insertion.again, Stage.next, Path.ownerCons, Path.color, List.tail_cons, Shape.linkFork,
                List.count_append, if_true] at parent ⊢
              omega
  | flip turn redNear redFar calm => simp [Insertion.again]
  | single turn redNear redFar redParent straight => simp [Insertion.again]
  | @double p g q r above side c color near far turn redNear redFar redParent pair back away =>
      have parents : Insertion.again .ready ⟨p :: g :: above, .fork side c color near far⟩ = [p.cell.id, g.cell.id] := by
        simp [Insertion.again, Path.color, redParent]
      have turned : Insertion.again .returning ⟨⟨c, .black, side, r.redden.fill far.blacken⟩ :: above,
          q.redden.fill near.blacken⟩ = [q.cell.id] := by simp [Insertion.again, Frame.fill, Frame.redden]
      rw [parents, turned]
      obtain ⟨rfl, rfl⟩ | ⟨rfl, rfl⟩ := pair <;> simp only [List.count_cons, List.count_nil] <;> omega

theorem stillFocus (order : K → Ordering) (z : Place K V) (further : stage ≠ .returning) : still order stage z = z.focus := by
  cases stage with
  | returning => exact absurd rfl further
  | quiet => rfl
  | ready => rfl

end Insertion

namespace Tree
variable {σ K V : Type} [Storage σ K V]

namespace Window
variable {w w' : Window σ} {t : Tree σ} {policy : Policy K} {new : Cell K V} {stage : Stage} {z : Place K V}
  {log : List Event} {rounds behind : List (Window σ × List Event)}

open Insertion

def visits (id : NodeId) (rounds : List (Window σ × List Event)) : List NodeId :=
  rounds.map fun r => r.1.current.getD id

def forward (back : Bool) : List (Window σ × List Event) → List (Option NodeId)
  | [] => []
  | (w, log) :: rest => (if back then [] else [w.current]) ++ forward (log.any Event.isDouble) rest

def Returns (policy : Policy K) (key : K) (w : Window σ) (behind : List (Window σ × List Event)) : Prop :=
  ∃ current node back onward log rest, behind = (back, []) :: (onward, log) :: rest ∧ w.current = some current ∧
    back.current ≠ none ∧ (back.current = w.parent ∨ back.current = w.grand) ∧
    Storage.get? w.tree.store current = some node ∧ onward.current = node.child (Side.toward (policy key node.key))

omit [Storage σ K V] in
theorem roundsLe (back : Bool) (rounds : List (Window σ × List Event)) :
    rounds.length ≤ (forward back rounds).length + back.toNat + (Traced.record rounds).countP Event.isDouble := by
  induction rounds generalizing back with
  | nil => simp
  | cons r rest ih =>
      have further := ih (r.2.any Event.isDouble)
      have doubles : (r.2.any Event.isDouble).toNat ≤ r.2.countP Event.isDouble := by
        cases any : r.2.any Event.isDouble with
        | false => exact Nat.zero_le _
        | true => exact List.countP_pos_iff.mpr (List.any_eq_true.mp any)
      cases back <;> simp only [forward, List.length_cons, List.length_append, Traced.recordCons, List.countP_append,
        Bool.toNat_true, Bool.toNat_false, List.length_nil, if_true, Bool.false_eq_true, if_false] <;> omega

theorem Shows.enters (shows : Shows w z) (inner : z.focus ≠ .leaf) (order : K → Ordering) :
    ∃ current node, w.current = some current ∧ Storage.get? w.tree.store current = some node ∧
      node.child (Side.toward (order node.key)) = (z.focus.next order).link := by
  obtain ⟨linked, -, current, -⟩ := shows
  obtain ⟨path, focus⟩ := z
  obtain rfl | ⟨side, c, color, near, far, turn, rfl⟩ := focus.turnCases order
  · exact absurd rfl inner
  · obtain ⟨-, read, -⟩ := Spells.forkIff.mp linked.focus
    exact ⟨c.id, _, current.trans (Shape.linkFork ..), read, by simp [turn]⟩

section
variable (stands : Stands policy new w stage z)
include stands

theorem Stands.forwardWay (course : Traced.Course (Window.round policy new.id) w rounds t) :
    forward (decide (stage = .returning)) rounds =
      ((still (policy new.key) stage z).way (policy new.key)).map some ++ [none] := by
  induction course generalizing stage z with
  | last run =>
      obtain ⟨rfl, s, ends, -⟩ := stands.done run
      have absent : z.focus = .leaf := ends.leaf
      have current := stands.shows.current
      simp [Window.forward, still, current, absent, Shape.link, Shape.way]
  | next run rest ih =>
      obtain ⟨stage', z', step, stands'⟩ := stands.again run
      have onward := ih stands'
      rw [← step.doubles] at onward
      rw [Window.forward, onward]
      by_cases back : stage = .returning
      · subst back
        obtain ⟨rfl, rfl, focus⟩ := step.back
        simp [still, focus]
      · obtain ⟨c, top⟩ := Shape.linkSome step.inner
        have way : (still (policy new.key) stage' z').way (policy new.key) =
            (z.focus.next (policy new.key)).way (policy new.key) := by
          rcases step.onward stands.follows back with same | same <;> simp [same]
        rw [way, stillFocus _ z back, Shape.wayNext _ z.focus, stands.shows.current, top]
        simp [back]

-- what is ahead counts twice and what may be come back to counts once: no round lets the sum grow
theorem Stands.countVisits (course : Traced.Course (Window.round policy new.id) w rounds t) (id : NodeId) :
    (visits new.id rounds).count id ≤
      [new.id].count id + (Insertion.again stage z).count id + 2 * (still (policy new.key) stage z).ids.count id := by
  induction course generalizing stage z with
  | last run =>
      obtain ⟨rfl, s, ends, -⟩ := stands.done run
      have absent : z.focus = .leaf := ends.leaf
      have current := stands.shows.current
      rw [absent] at current
      simp only [Window.visits, List.map_cons, List.map_nil, current, Shape.link, Option.getD_none]
      omega
  | next run rest ih =>
      obtain ⟨stage', z', step, stands'⟩ := stands.again run
      have onward := ih stands'
      obtain ⟨c, top⟩ := Shape.linkSome step.inner
      have here := stands.shows.current.trans top
      simp only [Window.visits, List.map_cons, here, Option.getD_some] at onward ⊢
      by_cases back : stage = .returning
      · subst back
        obtain ⟨rfl, rfl, focus⟩ := step.back
        simp only [Insertion.again, still, focus, top, Option.toList_some, List.count_cons, List.count_nil] at onward ⊢
        omega
      · have names : (still (policy new.key) stage' z').ids = (z.focus.next (policy new.key)).ids := by
          rcases step.onward stands.follows back with same | same <;> simp [same]
        have down := z.focus.countNext (policy new.key) id
        have again := step.again stands.colors back id
        rw [names] at onward
        rw [stillFocus _ z back]
        simp only [top, Option.toList_some, List.count_cons, List.count_nil] at down again onward ⊢
        omega

theorem Stands.returns (course : Traced.Course (Window.round policy new.id) w ((w, log) :: behind) t)
    (turned : log.any Event.isDouble) (further : behind ≠ []) : Returns policy new.key w behind := by
  cases course with
  | last run => exact absurd rfl further
  | @next _ w₁ _ _ _ run rest =>
      obtain ⟨stage₁, z₁, step, stands₁⟩ := stands.again run
      obtain rfl : stage₁ = .returning := by simpa [step.doubles] using turned
      cases rest with
      | last run₁ => exact absurd (stands₁.done run₁).1 (by simp)
      | @next _ w₂ _ rounds₂ _ run₁ rest₁ =>
          obtain ⟨stage₂, z₂, step₁, stands₂⟩ := stands₁.again run₁
          obtain ⟨rfl, rfl, onward⟩ := step₁.back
          obtain ⟨log₂, rest₂, rfl⟩ : ∃ log₂ rest₂, rounds₂ = (w₂, log₂) :: rest₂ := by
            cases rest₁ <;> exact ⟨_, _, rfl⟩
          obtain ⟨rfl, p, g, above, path, back⟩ := step.lifts
          obtain ⟨parent, grand⟩ : w.parent = some p.cell.id ∧ w.grand = some g.cell.id := by
            rw [stands.shows.parent, stands.knows.1, path]
            exact ⟨rfl, rfl⟩
          obtain ⟨current, node, here, read, child⟩ := stands.shows.enters step.inner (policy new.key)
          have entered : w₂.current = (z.focus.next (policy new.key)).link := by
            rw [stands₂.shows.current, onward]
            rcases step.onward stands.follows (by simp) with same | same
            · exact congrArg Shape.link same
            · exact (congrArg Shape.link same).trans (Shape.linkBlacken _)
          rw [← stands₁.shows.current] at back
          refine ⟨current, node, w₁, w₂, log₂, rest₂, rfl, here, ?_, ?_, read, entered.trans child.symm⟩
          · rcases back with back | back <;> simp [back]
          · rwa [parent, grand]

end

structure Strolls (policy : Policy K) (key : K) (id : NodeId) (s : Shape K V) (rounds : List (Window σ × List Event)) :
    Prop where
  onward : forward false rounds = (s.way (policy key)).map some ++ [none]
  few : rounds.length ≤ s.descent (policy key) + 1 + (Traced.record rounds).countP Event.isDouble
  twice : ∀ node, (visits id rounds).count node ≤ 2
  returns : ∀ front w log behind, rounds = front ++ (w, log) :: behind → log.any Event.isDouble → behind ≠ [] →
    Returns policy key w behind

theorem Stands.strolls {s : Shape K V} (stands : Stands policy new w .ready ⟨[], s⟩)
    (course : Traced.Course (Window.round policy new.id) w rounds t) : Strolls policy new.key new.id s rounds where
  onward := stands.forwardWay course
  few := by
    have bound := roundsLe false rounds
    have row : forward false rounds = _ := stands.forwardWay course
    rw [row, List.length_append, List.length_map, Shape.lengthWay] at bound
    simpa [still] using bound
  twice node := by
    have bound := stands.countVisits course node
    have once : (new.id :: s.ids).count node ≤ 1 :=
      List.nodup_iff_count_le_one.mp (List.nodup_cons.mpr ⟨stands.out, stands.shows.linked.once⟩) node
    rw [← List.singleton_append, List.count_append] at once
    have nothing : Insertion.again .ready (⟨[], s⟩ : Place K V) = [] := rfl
    simp only [nothing, still, List.count_nil] at bound
    omega
  returns front w log behind split turned further := by
    obtain ⟨⟨stage, z, here⟩, rest⟩ := stands.along course split
    exact here.returns rest turned further

end Window

variable {t : Tree σ} {s : Shape K V} {id : NodeId} {n : Node K V}

theorem everyPassShort (policy : Policy K) (linked : Linked t s) (black : s.color = .black) (noRedRed : s.NoRedRed)
    (read : Storage.get? t.store id = some n) (out : id ∉ s.ids) :
    (∃ answer, (insert policy t id).result = .ok answer) ∧
      (s ≠ .leaf → ∃ store rounds t₁, Storage.modify t.store id Node.reset = .ok store ∧
        Traced.Course (Window.round policy id) (.start { t with store }) rounds t₁ ∧
        Traced.loop (Window.round policy id) (passLimit (Storage.slotCount store)) (.start { t with store }) =
          ⟨Traced.record rounds, .ok t₁⟩ ∧
        Window.Strolls policy n.key id s rounds) := by
  refine ⟨?_, fun inside => ?_⟩
  · cases found : s.find? (policy n.key) with
    | some holder => exact ⟨_, congrArg Traced.result (insertHeld linked read found)⟩
    | none =>
        obtain ⟨log, t', run, -⟩ := insertPaced linked black noRedRed read out found
        exact ⟨_, congrArg Traced.result run⟩
  · obtain ⟨store, rounds, t₁, reset, stands, course, run, -⟩ := loopRounds linked black noRedRed read out policy inside
    exact ⟨store, rounds, t₁, reset, course, run, stands.strolls course⟩

theorem bentPassShort :
    ∃ (store : Array (Node Nat Nat)) (rounds : List (Window (Array (Node Nat Nat)) × List Event))
      (t₁ : Tree (Array (Node Nat Nat))),
      Traced.Course (Window.round .natural ⟨6⟩) (.start ⟨some ⟨0⟩, store⟩) rounds t₁ ∧
        Window.forward false rounds = [some ⟨0⟩, some ⟨2⟩, some ⟨3⟩, some ⟨5⟩, none] ∧
        ∀ node, (Window.visits ⟨6⟩ rounds).count node ≤ 2 := by
  have linked : Linked (⟨some ⟨0⟩, #[⟨.black, some ⟨1⟩, some ⟨2⟩, 10, 1⟩, ⟨.black, none, none, 5, 2⟩,
      ⟨.red, some ⟨3⟩, none, 40, 3⟩, ⟨.black, some ⟨4⟩, some ⟨5⟩, 20, 4⟩, ⟨.red, none, none, 15, 5⟩,
      ⟨.red, none, none, 30, 6⟩, ⟨.black, none, none, 25, 7⟩]⟩ : Tree (Array (Node Nat Nat)))
      (.node ⟨0⟩ .black (.node ⟨1⟩ .black .leaf 5 2 .leaf) 10 1 (.node ⟨2⟩ .red
        (.node ⟨3⟩ .black (.node ⟨4⟩ .red .leaf 15 5 .leaf) 20 4 (.node ⟨5⟩ .red .leaf 30 6 .leaf)) 40 3 .leaf)) := by
    refine ⟨?_, by decide⟩
    repeat first | exact .leaf | refine Spells.nodeIff.mpr ⟨rfl, rfl, ?_, ?_⟩
  obtain ⟨-, walked⟩ := everyPassShort .natural linked rfl (by simp [Shape.NoRedRed, Shape.color])
    (rfl : Storage.get? _ ⟨6⟩ = some ⟨.black, none, none, 25, 7⟩) (by decide)
  obtain ⟨store, rounds, t₁, -, course, -, strolls⟩ := walked (by simp)
  exact ⟨store, rounds, t₁, course, strolls.onward.trans (by decide), strolls.twice⟩

end Tree

end RedBlack
