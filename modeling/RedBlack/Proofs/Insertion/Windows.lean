import RedBlack.Proofs.Insertion.Outcome
import RedBlack.Proofs.Values

/-! What an insertion knows of the path when it rotates. After a rotation the names further up are out of date; by the
next one they are those of the nodes above, and so no subtree is hung up in the wrong place. -/
namespace RedBlack

inductive Rotation : Event → Prop where
  | single (id : NodeId) : Rotation (.insertSingle id)
  | double (id : NodeId) : Rotation (.insertDouble id)

/-- Color flips with at most one rotation behind each, and at the end perhaps one rotation more. -/
inductive Paced : List Event → Prop where
  | nil : Paced []
  | last {event : Event} (turned : Rotation event) : Paced [event]
  | flip (id : NodeId) {log : List Event} (rest : Paced log) : Paced (.insertFlip id :: log)
  | turn (id : NodeId) {event : Event} {log : List Event} (turned : Rotation event) (rest : Paced log) :
      Paced (.insertFlip id :: event :: log)

namespace Insertion
variable {K V : Type} {order : K → Ordering} {new : Cell K V} {stage stage' : Stage} {z z' : Place K V}
  {log : List Event} {rounds : Nat} {s s' : Shape K V}

theorem Step.paced (step : Step order stage z log stage' z') {rest : List Event} (paced : Paced rest) :
    Paced (log ++ rest) := by
  cases step with
  | walk => exact paced
  | flip => exact .flip _ paced
  | single => exact .turn _ (.single _) paced
  | double => exact .turn _ (.double _) paced

theorem Ends.paced (ends : Ends new z log s) : Paced log := by
  cases ends with
  | plain => exact .nil
  | single => exact .last (.single _)
  | double => exact .last (.double _)

theorem Passes.paced (passes : Passes order new rounds stage z log s) : Paced log := by
  induction passes with
  | ends last => exact last.paced
  | step first tail ih => exact first.paced ih

theorem Grows.paced (grows : Grows order new s log s') : Paced log := by
  obtain ⟨passes, few⟩ := grows
  exact passes.paced

end Insertion

namespace Tree
variable {σ K V : Type} [Storage σ K V]

def Hangs (t : Tree σ) (above : Option NodeId) (side : Side) (id : NodeId) : Prop :=
  (∀ node, above = some node → Links t node) ∧ t.slot above side = .ok (some id)

theorem Linked.hangs {t : Tree σ} {path : Path K V} {s : Shape K V} (linked : Linked t (path.fill s)) {id : NodeId}
    (here : s.link = some id) : Hangs t path.owner path.side id := by
  refine ⟨fun node above => ?_, here ▸ linked.leads.slot⟩
  exact linked.linksIff.mpr (Path.memFill.mpr (.inr (Path.ownerMem above)))

namespace Window
variable {w w' : Window σ} {t t' : Tree σ} {policy : Policy K} {new : Cell K V} {stage stage' : Stage} {z z' : Place K V}
  {log arrival : List Event} {s s' : Shape K V} {path above : Path K V} {p g : Frame K V} {id current : NodeId}

open Insertion

def Conflict (w : Window σ) (t : Tree σ) (current : NodeId) : Prop :=
  Storage.isRed t.store w.parent = .ok true ∧ Storage.isRed t.store (some current) = .ok true

inductive Reddens (id : NodeId) (w : Window σ) : List Event → NodeId → Prop where
  | flip {current : NodeId} (here : w.current = some current)
      (black : Storage.isRed w.tree.store (some current) = .ok false) : Reddens id w [.insertFlip current] current
  | attach (absent : w.current = none) (unlinked : ¬ Links w.tree id) : Reddens id w [] id

structure Exact (id : NodeId) (w : Window σ) (arrival : List Event) (t : Tree σ) (current : NodeId) (settling : List Event)
    (t' : Tree σ) : Prop where
  names : ∃ parent grand, w.parent = some parent ∧ w.grand = some grand ∧ Hangs t (some parent) w.side current ∧
    Hangs t (some grand) w.lastSide parent ∧ (∃ side, Hangs t w.great side grand) ∧
    (settling = [.insertSingle grand] ∨ settling = [.insertDouble grand])
  reddens : Reddens id w arrival current
  keeps : ∃ s s', Linked t s ∧ Linked t' s' ∧ s'.cells = s.cells

/-- A round rotates where two red nodes meet, and nowhere else. -/
def Sure (id : NodeId) (w : Window σ) (log : List Event) : Prop :=
  ∃ arrival t current settling t', w.arrive id = ⟨arrival, .ok (t, current)⟩ ∧
    w.settle t current = ⟨settling, .ok t'⟩ ∧ log = arrival ++ settling ∧
    (w.Conflict t current → Exact id w arrival t current settling t') ∧
    (¬ w.Conflict t current → settling = [] ∧ t' = t)

theorem conflictIff (linked : Linked t (path.fill s)) (parent : w.parent = path.owner) (here : s.link = some current) :
    w.Conflict t current ↔ path.color = .red ∧ s.color = .red := by
  have focus := linked.focus.isRed
  rw [here] at focus
  rw [Conflict, parent, focus]
  cases path with
  | nil => simp [Storage.isRed, Path.color]
  | cons f above => simp [Storage.isRed, Storage.nodeOk linked.leads.1, Except.map, Frame.node, Path.color]

theorem sureCalm (arrived : w.arrive id = ⟨arrival, .ok (t, current)⟩) (linked : Linked t (path.fill s))
    (parent : w.parent = path.owner) (here : s.link = some current) (calm : path.color = .black ∨ s.color = .black) :
    Sure id w arrival := by
  refine ⟨arrival, t, current, [], t, arrived, settleRest linked parent here calm, by simp, fun conflict => ?_,
    fun _ => ⟨rfl, rfl⟩⟩
  obtain ⟨redParent, red⟩ := (conflictIff linked parent here).mp conflict
  simp [redParent, red] at calm

theorem sureConflict {focus : Shape K V} {settling : List Event} (shows : Shows w ⟨p :: g :: above, focus⟩)
    (knows : Knows w ⟨p :: g :: above, focus⟩ .ready) (arrived : w.arrive id = ⟨arrival, .ok (t, current)⟩)
    (reddens : Reddens id w arrival current) (linked : Linked t (Path.fill (p :: g :: above) s))
    (here : s.link = some current) (redParent : p.color = .red) (red : s.color = .red)
    (settled : w.settle t current = ⟨settling, .ok t'⟩)
    (rotates : settling = [.insertSingle g.cell.id] ∨ settling = [.insertDouble g.cell.id]) (linked' : Linked t' s')
    (cells : s'.cells = (Path.fill (p :: g :: above) s).cells) : Sure id w (arrival ++ settling) := by
  obtain ⟨grand, great, lastSide⟩ := knows
  have hangs : Hangs t (some p.cell.id) w.side current := shows.side p _ rfl ▸ linked.hangs here
  have hangsParent : Hangs t (some g.cell.id) w.lastSide p.cell.id := by
    have linked : Linked t (Path.fill (g :: above) (p.fill s)) := linked
    exact lastSide p g above rfl ▸ linked.hangs (Shape.linkFork ..)
  have hangsGrand : Hangs t w.great above.side g.cell.id := by
    have linked : Linked t (Path.fill above (g.fill (p.fill s))) := linked
    exact great ▸ linked.hangs (Shape.linkFork ..)
  refine ⟨arrival, t, current, settling, t', arrived, settled, rfl, fun _ => ?_, fun calm => ?_⟩
  · exact ⟨⟨_, _, shows.parent, grand, hangs, hangsParent, ⟨_, hangsGrand⟩, rotates⟩, reddens, _, _, linked, linked', cells⟩
  · exact absurd ((conflictIff linked shows.parent here).mpr ⟨redParent, red⟩) calm

structure Stands (policy : Policy K) (new : Cell K V) (w : Window σ) (stage : Stage) (z : Place K V) : Prop where
  shows : Shows w z
  knows : Knows w z stage
  colors : At (policy new.key) stage z
  noRedRed : z.shape.NoRedRed
  follows : z.path.Follows (policy new.key)
  read : Storage.get? w.tree.store new.id = some (.fresh new.key new.value)
  out : new.id ∉ z.shape.ids
  inside : z.path = [] → z.focus ≠ .leaf

theorem Stands.start (linked : Linked t s) (black : s.color = .black) (noRedRed : s.NoRedRed)
    (read : Storage.get? t.store new.id = some (.fresh new.key new.value)) (out : new.id ∉ s.ids) (inside : s ≠ .leaf) :
    Stands policy new (.start t) .ready ⟨[], s⟩ where
  shows := startShows linked
  knows := startKnows
  colors := startReady black
  noRedRed := noRedRed
  follows := by simp [Path.Follows]
  read := read
  out := out
  inside _ := inside

section
variable (stands : Stands policy new w stage z)
include stands

theorem Stands.sureStep (step : Step (policy new.key) stage z log stage' z') : Sure new.id w log := by
  obtain ⟨shows, knows, -, noRedRed, -⟩ := stands
  have focusOk := ((Path.noRedRedFill _).mp noRedRed).2
  have isRed := shows.linked.focus.isRed
  have cells := step.cells
  cases step with
  | @walk _ path side c color near far turn idle calm =>
      have here : w.current = some c.id := by simpa using shows.current
      exact sureCalm (arriveIdle shows.linked here idle new.id) shows.linked shows.parent (Shape.linkFork ..)
        (by simpa using calm)
  | @flip path side c color near far turn redNear redFar calm =>
      have here : w.current = some c.id := by simpa using shows.current
      obtain ⟨t₁, arrived, linked₁, -⟩ := arriveFlip shows.linked here redNear redFar new.id
      exact sureCalm arrived linked₁ shows.parent (Shape.linkFork ..) (.inl calm)
  | @single p g above side c color near far turn redNear redFar redParent straight =>
      obtain rfl := Shape.blackOfRed redNear focusOk
      have here : w.current = some c.id := by simpa using shows.current
      obtain ⟨t₁, arrived, linked₁, -⟩ := arriveFlip shows.linked here redNear redFar new.id
      obtain ⟨t₂, settled, linked₂, -⟩ := settleSingle linked₁ shows.parent knows.1 knows.2.1 (knows.2.2 p g above rfl)
        (Shape.linkFork ..) redParent (Shape.colorFork ..) straight
      exact sureConflict shows knows arrived (.flip here (by simpa using isRed)) linked₁ (Shape.linkFork ..) redParent
        (Shape.colorFork ..) settled (.inl rfl) linked₂ (cells.trans (Path.cellsFillOf _ (Shape.cellsRecolor ..)).symm)
  | @double p g q r above side c color near far turn redNear redFar redParent pair back away =>
      obtain rfl := Shape.blackOfRed redNear focusOk
      have here : w.current = some c.id := by simpa using shows.current
      obtain ⟨t₁, arrived, linked₁, -⟩ := arriveFlip shows.linked here redNear redFar new.id
      obtain ⟨t₂, settled, linked₂, -⟩ := settleBetween linked₁ shows.parent knows.1 knows.2.1 (knows.2.2 p g above rfl)
        redParent pair back away
      exact sureConflict shows knows arrived (.flip here (by simpa using isRed)) linked₁ (Shape.linkFork ..) redParent
        (Shape.colorFork ..) settled (.inr rfl) linked₂ (cells.trans (Path.cellsFillOf _ (Shape.cellsRecolor ..)).symm)

theorem Stands.sureEnds (ends : Ends new z log s) (now : stage = .ready) : Sure new.id w log := by
  have further : z.path ≠ [] := fun top => stands.inside top ends.leaf
  have onSide := stands.shows.onSide further
  obtain ⟨shows, knows, -, -, -, read, out, -⟩ := stands
  subst now
  have attached : Reddens new.id w [] new.id := by
    have current := shows.current
    rw [ends.leaf] at current
    exact .attach current fun links => out (shows.linked.linksIff.mp links)
  obtain ⟨path, focus⟩ := z
  have absent : focus = .leaf := ends.leaf
  subst absent
  obtain ⟨t₁, arrived, linked₁, -⟩ := arriveLeaf shows.linked shows.parent further onSide shows.current read out
  have row : s.cells = (path.fill new.sprout).cells := by
    rw [ends.cells, Path.cellsFill]
    simp [Cell.sprout, Shape.cells]
  cases ends with
  | plain calm => exact sureCalm arrived linked₁ shows.parent rfl (.inl calm)
  | @single p g above redParent straight =>
      obtain ⟨t₂, settled, linked₂, -⟩ := settleSingle linked₁ shows.parent knows.1 knows.2.1 (knows.2.2 p g above rfl)
        rfl redParent rfl straight
      exact sureConflict shows knows arrived attached linked₁ rfl redParent rfl settled (.inl rfl) linked₂ row
  | @double p g above redParent bent =>
      have sprout : new.sprout = .fork g.side new .red .leaf .leaf := by cases g.side <;> rfl
      obtain ⟨t₂, settled, linked₂, -⟩ := settleDouble linked₁ shows.parent knows.1 knows.2.1 (knows.2.2 p g above rfl)
        rfl redParent rfl bent sprout
      exact sureConflict shows knows arrived attached linked₁ rfl redParent rfl settled (.inr rfl) linked₂ row

theorem Stands.turns :
    (stage = .ready ∧ ∃ log s t, Ends new z log s ∧ w.round policy new.id = ⟨log, .ok (.done t)⟩ ∧ Linked t s) ∨
      ∃ log stage' z' w', Step (policy new.key) stage z log stage' z' ∧ w.round policy new.id = ⟨log, .ok (.again w')⟩ ∧
        Stands policy new w' stage' z' := by
  obtain ⟨shows, knows, colors, noRedRed, follows, read, out, inside⟩ := stands
  obtain ⟨rfl, log, s, ends⟩ | ⟨log, stage', z', step⟩ := Insertion.progress new colors noRedRed
  · obtain ⟨t, run, linked, -⟩ := roundEnds shows knows read out ends (fun top => inside top ends.leaf) rfl
    exact .inl ⟨rfl, log, s, t, ends, run, linked⟩
  · obtain ⟨w', run, shows', knows', writes⟩ := roundStep shows knows read out step
    have same : z'.shape.ids = z.shape.ids := Shape.idsOfCells step.cells
    refine .inr ⟨log, stage', z', w', step, run, shows', knows', step.at colors noRedRed follows,
      step.noRedRed colors noRedRed, step.follows follows, (writes.elsewhere out).trans read, same ▸ out, ?_⟩
    cases step <;> simp

theorem Stands.sure : Sure new.id w (w.round policy new.id).log := by
  obtain ⟨now, log, s, t, ends, run, -⟩ | ⟨log, stage', z', w', step, run, -⟩ := stands.turns
  · exact run ▸ stands.sureEnds ends now
  · exact run ▸ stands.sureStep step

theorem Stands.again (run : w.round policy new.id = ⟨log, .ok (.again w')⟩) :
    ∃ stage' z', Step (policy new.key) stage z log stage' z' ∧ Stands policy new w' stage' z' := by
  obtain ⟨-, log', s, t, -, other, -⟩ | ⟨log', stage', z', w'', step, other, stands'⟩ := stands.turns
  · cases run.symm.trans other
  · cases run.symm.trans other
    exact ⟨stage', z', step, stands'⟩

theorem Stands.done (run : w.round policy new.id = ⟨log, .ok (.done t)⟩) :
    stage = .ready ∧ ∃ s, Ends new z log s ∧ Linked t s := by
  obtain ⟨now, log', s, t', ends, other, linked⟩ | ⟨log', stage', z', w', -, other, -⟩ := stands.turns
  · cases run.symm.trans other
    exact ⟨now, s, ends, linked⟩
  · cases run.symm.trans other

end

theorem Stands.along (stands : Stands policy new w stage z) {rounds front behind : List (Window σ × List Event)}
    (course : Traced.Course (Window.round policy new.id) w rounds t) (split : rounds = front ++ (w', log) :: behind) :
    (∃ stage' z', Stands policy new w' stage' z') ∧
      Traced.Course (Window.round policy new.id) w' ((w', log) :: behind) t := by
  refine course.reaches (fun w => ∃ stage z, Stands policy new w stage z) ⟨stage, z, stands⟩ ?_ split
  intro now log next holds run
  obtain ⟨stage, z, stands⟩ := holds
  obtain ⟨stage', z', -, stands'⟩ := stands.again run
  exact ⟨stage', z', stands'⟩

end Window

section
variable {t : Tree σ} {s : Shape K V} {id : NodeId} {n : Node K V} (linked : Linked t s)
  (black : s.color = .black) (noRedRed : s.NoRedRed) (read : Storage.get? t.store id = some n) (out : id ∉ s.ids)
include linked black noRedRed read out

theorem insertPaced {policy : Policy K} (fresh : s.find? (policy n.key) = none) :
    ∃ log t', insert policy t id = ⟨log, .ok (.ok (), t')⟩ ∧ Paced log := by
  obtain ⟨log, s', grows⟩ := Insertion.grows (policy n.key) ⟨id, n.key, n.value⟩ black noRedRed
  obtain ⟨t', run, -⟩ := insertGrows linked read out fresh grows
  exact ⟨log, t', run, grows.paced⟩

theorem loopRounds (policy : Policy K) (inside : s ≠ .leaf) :
    ∃ store rounds t₁, Storage.modify t.store id Node.reset = .ok store ∧
      Window.Stands policy ⟨id, n.key, n.value⟩ (.start { t with store }) .ready ⟨[], s⟩ ∧
      Traced.Course (Window.round policy id) (.start { t with store }) rounds t₁ ∧
      Traced.loop (Window.round policy id) (passLimit (Storage.slotCount store)) (.start { t with store }) =
        ⟨Traced.record rounds, .ok t₁⟩ ∧
      Paced (Traced.record rounds) ∧ ∃ s', Linked t₁ s' := by
  obtain ⟨store, reset, linked₁, detached, -⟩ := resetOk linked read out
  have stands : Window.Stands policy ⟨id, n.key, n.value⟩ (.start { t with store }) .ready ⟨[], s⟩ :=
    .start linked₁ black noRedRed detached out inside
  obtain ⟨log, _, passes, few⟩ := Insertion.grows (policy n.key) ⟨id, n.key, n.value⟩ black noRedRed
  obtain ⟨t₁, run, linked₂, -⟩ := loopOk policy ⟨id, n.key, n.value⟩ linked₁ inside detached out passes few
  obtain ⟨rounds, course, short⟩ := Traced.loopCourse (congrArg Traced.result run)
  obtain rfl : log = Traced.record rounds := congrArg Traced.log (run.symm.trans (course.loop short))
  exact ⟨store, rounds, t₁, reset, stands, course, run, passes.paced, _, linked₂⟩

theorem everyRotationExact (policy : Policy K) (missed : t.search policy n.key = .ok none) :
    ∃ log t', insert policy t id = ⟨log, .ok (.ok (), t')⟩ ∧ Paced log ∧
      (t.root ≠ none → ∃ store rounds t₁, Storage.modify t.store id Node.reset = .ok store ∧
        Traced.Course (Window.round policy id) (.start { t with store }) rounds t₁ ∧ t₁.paintRoot .black = .ok t' ∧
        log = Traced.record rounds ∧ ∀ r ∈ rounds, Window.Sure id r.1 r.2) := by
  have fresh : s.find? (policy n.key) = none := Except.ok.inj ((linked.search policy n.key).symm.trans missed)
  by_cases leaf : s = .leaf
  · obtain ⟨log, t', run, paced⟩ := insertPaced linked black noRedRed read out fresh
    exact ⟨log, t', run, paced, fun root => absurd (linked.spells.linkEq.trans (leaf ▸ rfl)) root⟩
  · obtain ⟨store, rounds, t₁, reset, stands, course, run, paced, s', linked₂⟩ :=
      loopRounds linked black noRedRed read out policy leaf
    obtain ⟨t', painted, -⟩ := paintRootOk linked₂
    refine ⟨_, t', insertLoop linked read fresh leaf reset run painted, paced, fun _ =>
      ⟨store, rounds, t₁, reset, course, painted, rfl, fun r member => ?_⟩⟩
    obtain ⟨front, behind, split⟩ := List.append_of_mem member
    obtain ⟨⟨stage, z, here⟩, onward⟩ := stands.along course split
    have sure := here.sure
    cases onward with
    | last run => rwa [run] at sure
    | next run rest => rwa [run] at sure

end

theorem unevenRotationExact :
    ∃ (store : Array (Node Nat Nat)) (rounds : List (Window (Array (Node Nat Nat)) × List Event))
      (t₁ : Tree (Array (Node Nat Nat))),
      Traced.Course (Window.round .natural ⟨6⟩) (.start ⟨some ⟨0⟩, store⟩) rounds t₁ ∧
        Traced.record rounds = [.insertFlip ⟨3⟩, .insertSingle ⟨0⟩] ∧ ∀ r ∈ rounds, Window.Sure ⟨6⟩ r.1 r.2 := by
  have linked : Linked (⟨some ⟨0⟩, #[⟨.black, some ⟨1⟩, some ⟨2⟩, 10, 1⟩, ⟨.black, none, none, 5, 2⟩,
      ⟨.red, none, some ⟨3⟩, 20, 3⟩, ⟨.black, some ⟨4⟩, some ⟨5⟩, 30, 4⟩, ⟨.red, none, none, 25, 5⟩,
      ⟨.red, none, none, 40, 6⟩, ⟨.black, none, none, 45, 7⟩]⟩ : Tree (Array (Node Nat Nat)))
      (.node ⟨0⟩ .black (.node ⟨1⟩ .black .leaf 5 2 .leaf) 10 1 (.node ⟨2⟩ .red .leaf 20 3
        (.node ⟨3⟩ .black (.node ⟨4⟩ .red .leaf 25 5 .leaf) 30 4 (.node ⟨5⟩ .red .leaf 40 6 .leaf)))) := by
    refine ⟨?_, by decide⟩
    repeat first | exact .leaf | refine Spells.nodeIff.mpr ⟨rfl, rfl, ?_, ?_⟩
  obtain ⟨log, t', run, -, rotations⟩ := everyRotationExact linked rfl (by simp [Shape.NoRedRed, Shape.color])
    (rfl : Storage.get? _ ⟨6⟩ = some ⟨.black, none, none, 45, 7⟩) (by decide) .natural rfl
  obtain ⟨store, rounds, t₁, -, course, -, recorded, sure⟩ := rotations (by simp)
  refine ⟨store, rounds, t₁, course, ?_, sure⟩
  rw [← recorded]
  exact (congrArg Traced.log run).symm.trans rfl

end Tree

end RedBlack
