import RedBlack.Proofs.Erasure.Safety
import RedBlack.Proofs.Values

/-! Which node an erasure takes out of a sorted tree. The pass enters the nodes of the plain descent, whatever it
turns above them, so the last one is known beforehand: the match, or the node right after it if that hangs below. -/
namespace RedBlack

namespace Shape
variable {K V : Type} {order : K → Ordering}

def lowest (order : K → Ordering) : Shape K V → Option (Cell K V)
  | leaf => none
  | node id _ left key value right =>
      match Side.toward (order key) with
      | .left => (left.lowest order).or (some ⟨id, key, value⟩)
      | .right => (right.lowest order).or (some ⟨id, key, value⟩)

theorem lowestFork {side : Side} {c : Cell K V} (turn : Side.toward (order c.key) = side) (color : Color)
    (near far : Shape K V) : (fork side c color near far).lowest order = (near.lowest order).or (some c) := by
  cases side <;> simp [fork, lowest, turn]

theorem lowestOfLess {s : Shape K V} (less : ∀ c ∈ s.cells, order c.key = .lt) : s.lowest order = s.cells.head? := by
  induction s with
  | leaf => rfl
  | node id color left key value right ihLeft ihRight =>
      simp only [cells, List.mem_append, List.mem_cons] at less
      have here : order key = .lt := less ⟨id, key, value⟩ (.inr (.inl rfl))
      simp [lowest, here, Side.toward, ihLeft fun c member => less c (.inl member), cells, List.head?_append]

end Shape

namespace Path
variable {K V : Type} {order : K → Ordering} {path : Path K V}

theorem lowestFill (follows : path.Follows order) (s : Shape K V) :
    (path.fill s).lowest order = (s.lowest order).or (path.head?.map Frame.cell) := by
  induction path generalizing s with
  | nil => simp
  | cons f above ih =>
      rw [fillCons, ih follows.tail, Frame.fill, Shape.lowestFork follows.head]
      simp

theorem follows (greater : ∀ c ∈ path.before, order c.key = .gt) (less : ∀ c ∈ path.after, order c.key = .lt) :
    path.Follows order := by
  induction path with
  | nil => simp [Follows]
  | cons f above ih =>
      cases side : f.side with
      | left =>
          simp only [before, after, side, List.mem_append, List.mem_cons] at greater less
          refine .cons ?_ (ih greater fun c member => less c (.inr member))
          simp [less f.cell (.inl (.inl rfl)), Side.toward, side]
      | right =>
          simp only [before, after, side, List.mem_append, List.mem_singleton] at greater less
          refine .cons ?_ (ih (fun c member => greater c (.inl (.inl member))) less)
          simp [greater f.cell (.inr rfl), Side.toward, side]

end Path

theorem Shape.lowestMatch {K V : Type} {order : K → Ordering} {path : Path K V} {c : Cell K V} {color : Color}
    {left right : Shape K V} (aligned : Aligned order (path.fill (.fork .right c color right left)).cells)
    (equal : order c.key = .eq) :
    (path.fill (.fork .right c color right left)).lowest order = right.cells.head?.or (some c) := by
  have row : (path.fill (.fork .right c color right left)).cells =
      (path.before ++ left.cells) ++ c :: (right.cells ++ path.after) := by
    rw [Path.cellsFill]
    simp [fork, cells]
  rw [row] at aligned
  have greater := aligned.allGreater (by simp [equal])
  have less := aligned.allLess (by simp [equal])
  have follows := Path.follows (fun c member => greater c (List.mem_append_left _ member))
    (fun c member => less c (List.mem_append_right _ member))
  have turn : Side.toward (order c.key) = .right := by rw [equal]; rfl
  rw [Path.lowestFill follows, lowestFork turn, lowestOfLess fun c member => less c (List.mem_append_left _ member),
    Option.or_assoc, Option.some_or]

namespace Erasure
variable {K V : Type} {order : K → Ordering} {s s' : Shape K V} {log : List Event} {id : NodeId} {entry : K × V}

theorem Step.enters {z z' : Place K V} (step : Step order z log z') :
    ∃ c, z'.path.head?.map Frame.cell = some c ∧ z.focus.lowest order = (z'.focus.lowest order).or (some c) := by
  cases step with
  | walk turn red => exact ⟨_, rfl, Shape.lowestFork turn ..⟩
  | lift turn black => exact ⟨_, rfl, Shape.lowestFork turn ..⟩
  | alone turn black beside => exact ⟨_, rfl, Shape.lowestFork turn ..⟩
  | recolor turn black beside nephews => exact ⟨_, rfl, Shape.lowestFork turn ..⟩
  | single turn black beside nephews => exact ⟨_, rfl, Shape.lowestFork turn ..⟩
  | double turn black beside => exact ⟨_, rfl, Shape.lowestFork turn ..⟩

theorem Passes.bottom {rounds : Nat} {z : Place K V} {bottom : Path K V} (passes : Passes order rounds z log bottom) :
    bottom.head?.map Frame.cell = (z.focus.lowest order).or (z.path.head?.map Frame.cell) := by
  induction passes with
  | ends => simp [Shape.lowest]
  | step first tail ih =>
      obtain ⟨c, onTop, below⟩ := first.enters
      rw [ih, onTop, below, Option.or_assoc, Option.some_or]

theorem Erases.moved (erases : Erases order s log id entry s') :
    ∃ leaf held : Cell K V, leaf.id = id ∧ held.entry = entry ∧ s.lowest order = some leaf ∧ leaf ∈ s.cells ∧
      held ∈ s.cells ∧ order held.key = .eq ∧ ∀ c ∈ s.cells, c.id ≠ id → c.give held.id leaf.entry ∈ s'.cells := by
  obtain @⟨f, g, rest, passes, member, equal⟩ := erases
  have lowest := passes.bottom
  have inside : ∀ h ∈ f :: rest, h.cell ∈ s.cells := fun h member => passes.cellsRoot ▸ Path.frameCell member
  refine ⟨f.cell, g.cell, rfl, rfl, by simpa using lowest.symm, inside f List.mem_cons_self, inside g member, equal, ?_⟩
  intro c here other
  rw [Shape.cellsBlacken, Shape.cellsGive]
  refine List.mem_map_of_mem ?_
  rw [← passes.cellsRoot, Path.fillCons, Path.cellsFill] at here
  rw [Path.cellsFill]
  have apart : c ≠ f.cell := fun same => other (same ▸ rfl)
  cases side : f.side <;> simpa [Frame.fill, Shape.fork, Shape.cells, side, apart] using here

end Erasure

namespace Tree
variable {σ K V : Type} [Storage σ K V] {t : Tree σ} {s : Shape K V} {policy : Policy K} {key : K} {order : K → Ordering}
  {held : NodeId} {n : Node K V}

theorem Linked.lowest (linked : Linked t s) (aligned : Aligned order s.cells) (member : held ∈ s.ids)
    (read : Storage.get? t.store held = some n) (equal : order n.key = .eq) :
    ∃ front behind, s.ids = front ++ held :: behind ∧
      (s.lowest order).map Cell.id = if n.right.isSome then behind.head? else some held := by
  obtain ⟨path, color, left, right, rfl⟩ := Path.placeOf (linked.spells.cellAt member read)
  obtain ⟨-, here, -, -⟩ := Spells.forkIff.mp linked.focus
  have below : n.right = right.link := congrArg Node.right (Option.some.inj (read.symm.trans here))
  refine ⟨(path.before ++ left.cells).map Cell.id, (right.cells ++ path.after).map Cell.id, ?_, ?_⟩
  · rw [Shape.idsEqCells, Path.cellsFill]
    simp [Shape.fork, Shape.cells]
  · rw [Shape.lowestMatch aligned equal, below]
    cases right with
    | leaf => simp [Shape.cells, Shape.link]
    | node id color' left' key' value' right' =>
        obtain ⟨c, rest, row⟩ := List.exists_cons_of_ne_nil
          (by simp [Shape.cells] : (Shape.node id color' left' key' value' right').cells ≠ [])
        rw [row]
        simp [Shape.link]

/-- What an erasure leaves of a tree when it takes the node `leaf` out for the entry that `held` had. -/
structure Parted (t t' : Tree σ) (s : Shape K V) (held : NodeId) (n : Node K V) (leaf : NodeId) : Prop where
  successor : ∃ front behind, s.ids = front ++ held :: behind ∧
    some leaf = if n.right.isSome then behind.head? else some held
  row : ∃ front behind s', s.entries = front ++ n.entry :: behind ∧ Linked t' s' ∧ s'.entries = front ++ behind
  carries : Storage.get? t'.store leaf = some (.fresh n.key n.value)
  unlinked : ¬ Links t' leaf
  kept : ∀ id ∈ s.ids, id ≠ leaf → id ≠ held →
    (Storage.get? t'.store id).map Node.entry = (Storage.get? t.store id).map Node.entry
  moved : leaf ≠ held → (Storage.get? t'.store held).map Node.entry = (Storage.get? t.store leaf).map Node.entry
  untouched : ∀ id, id ∉ s.ids → Storage.get? t'.store id = Storage.get? t.store id

theorem Linked.parts (linked : Linked t s) (aligned : Aligned (policy key) s.cells) (member : held ∈ s.ids)
    (read : Storage.get? t.store held = some n) (equal : policy key n.key = .eq) :
    ∃ leaf t', (erase policy t key).result = .ok (.ok leaf, t') ∧ Parted t t' s held n leaf := by
  have inside := linked.spells.cellAt member read
  have found : s.find? (policy key) ≠ none := fun none => (linked.findNoneIff aligned).mp none held n member read equal
  obtain ⟨log, id, entry, t', s', erases, run, linked', fresh, writes⟩ := erases linked found
  obtain ⟨front, behind, row, lowest⟩ := linked.lowest aligned member read equal
  obtain ⟨front', behind', before, after, -⟩ := erases.singles linked.once aligned
  have gone : id ∉ s'.ids := fun left => ((erases.idsIff linked.once id).mp left).2 rfl
  obtain ⟨leaf, match_, rfl, rfl, bottom, leafInside, matchInside, matchEqual, moved⟩ := erases.moved
  obtain rfl : match_ = ⟨held, n.key, n.value⟩ := aligned.unique matchInside matchEqual inside equal
  rw [bottom, Option.map_some] at lowest
  refine ⟨leaf.id, t', by rw [run], ⟨front, behind, row, lowest⟩, ⟨front', behind', s', before, linked', after⟩, fresh,
    fun links => gone (linked'.linksIff.mp links), ?_, ?_, fun id out => writes.elsewhere out⟩
  · intro id linkedId other apart
    obtain ⟨m, readHere⟩ := Option.isSome_iff_exists.mp (linked.live linkedId)
    have cell := linked.spells.cellAt linkedId readHere
    have kept := moved _ cell other
    rw [Cell.give, if_neg apart] at kept
    exact (linked'.spells.entryAt kept).trans (linked.spells.entryAt cell).symm
  · intro apart
    have given := moved _ inside (Ne.symm apart)
    rw [Cell.give, if_pos rfl] at given
    exact (linked'.spells.entryAt given).trans (linked.spells.entryAt leafInside).symm

theorem everyErasureParts [Std.TransCmp policy] (linked : Linked t s) (sorted : s.Sorted policy) (key : K) :
    (∀ held n, held ∈ s.ids → Storage.get? t.store held = some n → policy key n.key = .eq →
      ∃ leaf t', (erase policy t key).result = .ok (.ok leaf, t') ∧ Parted t t' s held n leaf) ∧
    ((∀ id n, id ∈ s.ids → Storage.get? t.store id = some n → policy key n.key ≠ .eq) →
      (erase policy t key).result = .ok (.error .notFound, t)) := by
  refine ⟨fun held n member read equal => linked.parts (sorted.aligned key) member read equal, fun unequal => ?_⟩
  exact congrArg Traced.result (eraseMissing linked ((linked.findNoneIff (sorted.aligned key)).mpr unequal))

def deepSuccessor : Tree (Array (Node Nat Nat)) :=
  ⟨some ⟨0⟩, #[⟨.black, some ⟨1⟩, some ⟨2⟩, 20, 200⟩, ⟨.black, none, none, 10, 100⟩, ⟨.black, some ⟨3⟩, none, 30, 300⟩,
    ⟨.red, none, none, 25, 250⟩]⟩

def single20 : Tree (Array (Node Nat Nat)) := ⟨some ⟨0⟩, #[⟨.black, none, none, 20, 200⟩]⟩

theorem halvedErasureParts :
    (∃ t' : Tree (Array (Node Nat Nat)), (erase (.byMeasure (· / 2)) deepSuccessor 21).result = .ok (.ok ⟨3⟩, t') ∧
      t'.store[3]? = some (.fresh 20 200) ∧ ¬ Links t' ⟨3⟩ ∧ (Storage.get? t'.store ⟨0⟩).map Node.entry = some (25, 250)) ∧
    (erase (.byMeasure (· / 2)) single20 22).result = .ok (.error .notFound, single20) := by
  have linked : Linked deepSuccessor (.node ⟨0⟩ .black (.node ⟨1⟩ .black .leaf 10 100 .leaf) 20 200
      (.node ⟨2⟩ .black (.node ⟨3⟩ .red .leaf 25 250 .leaf) 30 300 .leaf)) := by
    refine ⟨Spells.nodeIff.mpr ⟨rfl, rfl, ?_, Spells.nodeIff.mpr ⟨rfl, rfl, ?_, .leaf⟩⟩, by decide⟩
    · exact Spells.nodeIff.mpr ⟨rfl, rfl, .leaf, .leaf⟩
    · exact Spells.nodeIff.mpr ⟨rfl, rfl, .leaf, .leaf⟩
  have alone : Linked single20 (.node ⟨0⟩ .black .leaf 20 200 .leaf) :=
    ⟨Spells.nodeIff.mpr ⟨rfl, rfl, .leaf, .leaf⟩, by decide⟩
  constructor
  · obtain ⟨leaf, t', run, parted⟩ := (everyErasureParts linked (by decide : Shape.Sorted (.byMeasure (· / 2)) _) 21).1 ⟨0⟩ _
      (by decide) rfl rfl
    obtain rfl : ⟨3⟩ = leaf := by
      have first : _ = Except.ok (Except.ok leaf) := congrArg (Except.map Prod.fst) run
      exact Except.ok.inj (Except.ok.inj first)
    exact ⟨t', run, parted.carries, parted.unlinked, parted.moved (by decide)⟩
  · refine (everyErasureParts alone (by decide : Shape.Sorted (.byMeasure (· / 2)) _) 22).2 ?_
    intro id n member read
    obtain rfl : id = ⟨0⟩ := by simpa [Shape.ids] using member
    cases Option.some.inj read
    decide

end Tree

end RedBlack
