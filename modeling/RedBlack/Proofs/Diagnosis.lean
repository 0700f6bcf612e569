import RedBlack.Proofs.Acceptance

/-! What validation says of a tree that it does not accept. The walk has passed everything in front of the node it
names, so the row up to there is spelled and in order, whatever the links beyond that node are like. -/
namespace RedBlack.Tree

section
variable {K V : Type}

def Ascends (policy : Policy K) (row : List (Cell K V)) : Prop := row.IsChain fun a b => policy a.key b.key = .lt

theorem Ascends.start {policy : Policy K} {row row' : List (Cell K V)} (ascends : Ascends policy row) (front : row' <+: row) :
    Ascends policy row' := by
  obtain ⟨rest, rfl⟩ := front
  exact (List.isChain_append.mp ascends).1

end

variable {σ K V : Type} [Storage σ K V] {store : σ} {policy : Policy K} {link : Option NodeId} {s : Shape K V}
  {row row' : List (Cell K V)}

/-- A row of cells that the links below a link unfold to from left to right, up to some cell or whole. Behind that cell the
links may do anything, run in circles too. -/
inductive Begins (store : σ) : Option NodeId → List (Cell K V) → Prop where
  | start (link : Option NodeId) : Begins store link []
  | left {id : NodeId} {n : Node K V} {row : List (Cell K V)} (read : Storage.get? store id = some n)
      (below : Begins store n.left row) : Begins store (some id) row
  | right {id : NodeId} {n : Node K V} {left : Shape K V} {row : List (Cell K V)} (read : Storage.get? store id = some n)
      (spells : Spells store n.left left) (below : Begins store n.right row) :
      Begins store (some id) (left.cells ++ ⟨id, n.key, n.value⟩ :: row)

theorem Begins.within (begins : Begins store link row) (spells : Spells store link s) : row <+: s.cells := by
  induction begins generalizing s with
  | start link => exact List.nil_prefix
  | @left id n row read below ih =>
      cases spells with
      | @node _ n' left right read' spellsLeft spellsRight =>
          obtain rfl := Option.some.inj (read.symm.trans read')
          exact (ih spellsLeft).trans (List.prefix_append ..)
  | @right id n left row read before below ih =>
      cases spells with
      | @node _ n' left' right read' spellsLeft spellsRight =>
          obtain rfl := Option.some.inj (read.symm.trans read')
          obtain rfl := before.unique spellsLeft
          obtain ⟨rest, whole⟩ := ih spellsRight
          exact ⟨rest, by simp [Shape.cells, whole]⟩

theorem Begins.comparable (begins : Begins store link row) (begins' : Begins store link row') : row <+: row' ∨ row' <+: row := by
  induction begins generalizing row' with
  | start link => exact .inl List.nil_prefix
  | @left id n row read below ih =>
      cases begins' with
      | start => exact .inr List.nil_prefix
      | left read' below' =>
          obtain rfl := Option.some.inj (read.symm.trans read')
          exact ih below'
      | right read' spells' below' =>
          obtain rfl := Option.some.inj (read.symm.trans read')
          exact .inl ((below.within spells').trans (List.prefix_append ..))
  | @right id n left row read spells below ih =>
      cases begins' with
      | start => exact .inr List.nil_prefix
      | left read' below' =>
          obtain rfl := Option.some.inj (read.symm.trans read')
          exact .inr ((below'.within spells).trans (List.prefix_append ..))
      | right read' spells' below' =>
          obtain rfl := Option.some.inj (read.symm.trans read')
          obtain rfl := spells.unique spells'
          simpa using ih below'

def blacks (store : σ) (passed : List NodeId) : Nat :=
  passed.countP fun id => (Storage.get? store id).any fun n => n.color = .black

/-- Every way down from a link ends, and to where it ends it passes as many black nodes as any other. -/
def EvenBelow (store : σ) (link : Option NodeId) (h : Nat) : Prop :=
  (∃ s : Shape K V, Spells store link s) ∧ ∀ passed, Way store link passed none → blacks store passed = h

theorem Way.blacks {last : Option NodeId} {passed : List NodeId} {h : Nat} (way : Way store link passed last) (ended : last = none)
    (spells : Spells store link s) (even : s.BlackHeight h) : blacks store passed = h := by
  induction way generalizing s h with
  | here link =>
      subst ended
      cases spells
      exact (Shape.blackHeightLeaf.mp even).symm
  | @down id n passed last side read below ih =>
      cases spells with
      | @node _ n' left right read' spellsLeft spellsRight =>
          obtain rfl := Option.some.inj (read.symm.trans read')
          obtain ⟨under, rfl, evenLeft, evenRight⟩ := Shape.blackHeightNode.mp even
          have rest : Tree.blacks store passed = under := by
            cases side with
            | left => exact ih ended spellsLeft evenLeft
            | right => exact ih ended spellsRight evenRight
          rw [Tree.blacks, List.countP_cons, read]
          rw [Tree.blacks] at rest
          rw [rest]
          cases color : n.color <;> simp [color]

theorem evenBelow {h : Nat} (spells : Spells store link s) (even : s.BlackHeight h) : EvenBelow store link h :=
  ⟨⟨s, spells⟩, fun _ way => way.blacks rfl spells even⟩

def Uneven (store : σ) (id : NodeId) (left right : Nat) : Prop :=
  left ≠ right ∧ ∃ n, Storage.get? store id = some n ∧ EvenBelow store n.left left ∧ EvenBelow store n.right right

def Flaw (policy : Policy K) (store : σ) (inside : NodeId → Prop) (levels depth : Nat) (link : Option NodeId)
    (earlier : Option (Cell K V)) : Violation → Prop
  | .redRoot => False
  | .redRed parent child => inside ⟨parent⟩ ∧ ∃ n, Storage.get? store ⟨parent⟩ = some n ∧ RedKid store n ⟨child⟩
  | .blackHeight node left right => inside ⟨node⟩ ∧ Uneven store ⟨node⟩ left right
  | .order node => ∃ row a b, Begins store link (row ++ [b]) ∧ b.id = ⟨node⟩ ∧ policy a.key b.key ≠ .lt ∧
      (earlier.toList ++ row).getLast? = some a ∧ Ascends policy (earlier.toList ++ row)
  | .tooDeep reached limit => Deep store levels depth link (.tooDeep reached limit)

section
variable {inside : NodeId → Prop} {levels depth : Nat} {earlier : Option (Cell K V)} {id : NodeId} {n : Node K V} {v : Violation}

theorem Flaw.left (read : Storage.get? store id = some n) (flaw : Flaw policy store inside levels (depth + 1) n.left earlier v) :
    Flaw policy store inside (levels + 1) depth (some id) earlier v := by
  cases v with
  | order node =>
      obtain ⟨row, a, b, begins, disorder⟩ := flaw
      exact ⟨row, a, b, .left read begins, disorder⟩
  | tooDeep reached limit =>
      have deep : Deep store levels (depth + 1) (n.child .left) (.tooDeep reached limit) := flaw
      exact deep.up read
  | _ => exact flaw

theorem Flaw.right (read : Storage.get? store id = some n) (spells : Spells store n.left s)
    (ascends : Ascends policy (earlier.toList ++ s.cells)) (order : ∀ c, rear earlier s = some c → policy c.key n.key = .lt)
    (flaw : Flaw policy store inside levels (depth + 1) n.right (some ⟨id, n.key, n.value⟩) v) :
    Flaw policy store inside (levels + 1) depth (some id) earlier v := by
  cases v with
  | order node =>
      obtain ⟨row, a, b, begins, same, disorder, last, ascendsRight⟩ := flaw
      have begins' := Begins.right read spells begins
      refine ⟨s.cells ++ ⟨id, n.key, n.value⟩ :: row, a, b, ?_, same, disorder, ?_, ?_⟩
      · simpa using begins'
      · rw [← List.append_assoc, List.getLast?_append_cons]
        exact last
      · rw [← List.append_assoc]
        refine List.isChain_append.mpr ⟨ascends, ascendsRight, ?_⟩
        intro c before d behind
        cases behind
        exact order c before
  | tooDeep reached limit =>
      have deep : Deep store levels (depth + 1) (n.child .right) (.tooDeep reached limit) := flaw
      exact deep.up read
  | _ => exact flaw

theorem Flaw.here (read : Storage.get? store id = some n) (spells : Spells store n.left s) {a : Cell K V}
    (ascends : Ascends policy (earlier.toList ++ s.cells)) (last : rear earlier s = some a) (disorder : policy a.key n.key ≠ .lt) :
    Flaw policy store inside levels depth (some id) earlier (.order id.index) :=
  ⟨s.cells, a, ⟨id, n.key, n.value⟩, .right read spells (.start _), rfl, disorder, last, ascends⟩

theorem Returns.finding {α : Type} {x : ExceptT Violation (Except Fault) α} {holds : α → Prop} {raises : Violation → Prop}
    (returns : Returns x holds raises) : Returns x (Finds x) raises := by
  obtain ⟨verdict, run, -, raised⟩ := returns
  refine ⟨verdict, run, ?_, raised⟩
  intro a same
  rw [Finds, run, same]

theorem Seen.returnsOrder {raises : Violation → Prop} (seen : Seen store earlier) (id : NodeId) (n : Node K V)
    (raised : ∀ c, earlier = some c → policy c.key n.key ≠ .lt → raises (.order id.index)) :
    Returns (checkOrder policy store (earlier.map Cell.id) id n) (fun _ => True) raises := by
  have cellRead : ∀ front, earlier.map Cell.id = some front →
      ∃ c m, earlier = some c ∧ Storage.get? store front = some m ∧ m.key = c.key := by
    intro front same
    obtain ⟨c, rfl, rfl⟩ := Option.map_eq_some_iff.mp same
    obtain ⟨m, read, entry⟩ := seen c rfl
    exact ⟨c, m, rfl, read, congrArg Prod.fst entry⟩
  apply Tree.returnsOrder
  · intro front same
    obtain ⟨c, m, -, read, -⟩ := cellRead front same
    exact ⟨m, read⟩
  · intro front m same read disorder
    obtain ⟨c, m', last, read', key⟩ := cellRead front same
    obtain rfl := Option.some.inj (read.symm.trans read')
    exact raised c last (key ▸ disorder)

theorem returnsFlaw (closed : Closed store inside) (led : ∀ id, link = some id → inside id) (seen : Seen store earlier) :
    Returns (checkBelow policy store levels depth link (earlier.map Cell.id)) (fun _ => True)
      (Flaw policy store inside levels depth link earlier) := by
  induction levels generalizing depth link earlier with
  | zero =>
      cases link with
      | none => exact returnsPure trivial
      | some id =>
          obtain ⟨n, read, -⟩ := closed id (led id rfl)
          exact returnsThrow ⟨rfl, rfl, [id], n.child .left, .down .left read (.here _), rfl⟩
  | succ levels ih =>
      cases link with
      | none => exact returnsPure trivial
      | some id =>
          obtain ⟨n, read, further⟩ := closed id (led id rfl)
          apply returnsBind (returnsLift (Storage.nodeOk read))
          intro _ same
          subst same
          apply returnsBind (returnsColors closed id further fun kid red => ⟨led id rfl, n, read, red⟩)
          intro _ _
          have left := @ih _ (depth + 1) _ (fun next link => further .left next link) seen
          apply returnsBind (left.raising fun _ => Flaw.left read).finding
          intro ⟨leftHeight, before⟩ found
          obtain ⟨s, spells, accepted, rfl⟩ := (belowFinds seen).mp found
          have order : Returns (checkOrder policy store ((rear earlier s).map Cell.id) id n) (fun _ => True)
              (Flaw policy store inside (levels + 1) depth (some id) earlier) :=
            (seen.rear spells).returnsOrder id n fun c last disorder => Flaw.here read spells accepted.row last disorder
          apply returnsBind order.finding
          intro _ ordered
          have ordered := (orderFinds (seen.rear spells) id n).mp ordered
          have here := seenNode read
          have right := @ih _ (depth + 1) _ (fun next link => further .right next link) here
          apply returnsBind (right.raising fun _ => Flaw.right read spells accepted.row ordered).finding
          intro ⟨rightHeight, last⟩ found'
          obtain ⟨s', spells', accepted', rfl⟩ := (belowFinds here).mp found'
          apply returnsCheck
          · intro apart
            exact ⟨led id rfl, apart, n, read, evenBelow spells accepted.even, evenBelow spells' accepted'.even⟩
          · exact fun _ => returnsPure trivial

end

variable {t : Tree σ} {v : Violation}

def Real (policy : Policy K) (t : Tree σ) : Violation → Prop
  | .redRoot => ∃ id n, t.root = some id ∧ Storage.get? t.store id = some n ∧ n.color = .red
  | .redRed parent child => Links t ⟨parent⟩ ∧ ∃ n, Storage.get? t.store ⟨parent⟩ = some n ∧ RedKid t.store n ⟨child⟩
  | .order node => ∃ row a b, Begins t.store t.root (row ++ [a, b]) ∧ b.id = ⟨node⟩ ∧ policy a.key b.key ≠ .lt ∧
      Ascends policy (row ++ [a]) ∧ ∀ row', Begins t.store t.root row' → ¬ Ascends policy row' → row ++ [a, b] <+: row'
  | .blackHeight node left right => Links t ⟨node⟩ ∧ Uneven t.store ⟨node⟩ left right
  | .tooDeep depth limit => depth = 65 ∧ limit = 64 ∧ ∃ passed last, Way t.store t.root passed last ∧ passed.length = 65

theorem Flaw.real (flaw : Flaw policy t.store (Links t) heightLimit 1 t.root none v) : Real policy t v := by
  cases v with
  | redRoot => exact flaw.elim
  | order node =>
      obtain ⟨row, a, b, begins, same, disorder, last, ascends⟩ := flaw
      obtain ⟨row, rfl⟩ := List.getLast?_eq_some_iff.mp last
      have begins : Begins t.store t.root (row ++ [a] ++ [b]) := begins
      refine ⟨row, a, b, by simpa using begins, same, disorder, ascends, ?_⟩
      intro row' begins' falls
      obtain front | front := begins.comparable begins'
      · simpa using front
      · obtain rfl | short := List.prefix_concat_iff.mp front
        · simp
        · exact absurd (ascends.start short) falls
  | _ => exact flaw

theorem everyViolationReal (policy : Policy K) (t : Tree σ) (live : ∀ id, Links t id → (Storage.get? t.store id).isSome) :
    ∃ verdict, t.validate policy = .ok verdict ∧ ∀ v, verdict = .error v → Real policy t v := by
  have closed := closedLinks live
  have top : ∀ id, t.root = some id → Links t id := fun id => .root
  have nothing : Seen t.store (none : Option (Cell K V)) := nofun
  obtain ⟨answer, answered, red⟩ := closed.isRed top
  have returns : Returns (do
      if ← Storage.isRed t.store t.root then throw .redRoot
      return (← checkBelow policy t.store heightLimit 1 t.root none).1) (fun _ => True) (Real policy t) := by
    apply returnsBind (returnsLift answered)
    intro _ same
    subst same
    apply returnsCheck red
    intro _
    have below : Returns (checkBelow policy t.store heightLimit 1 t.root none) (fun _ => True)
        (Flaw policy t.store (Links t) heightLimit 1 t.root none) := returnsFlaw closed top nothing
    exact returnsBind (below.raising fun _ => Flaw.real) fun _ _ => returnsPure trivial
  obtain ⟨verdict, run, -, raised⟩ := returns
  exact ⟨verdict, run, raised⟩

def leftHeavy : Tree (Array (Node Nat Unit)) := ⟨some ⟨0⟩, #[⟨.black, some ⟨1⟩, none, 2, ()⟩, ⟨.black, none, none, 1, ()⟩]⟩

theorem twoViolationsReal : Real .natural selfLinked (.order 0) ∧ Real .natural leftHeavy (.blackHeight 0 1 0) := by
  have linked : Linked leftHeavy (.node ⟨0⟩ .black (.node ⟨1⟩ .black .leaf 1 () .leaf) 2 () .leaf) :=
    ⟨Spells.nodeIff.mpr ⟨rfl, rfl, Spells.nodeIff.mpr ⟨rfl, rfl, .leaf, .leaf⟩, .leaf⟩, by decide⟩
  constructor
  · obtain ⟨verdict, run, real⟩ := everyViolationReal .natural selfLinked fun id links => by
      rw [selfLinkedAround links]
      rfl
    exact real (.order 0) (Except.ok.inj run).symm
  · obtain ⟨verdict, run, real⟩ := everyViolationReal .natural leftHeavy
      fun id links => linked.live (linked.linksIff.mp links)
    exact real (.blackHeight 0 1 0) (Except.ok.inj run).symm

end RedBlack.Tree
