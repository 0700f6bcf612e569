import Mathlib.Data.List.Chain
import RedBlack.Proofs.Validation

/-! Which trees validation accepts: exactly the red-black trees within the limit. It compares neighbours only, and of
a policy whose `lt` is a strict order this is enough to tell a node that the links reach twice. -/
namespace RedBlack.Tree

section
variable {α β : Type}

def Finds (x : ExceptT Violation (Except Fault) α) (a : α) : Prop := x.run = .ok (.ok a)

theorem findsPure {a b : α} : Finds (pure a) b ↔ a = b :=
  ⟨fun h => Except.ok.inj (Except.ok.inj h), fun same => same ▸ rfl⟩

theorem findsThrow {violation : Violation} {a : α} : ¬ Finds (throw violation) a :=
  fun h => nomatch Except.ok.inj h

theorem findsLift {result : Except Fault α} {a : α} :
    Finds (liftM result : ExceptT Violation (Except Fault) α) a ↔ result = .ok a := by
  cases result with
  | ok b => exact ⟨fun h => congrArg Except.ok (Except.ok.inj (Except.ok.inj h)), fun h => Except.ok.inj h ▸ rfl⟩
  | error fault => exact ⟨nofun, nofun⟩

theorem findsBind {x : ExceptT Violation (Except Fault) α} {f : α → ExceptT Violation (Except Fault) β} {b : β} :
    Finds (x >>= f) b ↔ ∃ a, Finds x a ∧ Finds (f a) b := by
  rw [Finds, ExceptT.run_bind]
  cases run : x.run with
  | error fault => simp [Finds, run, bind, Except.bind]
  | ok verdict => cases verdict <;> simp [Finds, run, bind, Except.bind, pure, Except.pure]

theorem findsCheck {p : Prop} {decision : Decidable p} {violation : Violation}
    {rest : PUnit → ExceptT Violation (Except Fault) β} {b : β} :
    Finds (if p then throw violation >>= rest else rest ()) b ↔ ¬ p ∧ Finds (rest ()) b := by
  split
  · rename_i holds
    simp [findsThrow, holds]
  · rename_i fails
    simp [fails]

theorem findsLastCheck {p : Prop} {decision : Decidable p} {violation : Violation} {u : PUnit} :
    Finds (if p then throw violation else pure PUnit.unit) u ↔ ¬ p := by
  split
  · rename_i holds
    simp [findsThrow, holds]
  · rename_i fails
    simp [findsPure, fails]

end

section
variable {K V : Type} {policy : Policy K}

structure Accepted (policy : Policy K) (levels : Nat) (earlier : Option (Cell K V)) (s : Shape K V) (h : Nat) : Prop where
  low : s.height ≤ levels
  noRedRed : s.NoRedRed
  even : s.BlackHeight h
  row : (earlier.toList ++ s.cells).IsChain fun a b => policy a.key b.key = .lt

def rear (earlier : Option (Cell K V)) (s : Shape K V) : Option (Cell K V) := (earlier.toList ++ s.cells).getLast?

@[simp] theorem rearLeaf (earlier : Option (Cell K V)) : rear earlier .leaf = earlier := by
  cases earlier <;> simp [rear, Shape.cells]

theorem rearNode (earlier : Option (Cell K V)) (id : NodeId) (color : Color) (left right : Shape K V) (key : K) (value : V) :
    rear earlier (.node id color left key value right) = rear (some ⟨id, key, value⟩) right := by
  simp [rear, Shape.cells, List.getLast?_append, List.getLast?_cons]

theorem acceptedLeaf {earlier : Option (Cell K V)} {levels h : Nat} :
    Accepted policy levels earlier (.leaf : Shape K V) h ↔ h = 0 := by
  constructor
  · exact fun accepted => accepted.even
  · rintro rfl
    exact ⟨Nat.zero_le _, trivial, rfl, by cases earlier <;> simp [Shape.cells]⟩

theorem acceptedNode {earlier : Option (Cell K V)} {levels h : Nat} {id : NodeId} {color : Color} {left right : Shape K V}
    {key : K} {value : V} :
    Accepted policy (levels + 1) earlier (.node id color left key value right) h ↔
      (color = .red → left.color = .black ∧ right.color = .black) ∧
        ∃ below, h = below + color.weight ∧ Accepted policy levels earlier left below ∧
          (∀ c, rear earlier left = some c → policy c.key key = .lt) ∧
          Accepted policy levels (some ⟨id, key, value⟩) right below := by
  have split : (earlier.toList ++ (Shape.node id color left key value right).cells).IsChain
      (fun a b => policy a.key b.key = .lt) ↔
      ((earlier.toList ++ left.cells).IsChain fun a b => policy a.key b.key = .lt) ∧
        (∀ c, rear earlier left = some c → policy c.key key = .lt) ∧
        ((some (⟨id, key, value⟩ : Cell K V)).toList ++ right.cells).IsChain fun a b => policy a.key b.key = .lt := by
    rw [Shape.cells, ← List.append_assoc, List.isChain_append]
    simp [rear, and_comm]
  constructor
  · intro accepted
    obtain ⟨low, ⟨colors, noLeft, noRight⟩, even, row⟩ := accepted
    obtain ⟨below, sum, evenLeft, evenRight⟩ := Shape.blackHeightNode.mp even
    obtain ⟨rowLeft, order, rowRight⟩ := split.mp row
    simp only [Shape.height] at low
    exact ⟨colors, below, sum, ⟨by omega, noLeft, evenLeft, rowLeft⟩, order, ⟨by omega, noRight, evenRight, rowRight⟩⟩
  · intro parts
    obtain ⟨colors, below, sum, left, order, right⟩ := parts
    refine ⟨?_, ⟨colors, left.noRedRed, right.noRedRed⟩, Shape.blackHeightNode.mpr ⟨below, sum, left.even, right.even⟩,
      split.mpr ⟨left.row, order, right.row⟩⟩
    have lowLeft := left.low
    have lowRight := right.low
    simp only [Shape.height]
    omega

end

variable {σ K V : Type} [Storage σ K V] {store : σ} {policy : Policy K}

theorem kidFinds {link : Option NodeId} {s : Shape K V} (spells : Spells store link s) (id : NodeId) {u : PUnit} :
    Finds (checkColors.checkKid store id link) u ↔ s.color = .black := by
  have red := spells.isRed
  cases link with
  | none =>
      cases spells
      simp [checkColors.checkKid, findsPure, Shape.color]
  | some kid =>
      simp only [checkColors.checkKid]
      simp [findsBind, findsLift, red, findsLastCheck, Color.eqBlackIff]

theorem colorsFind {n : Node K V} {left right : Shape K V} (spellsLeft : Spells store n.left left)
    (spellsRight : Spells store n.right right) (id : NodeId) {u : PUnit} :
    Finds (checkColors store id n) u ↔ (n.color = .red → left.color = .black ∧ right.color = .black) := by
  unfold checkColors
  split
  · rename_i red
    have red : n.color = .red := by simpa [Node.isRed] using red
    simp [findsBind, kidFinds spellsLeft, kidFinds spellsRight, red]
  · rename_i other
    have black : n.color ≠ .red := by simpa [Node.isRed] using other
    simp [findsPure, black]

def Seen (store : σ) (earlier : Option (Cell K V)) : Prop :=
  ∀ c, earlier = some c → ∃ n, Storage.get? store c.id = some n ∧ n.entry = c.entry

theorem seenNode {id : NodeId} {n : Node K V} (read : Storage.get? store id = some n) : Seen store (some ⟨id, n.key, n.value⟩) := by
  intro c same
  cases same
  exact ⟨n, read, rfl⟩

theorem orderFinds {earlier : Option (Cell K V)} (seen : Seen store earlier) (id : NodeId) (n : Node K V) {u : PUnit} :
    Finds (checkOrder policy store (earlier.map Cell.id) id n) u ↔
      ∀ c, earlier = some c → policy c.key n.key = .lt := by
  cases earlier with
  | none => simp [checkOrder, findsPure]
  | some c =>
      obtain ⟨m, read, entry⟩ := seen c rfl
      have key : m.key = c.key := congrArg Prod.fst entry
      simp only [checkOrder, Option.map_some, findsBind, findsLift, Storage.nodeOk read, findsLastCheck]
      simp [key]

theorem Seen.rear {earlier : Option (Cell K V)} (seen : Seen store earlier) {link : Option NodeId} {s : Shape K V}
    (spells : Spells store link s) : Seen store (rear earlier s) := by
  intro c last
  rcases List.mem_append.mp (List.mem_of_getLast? last) with before | inside
  · exact seen c (by simpa using before)
  · exact spells.readCell inside

theorem absentFinds {levels depth : Nat} {earlier : Option (Cell K V)} {h : Nat} {last : Option NodeId} :
    Finds (checkBelow policy store levels depth none (earlier.map Cell.id)) (h, last) ↔
      ∃ s, Spells store none s ∧ Accepted policy levels earlier s h ∧ last = (rear earlier s).map Cell.id := by
  have found : Finds (checkBelow policy store levels depth none (earlier.map Cell.id)) (h, last) ↔
      h = 0 ∧ last = earlier.map Cell.id := by
    cases levels <;> simp [checkBelow, findsPure, eq_comm]
  rw [found]
  constructor
  · intro absent
    exact ⟨.leaf, .leaf, acceptedLeaf.mpr absent.1, by rw [rearLeaf, absent.2]⟩
  · intro spelled
    obtain ⟨s, spells, accepted, last⟩ := spelled
    cases spells
    exact ⟨acceptedLeaf.mp accepted, by rw [last, rearLeaf]⟩

theorem belowFinds {levels depth : Nat} {link : Option NodeId} {earlier : Option (Cell K V)} (seen : Seen store earlier) {h : Nat}
    {last : Option NodeId} :
    Finds (checkBelow policy store levels depth link (earlier.map Cell.id)) (h, last) ↔
      ∃ s, Spells store link s ∧ Accepted policy levels earlier s h ∧ last = (rear earlier s).map Cell.id := by
  -- the rear of the left row is what the node is compared with, and the node is what stands before the right row
  induction levels generalizing depth link earlier h last with
  | zero =>
      cases link with
      | none => exact absentFinds
      | some id =>
          refine ⟨fun found => (findsThrow found).elim, fun spelled => ?_⟩
          obtain ⟨s, spells, accepted, -⟩ := spelled
          obtain rfl := Shape.heightZero (Nat.le_zero.mp accepted.low)
          cases spells
  | succ levels ih =>
      cases link with
      | none => exact absentFinds
      | some id =>
          simp only [checkBelow, findsBind, findsLift, findsCheck, findsPure]
          constructor
          · intro found
            obtain ⟨n, read, _, colors, ⟨leftHeight, before⟩, foundLeft, _, order, ⟨rightHeight, last'⟩, foundRight, even,
              result⟩ := found
            have read := Storage.nodeEqOk.mp read
            obtain ⟨left, spellsLeft, acceptedLeft, rfl⟩ := (ih seen).mp foundLeft
            obtain ⟨right, spellsRight, acceptedRight, rfl⟩ := (ih (seenNode read)).mp foundRight
            have colors := (colorsFind spellsLeft spellsRight id).mp colors
            have order := (orderFinds (seen.rear spellsLeft) id n).mp order
            obtain rfl : leftHeight = rightHeight := Decidable.not_not.mp even
            obtain ⟨rfl, rfl⟩ := Prod.mk.inj result
            refine ⟨.node id n.color left n.key n.value right, .node read spellsLeft spellsRight,
              acceptedNode.mpr ⟨colors, leftHeight, ?_, acceptedLeft, order, acceptedRight⟩, by rw [rearNode]⟩
            cases color : n.color <;> simp [Node.isRed, color, Color.weight]
          · intro spelled
            obtain ⟨s, spells, accepted, rfl⟩ := spelled
            cases spells with
            | @node _ n left right read spellsLeft spellsRight =>
                obtain ⟨colors, below, rfl, acceptedLeft, order, acceptedRight⟩ := acceptedNode.mp accepted
                refine ⟨n, Storage.nodeOk read, ⟨⟩, (colorsFind spellsLeft spellsRight id).mpr colors, (below, _),
                  (ih seen).mpr ⟨left, spellsLeft, acceptedLeft, rfl⟩, ⟨⟩,
                  (orderFinds (seen.rear spellsLeft) id n).mpr order, (below, _),
                  (ih (seenNode read)).mpr ⟨right, spellsRight, acceptedRight, rfl⟩, by simp, ?_⟩
                rw [rearNode]
                cases color : n.color <;> simp [Node.isRed, color, Color.weight]

theorem validateFinds {t : Tree σ} {h : Nat} : t.validate policy = .ok (.ok h) ↔
    ∃ s, Spells t.store t.root s ∧ s.color = .black ∧ Accepted policy heightLimit none s h := by
  have nothing : Seen t.store (none : Option (Cell K V)) := nofun
  change Finds _ h ↔ _
  simp only [findsBind, findsLift, findsCheck, findsPure]
  constructor
  · intro found
    obtain ⟨red, read, black, ⟨h', last⟩, below, rfl⟩ := found
    obtain ⟨s, spells, accepted, -⟩ := (belowFinds nothing).mp below
    obtain rfl := Except.ok.inj (spells.isRed.symm.trans read)
    exact ⟨s, spells, Color.eqBlackIff.mpr (by simpa using black), accepted⟩
  · intro spelled
    obtain ⟨s, spells, black, accepted⟩ := spelled
    exact ⟨_, spells.isRed, by simp [black], (h, _), (belowFinds nothing).mpr ⟨s, spells, accepted, rfl⟩, rfl⟩

/-- The red-black trees within the limit, by their links: what validation is to accept, and with which height. -/
structure Valid (policy : Policy K) (t : Tree σ) (s : Shape K V) (h : Nat) : Prop where
  linked : Linked t s
  rootBlack : s.color = .black
  noRedRed : s.NoRedRed
  even : s.BlackHeight h
  sorted : s.Sorted policy
  low : s.height ≤ heightLimit

theorem validIff (irreflexive : ∀ a, policy a a ≠ .lt)
    (transitive : ∀ a b c, policy a b = .lt → policy b c = .lt → policy a c = .lt) {t : Tree σ} {s : Shape K V} {h : Nat} :
    Valid policy t s h ↔ Spells t.store t.root s ∧ s.color = .black ∧ Accepted policy heightLimit none s h := by
  have chained : IsTrans (Cell K V) fun a b => policy a.key b.key = .lt := ⟨fun _ _ _ => transitive _ _ _⟩
  have row : s.cells.IsChain (fun a b => policy a.key b.key = .lt) ↔ s.Sorted policy := by
    rw [List.isChain_iff_pairwise, Shape.sortedIff]
  constructor
  · intro valid
    exact ⟨valid.linked.spells, valid.rootBlack, valid.low, valid.noRedRed, valid.even, row.mpr valid.sorted⟩
  · intro found
    obtain ⟨spells, black, accepted⟩ := found
    have sorted := row.mp accepted.row
    exact ⟨⟨spells, onceOfSorted irreflexive spells sorted⟩, black, accepted.noRedRed, accepted.even, sorted, accepted.low⟩

theorem everyVerdictExact (policy : Policy K) (irreflexive : ∀ a, policy a a ≠ .lt)
    (transitive : ∀ a b c, policy a b = .lt → policy b c = .lt → policy a c = .lt) (t : Tree σ)
    (live : ∀ id, Links t id → (Storage.get? t.store id).isSome) :
    ∃ verdict, t.validate policy = .ok verdict ∧ ∀ h, verdict = .ok h ↔ ∃ s, Valid policy t s h := by
  obtain ⟨verdict, run, -⟩ := validateReturns policy (closedLinks live) fun id top => .root top
  refine ⟨verdict, run, fun h => ?_⟩
  simp only [validIff irreflexive transitive, ← validateFinds, run, Except.ok.injEq]

def byDivision : Policy Nat := fun a b => if a ∣ b ∧ a ≠ b then .lt else .gt

def multiples : Tree (Array (Node Nat Unit)) :=
  ⟨some ⟨1⟩, #[⟨.red, none, none, 2, ()⟩, ⟨.black, some ⟨0⟩, some ⟨2⟩, 6, ()⟩, ⟨.red, none, none, 12, ()⟩]⟩

def selfLinked : Tree (Array (Node Nat Unit)) := ⟨some ⟨0⟩, #[⟨.black, none, some ⟨0⟩, 1, ()⟩]⟩

theorem selfLinkedAround {id : NodeId} (links : Links selfLinked id) : id = ⟨0⟩ := by
  induction links with
  | root top => exact (Option.some.inj top).symm
  | child side above read link ih =>
      subst ih
      cases Option.some.inj read
      cases side
      · cases link
      · exact (Option.some.inj link).symm

theorem dividedVerdictsExact : (∃ s, Valid byDivision multiples s 1) ∧ ∀ h, ¬ ∃ s, Valid byDivision selfLinked s h := by
  have less : ∀ a b, byDivision a b = .lt ↔ a ∣ b ∧ a ≠ b := fun a b => by simp [byDivision]
  have irreflexive : ∀ a, byDivision a a ≠ .lt := fun a => by simp [less]
  have transitive : ∀ a b c, byDivision a b = .lt → byDivision b c = .lt → byDivision a c = .lt := by
    intro a b c first second
    rw [less] at first second ⊢
    refine ⟨Nat.dvd_trans first.1 second.1, ?_⟩
    rintro rfl
    exact first.2 (Nat.dvd_antisymm first.1 second.1)
  have linked : Linked multiples (.node ⟨1⟩ .black (.node ⟨0⟩ .red .leaf 2 () .leaf) 6 () (.node ⟨2⟩ .red .leaf 12 () .leaf)) :=
    ⟨Spells.nodeIff.mpr ⟨rfl, rfl, Spells.nodeIff.mpr ⟨rfl, rfl, .leaf, .leaf⟩, Spells.nodeIff.mpr ⟨rfl, rfl, .leaf, .leaf⟩⟩,
      by decide⟩
  constructor
  · obtain ⟨verdict, run, exact⟩ := everyVerdictExact byDivision irreflexive transitive multiples
      fun id links => linked.live (linked.linksIff.mp links)
    exact (exact 1).mp (Except.ok.inj run).symm
  · obtain ⟨verdict, run, exact⟩ := everyVerdictExact byDivision irreflexive transitive selfLinked fun id links => by
      rw [selfLinkedAround links]
      rfl
    intro h valid
    have again : verdict = .error (.order 0) := (Except.ok.inj run).symm
    cases again.symm.trans ((exact h).mpr valid)

end RedBlack.Tree
