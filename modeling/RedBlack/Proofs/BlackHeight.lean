import RedBlack.Proofs.Erasure.Removal
import RedBlack.Proofs.Insertion.Outcome

/-! When the black height of a tree changes. Two rounds below the root a pass has left the frame of the root behind for
good, and what hangs there beside the way tells which black height the tree ends with. -/
namespace RedBlack

namespace Shape
variable {K V : Type} {s : Shape K V} {h h' : Nat}

theorem blackHeightUnique (even : s.BlackHeight h) (even' : s.BlackHeight h') : h = h' := by
  induction s generalizing h h' with
  | leaf => exact Eq.trans even (Eq.symm even')
  | node id color left key value right ihLeft ihRight =>
      obtain ⟨below, rfl, evenLeft, -⟩ := blackHeightNode.mp even
      obtain ⟨below', rfl, evenLeft', -⟩ := blackHeightNode.mp even'
      rw [ihLeft evenLeft evenLeft']

def Full : Shape K V → Prop
  | leaf => True
  | node _ _ left _ _ right => left.color = .red ∧ right.color = .red

theorem fullFork {side : Side} {c : Cell K V} {color : Color} {near far : Shape K V} :
    (fork side c color near far).Full ↔ near.color = .red ∧ far.color = .red := by
  cases side with
  | left => rfl
  | right => exact and_comm

def BlackTo : Nat → Shape K V → Prop
  | 0, _ => True
  | _, leaf => True
  | levels + 1, node _ color left _ _ right => color = .black ∧ left.BlackTo levels ∧ right.BlackTo levels

theorem blackToFork {levels : Nat} {side : Side} {c : Cell K V} {color : Color} {near far : Shape K V} :
    (fork side c color near far).BlackTo (levels + 1) ↔ color = .black ∧ near.BlackTo levels ∧ far.BlackTo levels := by
  cases side with
  | left => rfl
  | right => simp [fork, BlackTo, and_comm]

theorem blackToOne : s.BlackTo 1 ↔ s.color = .black := by cases s <;> simp [BlackTo, color]

theorem BlackTo.black {levels : Nat} (dark : s.BlackTo (levels + 1)) : s.color = .black := by
  cases s with
  | leaf => rfl
  | node id color left key value right => exact dark.1

end Shape

namespace Path
variable {K V : Type} {s s' : Shape K V}

theorem colorFill (path : Path K V) (same : path = [] → s.color = s'.color) : (fill path s).color = (fill path s').color := by
  induction path generalizing s s' with
  | nil => exact same rfl
  | cons f above ih => exact ih fun _ => by rw [Frame.fill, Frame.fill, Shape.colorFork, Shape.colorFork]

theorem fillRoot {path : Path K V} {r : Frame K V} (root : path.getLast? = some r) (s : Shape K V) : ∃ s', fill path s = r.fill s' := by
  induction path generalizing s with
  | nil => cases root
  | cons f above ih =>
      cases above with
      | nil =>
          cases root
          exact ⟨s, rfl⟩
      | cons g above => exact ih root (f.fill s)

end Path

namespace Insertion
variable {K V : Type} {order : K → Ordering} {new : Cell K V} {stage stage' : Stage} {z z' : Place K V}
  {log : List Event} {s s' : Shape K V} {h : Nat}

section
variable {p g q r : Frame K V} {above : Path K V} {near far : Shape K V} {side : Side} {c : Cell K V}

theorem overColor (redParent : p.color = .red) (whole : (Path.fill (p :: g :: above) s).NoRedRed) :
    (Path.fill (p.over g :: above) s').color = (Path.fill (p :: g :: above) s).color := by
  refine Path.colorFill above fun _ => ?_
  simp [Frame.fill, Frame.over, grandBlack redParent whole]

theorem betweenColor (redParent : p.color = .red) (whole : (Path.fill (p :: g :: above) s).NoRedRed) :
    (Path.fill above (.fork side c .black near far)).color = (Path.fill (p :: g :: above) s).color := by
  refine Path.colorFill above fun _ => ?_
  simp [Frame.fill, grandBlack redParent whole]

end

theorem Step.rootColor (step : Step order stage z log stage' z') (inside : z.path ≠ []) (noRedRed : z.shape.NoRedRed) :
    z'.shape.color = z.shape.color := by
  cases step with
  | walk turn idle calm => rfl
  | flip turn redNear redFar calm => exact Path.colorFill _ fun root => absurd root inside
  | single turn redNear redFar redParent straight => exact overColor redParent noRedRed
  | double turn redNear redFar redParent pair back away => exact betweenColor redParent noRedRed

theorem Step.goesDown (step : Step order stage z log stage' z') : z'.path ≠ [] := by cases step <;> simp

theorem Ends.rootColor (ends : Ends new z log s) (inside : z.path ≠ []) (noRedRed : z.shape.NoRedRed) :
    s.color = z.shape.color := by
  cases ends with
  | plain calm => exact Path.colorFill _ fun root => absurd root inside
  | single redParent straight => exact overColor redParent noRedRed
  | double redParent bent => exact betweenColor redParent noRedRed

theorem Passes.rootColor {rounds : Nat} (passes : Passes order new rounds stage z log s) (inside : z.path ≠ [])
    (stands : At order stage z) (noRedRed : z.shape.NoRedRed) (follows : z.path.Follows order) :
    s.color = z.shape.color := by
  induction passes with
  | ends last => exact last.rootColor inside noRedRed
  | step first tail ih =>
      rw [ih first.goesDown (first.at stands noRedRed follows) (first.noRedRed stands noRedRed) (first.follows follows)]
      exact first.rootColor inside noRedRed

theorem Passes.redRoot {rounds : Nat} (passes : Passes order new rounds .ready ⟨[], s⟩ log s') (balanced : s.Balanced) :
    s'.color = .red ↔ s.Full := by
  have stands : At order .ready ⟨[], s⟩ := startReady balanced.root
  have follows : Path.Follows order ([] : Path K V) := by simp [Path.Follows]
  cases passes with
  | ends last =>
      cases last with
      | plain calm => exact iff_of_true rfl trivial
  | step first tail =>
      have kept := tail.rootColor first.goesDown (first.at stands balanced.noRedRed follows)
        (first.noRedRed stands balanced.noRedRed) (first.follows follows)
      rw [kept]
      cases first with
      | @walk _ _ side c color near far turn idle calm =>
          have black : color = .black := by simpa using balanced.root
          have stays : (Place.shape ⟨[⟨c, color, side, far⟩], near⟩).color = .black := by
            simp [Place.shape, Frame.fill, black]
          rw [stays, Shape.fullFork]
          refine iff_of_false (by simp) fun full => ?_
          rcases idle with black | black
          · simp [full.1] at black
          · simp [full.2] at black
      | flip turn redNear redFar calm =>
          rw [Shape.fullFork]
          exact iff_of_true (by simp [Place.shape, Frame.fill]) ⟨redNear, redFar⟩

theorem Grows.blackHeight (grows : Grows order new s log s') (balanced : s.Balanced) (even : s.BlackHeight h) :
    ∃ h', s'.BlackHeight h' ∧ (s.Full → h' = h + 1) ∧ (¬ s.Full → h' = h) := by
  obtain @⟨rounds, s', passes, few⟩ := grows
  have redRoot := passes.redRoot balanced
  obtain ⟨-, even'⟩ := passes.balance (startReady balanced.root) balanced.noRedRed (by simp [Path.Follows]) even
  by_cases full : s.Full
  · exact ⟨h + 1, Shape.blackHeightBlacken (redRoot.mpr full) even', fun _ => rfl, fun bare => absurd full bare⟩
  · have black : s'.color = .black := Color.eqBlackIff.mpr fun red => full (redRoot.mp red)
    rw [Shape.blackenOfBlack black]
    exact ⟨h, even', fun top => absurd top full, fun _ => rfl⟩

end Insertion

namespace Erasure
variable {K V : Type} {order : K → Ordering} {z z' : Place K V} {log : List Event} {rounds below h h' : Nat}
  {s s' : Shape K V} {f r : Frame K V} {rest : Path K V} {id : NodeId} {entry : K × V}

theorem Step.root (step : Step order z log z') (deep : z.path.tail ≠ []) :
    z'.path.tail ≠ [] ∧ z'.path.getLast? = z.path.getLast? := by
  obtain ⟨path, focus⟩ := z
  obtain ⟨p, above, rfl⟩ := List.exists_cons_of_ne_nil fun nil => deep (congrArg List.tail nil)
  obtain ⟨g, above, rfl⟩ := List.exists_cons_of_ne_nil deep
  cases step <;> simp

theorem Passes.root {bottom : Path K V} (passes : Passes order rounds z log bottom) (deep : z.path.tail ≠ []) :
    bottom.tail ≠ [] ∧ bottom.getLast? = z.path.getLast? := by
  induction passes with
  | ends => exact ⟨deep, rfl⟩
  | step first tail ih =>
      obtain ⟨deep', same⟩ := first.root deep
      rw [← same]
      exact ih deep'

theorem Passes.height (passes : Passes order rounds z log (f :: rest)) (deep : z.path.tail ≠ [])
    (root : z.path.getLast? = some r) (beside : r.far.BlackHeight below)
    (even : (rest.fill f.far).blacken.BlackHeight h) : h = below + 1 := by
  obtain ⟨inner, last⟩ := passes.root deep
  have inner : rest ≠ [] := inner
  obtain ⟨g, rest, rfl⟩ := List.exists_cons_of_ne_nil inner
  have last : List.getLast? (g :: rest) = some r := last.trans root
  obtain ⟨s, whole⟩ := Path.fillRoot last f.far
  rw [whole, Frame.fill, Shape.blackenFork] at even
  obtain ⟨below', rfl, -, beside'⟩ := Shape.blackHeightFork.mp even
  rw [Shape.blackHeightUnique beside beside', Color.weightBlack]

theorem Step.second {near : Shape K V} (step : Step order ⟨[r], near⟩ log z') (lit : near.color = .red ∨ r.far.color = .black)
    (evenNear : near.BlackHeight below) (evenFar : r.far.BlackHeight below) :
    z'.path.tail ≠ [] ∧ ∃ r' below', z'.path.getLast? = some r' ∧ r'.far.BlackHeight below' ∧
      (near.BlackTo 2 ∧ r.far.BlackTo 2 → below = below' + 1) ∧
      (¬ (near.BlackTo 2 ∧ r.far.BlackTo 2) → below' = below) := by
  cases step with
  | @walk _ side c color near far turn red =>
      have notDark : ¬ (Shape.fork side c color near far).BlackTo 2 := by
        intro dark
        obtain ⟨black, darkNear, -⟩ := Shape.blackToFork.mp dark
        rcases red with red | red
        · simp [red] at black
        · have black := darkNear.black
          simp [red] at black
      exact ⟨by simp, r, below, rfl, evenFar, fun dark => absurd dark.1 notDark, fun _ => rfl⟩
  | @lift _ side c d near inner outer turn black =>
      have notDark : ¬ (Shape.fork side c .black near (.fork side d .red inner outer)).BlackTo 2 := by
        intro dark
        have black := (Shape.blackToFork.mp dark).2.2.black
        simp at black
      exact ⟨by simp, r, below, rfl, evenFar, fun dark => absurd dark.1 notDark, fun _ => rfl⟩
  | @alone _ side c near far turn black beside =>
      have beside : r.far = .leaf := beside
      rw [beside, Shape.blackHeightLeaf] at evenFar
      obtain ⟨_, sum, -⟩ := Shape.blackHeightFork.mp evenNear
      simp [evenFar] at sum
  | @recolor _ above side c d color near far inner outer turn black beside nephews =>
      simp only [beside, Shape.colorFork, reduceCtorEq, false_or] at lit evenFar ⊢
      subst lit
      obtain ⟨below', rfl, evenInner, evenOuter⟩ := Shape.blackHeightFork.mp evenFar
      have darkNear : (Shape.fork side c .black near far).BlackTo 2 :=
        Shape.blackToFork.mpr ⟨rfl, Shape.blackToOne.mpr black.1, Shape.blackToOne.mpr black.2⟩
      have darkFar : (Shape.fork r.side d .black inner outer).BlackTo 2 :=
        Shape.blackToFork.mpr ⟨rfl, Shape.blackToOne.mpr nephews.1, Shape.blackToOne.mpr nephews.2⟩
      exact ⟨by simp, _, below', rfl, Shape.evenFork evenInner evenOuter, fun _ => rfl,
        fun red => absurd ⟨darkNear, darkFar⟩ red⟩
  | @single _ above side c d color near far inner outer turn black beside nephews =>
      simp only [beside, Shape.colorFork, reduceCtorEq, false_or] at lit evenFar ⊢
      subst lit
      obtain ⟨below', rfl, evenInner, evenOuter⟩ := Shape.blackHeightFork.mp evenFar
      have notDark : ¬ (Shape.fork r.side d .black inner outer).BlackTo 2 := by
        intro dark
        have black := (Shape.blackToFork.mp dark).2.2.black
        simp [nephews.2] at black
      exact ⟨by simp, _, below' + 1, rfl, Shape.blackHeightBlacken nephews.2 evenOuter, fun dark => absurd dark.2 notDark,
        fun _ => rfl⟩
  | @double _ above side c d x color near far a b outer turn black beside =>
      simp only [beside, Shape.colorFork, reduceCtorEq, false_or] at lit evenFar ⊢
      subst lit
      obtain ⟨below', rfl, evenInner, evenOuter⟩ := Shape.blackHeightFork.mp evenFar
      obtain ⟨_, rfl, evenA, evenB⟩ := Shape.blackHeightFork.mp evenInner
      have notDark : ¬ (Shape.fork r.side d .black (.fork r.side x .red a b) outer).BlackTo 2 := by
        intro dark
        have black := (Shape.blackToFork.mp dark).2.1.black
        simp at black
      exact ⟨by simp, _, _, rfl, Shape.evenFork evenB evenOuter, fun dark => absurd dark.2 notDark, fun _ => rfl⟩

theorem Passes.belowRoot {near : Shape K V} (passes : Passes order rounds ⟨[r], near⟩ log (f :: rest))
    (lit : near.color = .red ∨ r.far.color = .black) (evenNear : near.BlackHeight below) (evenFar : r.far.BlackHeight below)
    (even' : (rest.fill f.far).blacken.BlackHeight h') :
    (near.BlackTo 2 ∧ r.far.BlackTo 2 → below = h') ∧ (¬ (near.BlackTo 2 ∧ r.far.BlackTo 2) → h' = below + 1) := by
  cases passes with
  | ends =>
      obtain rfl : below = 0 := evenNear
      have absent : f.far = .leaf := Shape.blackHeightZero evenFar (lit.resolve_left nofun)
      rw [Path.fillNil, absent] at even'
      obtain rfl : h' = 0 := even'
      exact ⟨fun _ => rfl, fun red => absurd ⟨trivial, by rw [absent]; trivial⟩ red⟩
  | step second tail =>
      obtain ⟨deep, r', below', root, beside, lowers, keeps⟩ := second.second lit evenNear evenFar
      have whole : h' = below' + 1 := tail.height deep root beside even'
      exact ⟨fun dark => (lowers dark).trans whole.symm, fun red => by rw [whole, keeps red]⟩

theorem Passes.lowers (passes : Passes order rounds ⟨[], s⟩ log (f :: rest)) (balanced : s.Balanced)
    (even : s.BlackHeight h) (even' : (rest.fill f.far).blacken.BlackHeight h') :
    (s.BlackTo 3 → h = h' + 1) ∧ (¬ s.BlackTo 3 → h' = h) := by
  cases passes with
  | step first tail =>
      have root := balanced.root
      cases first with
      | @walk _ side c color near far turn red =>
          simp only [Shape.colorFork] at root
          subst root
          obtain ⟨below, rfl, evenNear, evenFar⟩ := Shape.blackHeightFork.mp even
          obtain ⟨lowers, keeps⟩ := tail.belowRoot (.inl (red.resolve_left nofun)) evenNear evenFar even'
          simp only [Shape.blackToFork, true_and]
          exact ⟨fun dark => by rw [lowers dark]; rfl, fun red => keeps red⟩
      | @lift _ side c d near inner outer turn black =>
          obtain ⟨below, rfl, evenNear, evenFar⟩ := Shape.blackHeightFork.mp even
          obtain ⟨below, rfl, evenInner, evenOuter⟩ := Shape.blackHeightFork.mp evenFar
          have whole : h' = below + 1 := tail.height (by simp) rfl evenOuter even'
          refine ⟨fun dark => ?_, fun _ => whole⟩
          have black := (Shape.blackToFork.mp dark).2.2.black
          simp at black
      | @alone _ side c near far turn black beside =>
          obtain ⟨below, rfl, evenNear, evenFar⟩ := Shape.blackHeightFork.mp even
          obtain ⟨lowers, keeps⟩ := tail.belowRoot (.inr black.2) evenNear evenFar even'
          simp only [Shape.blackToFork, true_and]
          exact ⟨fun dark => by rw [lowers dark]; rfl, fun red => keeps red⟩

theorem Erases.blackHeight (erases : Erases order s log id entry s') (balanced : s.Balanced) (even : s.BlackHeight h) :
    ∃ h', s'.BlackHeight h' ∧ (s.BlackTo 3 → h = h' + 1) ∧ (¬ s.BlackTo 3 → h' = h) := by
  obtain ⟨h', even'⟩ := (erases.balanced balanced).even
  obtain ⟨passes, member, equal⟩ := erases
  rw [Shape.blackenGive, Shape.blackHeightGive] at even'
  refine ⟨h', ?_, passes.lowers balanced even even'⟩
  rw [Shape.blackenGive, Shape.blackHeightGive]
  exact even'

end Erasure

namespace Tree
variable {σ K V : Type} [Storage σ K V] {t : Tree σ} {s : Shape K V} {h : Nat}

/-- An insertion makes every way down one black node longer where the tree was empty or both children of its root were
red, and an erasure makes it one shorter where no node of the top three levels was red. Otherwise neither does. -/
theorem everyBlackHeightChange (policy : Policy K) (linked : Linked t s) (balanced : s.Balanced) (even : s.BlackHeight h) :
    (∀ id t', id ∉ s.ids → (insert policy t id).result = .ok (.ok (), t') →
      ∃ s' h', Linked t' s' ∧ s'.BlackHeight h' ∧ (s.Full → h' = h + 1) ∧ (¬ s.Full → h' = h)) ∧
    ∀ key leaf t', (erase policy t key).result = .ok (.ok leaf, t') →
      ∃ s' h', Linked t' s' ∧ s'.BlackHeight h' ∧ (s.BlackTo 3 → h = h' + 1) ∧ (¬ s.BlackTo 3 → h' = h) := by
  constructor
  · intro id t' out accepted
    obtain ⟨n, read, fresh⟩ := linked.accepted accepted
    obtain ⟨log, s', grows⟩ := Insertion.grows (policy n.key) ⟨id, n.key, n.value⟩ balanced.root balanced.noRedRed
    obtain ⟨h', even', rises, keeps⟩ := grows.blackHeight balanced even
    obtain ⟨t₁, run, linked', -⟩ := insertGrows linked read out fresh grows
    rw [run] at accepted
    cases accepted
    exact ⟨s', h', linked', even', rises, keeps⟩
  · intro key leaf t' erased
    have held : s.find? (policy key) ≠ none := by
      intro missing
      rw [eraseMissing linked missing] at erased
      cases erased
    obtain ⟨log, id, entry, t₁, s', erases, run, linked', -⟩ := erases linked held
    obtain ⟨h', even', lowers, keeps⟩ := erases.blackHeight balanced even
    rw [run] at erased
    cases erased
    exact ⟨s', h', linked', even', lowers, keeps⟩

def fullShape : Shape Nat Unit :=
  .node ⟨0⟩ .black (.node ⟨1⟩ .red .leaf 10 () .leaf) 20 () (.node ⟨2⟩ .red .leaf 30 () .leaf)

def darkShape : Shape Nat Unit :=
  .node ⟨0⟩ .black (.node ⟨1⟩ .black .leaf 10 () .leaf) 20 () (.node ⟨2⟩ .black .leaf 30 () .leaf)

theorem threeGrowAndShrink :
    (∃ s' : Shape Nat Unit, Linked (⟨some ⟨0⟩, #[⟨.black, some ⟨1⟩, some ⟨2⟩, 20, ()⟩, ⟨.black, none, none, 10, ()⟩,
      ⟨.black, none, some ⟨3⟩, 30, ()⟩, ⟨.red, none, none, 40, ()⟩]⟩ : Tree (Array (Node Nat Unit))) s' ∧ s'.BlackHeight 2) ∧
    ∃ s' : Shape Nat Unit, Linked (⟨some ⟨0⟩, #[⟨.black, some ⟨1⟩, none, 30, ()⟩, ⟨.red, none, none, 10, ()⟩,
      ⟨.red, none, none, 20, ()⟩]⟩ : Tree (Array (Node Nat Unit))) s' ∧ s'.BlackHeight 1 := by
  have full : Linked (⟨some ⟨0⟩, #[⟨.black, some ⟨1⟩, some ⟨2⟩, 20, ()⟩, ⟨.red, none, none, 10, ()⟩,
      ⟨.red, none, none, 30, ()⟩, ⟨.black, none, some ⟨0⟩, 40, ()⟩]⟩ : Tree (Array (Node Nat Unit))) fullShape :=
    ⟨Spells.nodeIff.mpr ⟨rfl, rfl, Spells.nodeIff.mpr ⟨rfl, rfl, .leaf, .leaf⟩, Spells.nodeIff.mpr ⟨rfl, rfl, .leaf, .leaf⟩⟩,
      by decide⟩
  have dark : Linked (⟨some ⟨0⟩, #[⟨.black, some ⟨1⟩, some ⟨2⟩, 20, ()⟩, ⟨.black, none, none, 10, ()⟩,
      ⟨.black, none, none, 30, ()⟩]⟩ : Tree (Array (Node Nat Unit))) darkShape :=
    ⟨Spells.nodeIff.mpr ⟨rfl, rfl, Spells.nodeIff.mpr ⟨rfl, rfl, .leaf, .leaf⟩, Spells.nodeIff.mpr ⟨rfl, rfl, .leaf, .leaf⟩⟩,
      by decide⟩
  have evenFull : fullShape.BlackHeight 1 := by simp [fullShape, Shape.BlackHeight]
  have evenDark : darkShape.BlackHeight 2 := by simp [darkShape, Shape.BlackHeight]
  constructor
  · obtain ⟨s', h', linked, even, rises, -⟩ := (everyBlackHeightChange .natural full
      ⟨rfl, by simp [fullShape, Shape.NoRedRed, Shape.color], 1, evenFull⟩ evenFull).1 ⟨3⟩ _ (by decide) rfl
    have higher : h' = 2 := rises ⟨rfl, rfl⟩
    exact ⟨s', linked, higher ▸ even⟩
  · obtain ⟨s', h', linked, even, lowers, -⟩ := (everyBlackHeightChange .natural dark
      ⟨rfl, by simp [darkShape, Shape.NoRedRed, Shape.color], 2, evenDark⟩ evenDark).2 20 _ _ rfl
    have lower : 1 = h' := Nat.succ.inj (lowers (by simp [darkShape, Shape.BlackTo]))
    exact ⟨s', linked, lower ▸ even⟩

end Tree

end RedBlack
