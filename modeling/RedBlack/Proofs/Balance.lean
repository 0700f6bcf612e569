import Mathlib.Algebra.Group.Nat.Defs
import RedBlack.Proofs.Path

/-! Red-black balance of shapes and of paths. A path is balanced up to its hole: it says which colors and
which black height the subtree put there may have. -/
namespace RedBlack

def Color.weight : Color → Nat
  | red => 0
  | black => 1

@[simp] theorem Color.weightRed : Color.weight .red = 0 := rfl

@[simp] theorem Color.weightBlack : Color.weight .black = 1 := rfl

theorem Color.eqBlackIff {color : Color} : color = .black ↔ color ≠ .red := by cases color <;> simp

namespace Shape
variable {K V : Type}

theorem redFork {s : Shape K V} (side : Side) (red : s.color = .red) : ∃ c near far, s = fork side c .red near far := by
  obtain rfl | ⟨c, color, near, far, rfl⟩ := s.forkCases side
  · cases red
  · rw [colorFork] at red
    exact ⟨c, near, far, red ▸ rfl⟩

theorem blackHeightFork {side : Side} {c : Cell K V} {color : Color} {near far : Shape K V} {h : Nat} :
    (fork side c color near far).BlackHeight h ↔
      ∃ below, h = below + color.weight ∧ near.BlackHeight below ∧ far.BlackHeight below := by
  cases side <;> cases color <;> simp [fork, BlackHeight, and_comm]

theorem evenFork {side : Side} {c : Cell K V} {color : Color} {near far : Shape K V} {h : Nat} (evenNear : near.BlackHeight h)
    (evenFar : far.BlackHeight h) : (fork side c color near far).BlackHeight (h + color.weight) :=
  blackHeightFork.mpr ⟨h, rfl, evenNear, evenFar⟩

theorem blackHeightNode {id : NodeId} {color : Color} {left right : Shape K V} {key : K} {value : V} {h : Nat} :
    (node id color left key value right).BlackHeight h ↔
      ∃ below, h = below + color.weight ∧ left.BlackHeight below ∧ right.BlackHeight below := by
  cases color <;> simp [BlackHeight]

theorem blackHeightLeaf {h : Nat} : (leaf : Shape K V).BlackHeight h ↔ h = 0 := Iff.rfl

theorem blackHeightZero {s : Shape K V} (even : s.BlackHeight 0) (black : s.color = .black) : s = leaf := by
  obtain rfl | ⟨c, color, near, far, rfl⟩ := s.forkCases .left
  · rfl
  · obtain ⟨below, sum, -⟩ := blackHeightFork.mp even
    rw [colorFork] at black
    simp [black] at sum

theorem noRedRedBlacken {s : Shape K V} (h : s.NoRedRed) : s.blacken.NoRedRed := by
  cases s with
  | leaf => trivial
  | node id color left key value right => exact ⟨by simp, h.2⟩

theorem blackHeightBlacken {s : Shape K V} {h : Nat} (red : s.color = .red) (even : s.BlackHeight h) :
    s.blacken.BlackHeight (h + 1) := by
  obtain rfl | ⟨c, color, near, far, rfl⟩ := s.forkCases .left
  · cases red
  · rw [colorFork] at red
    subst red
    obtain ⟨below, rfl, l, r⟩ := blackHeightFork.mp even
    rw [blackenFork, blackHeightFork]
    exact ⟨_, rfl, l, r⟩

structure Balanced (s : Shape K V) : Prop where
  root : s.color = .black
  noRedRed : s.NoRedRed
  even : ∃ h, s.BlackHeight h

theorem balancedLeaf : (leaf : Shape K V).Balanced := ⟨rfl, trivial, 0, rfl⟩

theorem balancedBlacken {s : Shape K V} (noRedRed : s.NoRedRed) (even : ∃ h, s.BlackHeight h) : s.blacken.Balanced := by
  refine ⟨colorBlacken s, noRedRedBlacken noRedRed, ?_⟩
  obtain ⟨h, even⟩ := even
  cases color : s.color with
  | red => exact ⟨h + 1, blackHeightBlacken color even⟩
  | black => exact ⟨h, (blackenOfBlack color).symm ▸ even⟩

theorem sizeLtPow (s : Shape K V) : s.size + 1 ≤ 2 ^ s.height := by
  induction s with
  | leaf => simp [size, height]
  | node id color left key value right ihLeft ihRight =>
      have widerLeft : 2 ^ left.height ≤ 2 ^ max left.height right.height :=
        Nat.pow_le_pow_right (by decide) (Nat.le_max_left ..)
      have widerRight : 2 ^ right.height ≤ 2 ^ max left.height right.height :=
        Nat.pow_le_pow_right (by decide) (Nat.le_max_right ..)
      simp only [size, height, Nat.pow_succ]
      omega

theorem powLeSize {s : Shape K V} {h : Nat} (even : s.BlackHeight h) : 2 ^ h ≤ s.size + 1 := by
  induction s generalizing h with
  | leaf => cases even; simp [size]
  | node id color left key value right ihLeft ihRight =>
      obtain ⟨below, rfl, l, r⟩ := blackHeightNode.mp even
      have leftBound := ihLeft l
      have rightBound := ihRight r
      have weight : 2 ^ (below + color.weight) ≤ 2 * 2 ^ below := by
        cases color with
        | red =>
            rw [Color.weightRed, Nat.add_zero]
            omega
        | black =>
            rw [Color.weightBlack, Nat.pow_succ]
            omega
      simp only [size]
      omega

theorem heightLe {s : Shape K V} {h : Nat} (noRedRed : s.NoRedRed) (even : s.BlackHeight h) :
    s.height + s.color.weight ≤ 2 * h + 1 := by
  induction s generalizing h with
  | leaf => simp [height, color]
  | node id color left key value right ihLeft ihRight =>
      obtain ⟨below, rfl, l, r⟩ := blackHeightNode.mp even
      obtain ⟨kids, noLeft, noRight⟩ := noRedRed
      have leftBound := ihLeft noLeft l
      have rightBound := ihRight noRight r
      cases color with
      | red =>
          obtain ⟨blackLeft, blackRight⟩ := kids rfl
          simp only [blackLeft, blackRight, Color.weightBlack] at leftBound rightBound
          simp only [height, Shape.color, Color.weightRed]
          omega
      | black =>
          simp only [height, Shape.color, Color.weightBlack]
          omega

theorem Balanced.powHeightLe {s : Shape K V} (balanced : s.Balanced) : 2 ^ s.height ≤ (s.size + 1) ^ 2 := by
  obtain ⟨h, even⟩ := balanced.even
  have tall := heightLe balanced.noRedRed even
  rw [balanced.root, Color.weightBlack] at tall
  calc 2 ^ s.height ≤ 2 ^ (h * 2) := Nat.pow_le_pow_right (by decide) (by omega)
    _ = (2 ^ h) ^ 2 := Nat.pow_mul ..
    _ ≤ (s.size + 1) ^ 2 := Nat.pow_le_pow_left (powLeSize even) 2

theorem Balanced.withinLimit {s : Shape K V} (balanced : s.Balanced) (few : s.size < 2 ^ 32) : s.height ≤ heightLimit := by
  have square : (s.size + 1) ^ 2 ≤ (2 ^ 32) ^ 2 := Nat.pow_le_pow_left few 2
  have power : 2 ^ s.height ≤ 2 ^ heightLimit := Nat.le_trans balanced.powHeightLe square
  exact (Nat.pow_le_pow_iff_right (by decide)).mp power

end Shape

namespace Path
variable {K V : Type}

def NoRedRed : Path K V → Color → Prop
  | [], _ => True
  | f :: above, hole =>
      (f.color = .red → hole = .black ∧ f.far.color = .black) ∧ f.far.NoRedRed ∧ NoRedRed above f.color

def color : Path K V → Color
  | [] => .black
  | f :: _ => f.color

def BlackHeight : Path K V → Nat → Nat → Prop
  | [], hole, whole => hole = whole
  | f :: above, hole, whole => f.far.BlackHeight hole ∧ BlackHeight above (hole + f.color.weight) whole

theorem noRedRedFill (path : Path K V) {s : Shape K V} :
    (fill path s).NoRedRed ↔ NoRedRed path s.color ∧ s.NoRedRed := by
  induction path generalizing s with
  | nil => simp [NoRedRed]
  | cons f above ih =>
      rw [fillCons, ih]
      simp only [Frame.fill, Shape.noRedRedFork, Shape.colorFork, NoRedRed]
      constructor
      · intro h
        obtain ⟨up, kids, near, far⟩ := h
        exact ⟨⟨kids, far, up⟩, near⟩
      · intro h
        obtain ⟨⟨kids, far, up⟩, near⟩ := h
        exact ⟨up, kids, near, far⟩

theorem blackHeightFill (path : Path K V) {s : Shape K V} {whole : Nat} :
    (fill path s).BlackHeight whole ↔ ∃ h, s.BlackHeight h ∧ BlackHeight path h whole := by
  induction path generalizing s with
  | nil => simp [BlackHeight]
  | cons f above ih =>
      rw [fillCons, ih]
      simp only [Frame.fill, Shape.blackHeightFork, BlackHeight]
      constructor
      · intro h
        obtain ⟨-, ⟨below, rfl, near, far⟩, up⟩ := h
        exact ⟨below, near, far, up⟩
      · intro h
        obtain ⟨below, near, far, up⟩ := h
        exact ⟨_, ⟨below, rfl, near, far⟩, up⟩

theorem NoRedRed.ofBlack {path : Path K V} {hole hole' : Color} (h : NoRedRed path hole)
    (black : path.color = .black) : NoRedRed path hole' := by
  cases path with
  | nil => trivial
  | cons f above =>
      have black : f.color = .black := black
      exact ⟨fun red => by simp [black] at red, h.2⟩

theorem NoRedRed.black {path : Path K V} {hole : Color} (h : NoRedRed path hole) : NoRedRed path .black := by
  cases path with
  | nil => trivial
  | cons f above => exact ⟨fun red => ⟨rfl, (h.1 red).2⟩, h.2⟩

end Path

end RedBlack
