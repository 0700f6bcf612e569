import RedBlack.Storage

/-! The tree that links spell out, as a value. Links may share nodes or run in circles, and then they
spell no shape, or one that lists a node twice: `ids.Nodup` says that each node is linked once. -/
namespace RedBlack

inductive Shape (K V : Type) where
  | leaf
  | node (id : NodeId) (color : Color) (left : Shape K V) (key : K) (value : V) (right : Shape K V)
  deriving DecidableEq, Repr

namespace Shape
variable {K V : Type}

def ids : Shape K V → List NodeId
  | leaf => []
  | node id _ left _ _ right => left.ids ++ id :: right.ids

def entries : Shape K V → List (K × V)
  | leaf => []
  | node _ _ left key value right => left.entries ++ (key, value) :: right.entries

def size : Shape K V → Nat
  | leaf => 0
  | node _ _ left _ _ right => left.size + right.size + 1

def height : Shape K V → Nat
  | leaf => 0
  | node _ _ left _ _ right => max left.height right.height + 1

def color : Shape K V → Color
  | leaf => .black
  | node _ color .. => color

def NoRedRed : Shape K V → Prop
  | leaf => True
  | node _ color left _ _ right =>
      (color = .red → left.color = .black ∧ right.color = .black) ∧ left.NoRedRed ∧ right.NoRedRed

def BlackHeight : Shape K V → Nat → Prop
  | leaf, height => height = 0
  | node _ .red left _ _ right, height => left.BlackHeight height ∧ right.BlackHeight height
  | node _ .black left _ _ right, height =>
      ∃ below, height = below + 1 ∧ left.BlackHeight below ∧ right.BlackHeight below

def reversed : Shape K V → Shape K V
  | leaf => leaf
  | node id color left key value right => node id color right.reversed key value left.reversed

@[simp] theorem lengthIds (s : Shape K V) : s.ids.length = s.size := by
  induction s with
  | leaf => rfl
  | node id color left key value right ihLeft ihRight => simp [ids, size, ihLeft, ihRight]; omega

@[simp] theorem lengthEntries (s : Shape K V) : s.entries.length = s.size := by
  induction s with
  | leaf => rfl
  | node id color left key value right ihLeft ihRight => simp [entries, size, ihLeft, ihRight]; omega

@[simp] theorem idsReversed (s : Shape K V) : s.reversed.ids = s.ids.reverse := by
  induction s with
  | leaf => rfl
  | node id color left key value right ihLeft ihRight => simp [reversed, ids, ihLeft, ihRight]

end Shape

/-- The links below a link, followed down to absent ones, spell a shape. -/
inductive Spells {σ K V : Type} [Storage σ K V] (store : σ) : Option NodeId → Shape K V → Prop where
  | leaf : Spells store none .leaf
  | node {id : NodeId} {n : Node K V} {left right : Shape K V}
      (read : Storage.get? store id = some n)
      (spellsLeft : Spells store n.left left) (spellsRight : Spells store n.right right) :
      Spells store (some id) (.node id n.color left n.key n.value right)

namespace Spells
variable {σ K V : Type} [Storage σ K V]

theorem unique {store : σ} {link : Option NodeId} {s s' : Shape K V}
    (h : Spells store link s) (h' : Spells store link s') : s = s' := by
  induction h generalizing s' with
  | leaf => cases h'; rfl
  | node read _ _ ihLeft ihRight =>
      cases h' with
      | node read' left' right' =>
          cases Option.some.inj (read.symm.trans read')
          rw [ihLeft left', ihRight right']

theorem live {store : σ} {link : Option NodeId} {s : Shape K V} (h : Spells store link s) :
    ∀ id ∈ s.ids, (Storage.get? store id).isSome := by
  induction h with
  | leaf => intro id member; cases member
  | node read _ _ ihLeft ihRight =>
      intro id member
      simp only [Shape.ids, List.mem_append, List.mem_cons] at member
      rcases member with member | rfl | member
      · exact ihLeft id member
      · simp [read]
      · exact ihRight id member

theorem transport {store store' : σ} {link : Option NodeId} {s : Shape K V} (h : Spells store link s)
    (same : ∀ id ∈ s.ids, Storage.get? store' id = Storage.get? store id) : Spells store' link s := by
  induction h with
  | leaf => exact .leaf
  | node read _ _ ihLeft ihRight =>
      simp only [Shape.ids, List.mem_append, List.mem_cons] at same
      exact .node ((same _ (.inr (.inl rfl))).trans read)
        (ihLeft fun id member => same id (.inl member))
        (ihRight fun id member => same id (.inr (.inr member)))

end Spells

end RedBlack
