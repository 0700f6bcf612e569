import RedBlack.Proofs.Values

/-! What a search finds. In a sorted tree no more than one linked node has a key equal to the wanted one, and the search
names it, whatever the colors are and however deep the node lies. -/
namespace RedBlack

open RedBlack.Tree (Linked)

theorem Shape.findSomeIff {K V : Type} {order : K → Ordering} {s : Shape K V} (aligned : Aligned order s.cells) {id : NodeId} :
    s.find? order = some id ↔ ∃ c ∈ s.cells, c.id = id ∧ order c.key = .eq := by
  constructor
  · exact findSome
  · intro inside
    obtain ⟨c, member, rfl, equal⟩ := inside
    cases found : s.find? order with
    | none => exact absurd equal (findNone aligned found c member)
    | some other =>
        obtain ⟨d, member', rfl, equal'⟩ := findSome found
        rw [aligned.unique member equal member' equal']

namespace Tree
variable {σ K V : Type} [Storage σ K V] {policy : Policy K} {t : Tree σ} {s : Shape K V}

def Matches (policy : Policy K) (t : Tree σ) (key : K) (id : NodeId) : Prop :=
  Links t id ∧ ∃ n, Storage.get? t.store id = some n ∧ policy key n.key = .eq

theorem everySearchExact [Std.TransCmp policy] (spells : Spells t.store t.root s) (sorted : s.Sorted policy) (key : K) :
    (∀ id, t.search policy key = .ok (some id) ↔ Matches policy t key id) ∧
      (∀ id other, Matches policy t key id → Matches policy t key other → id = other) ∧
      (t.search policy key = .ok none ↔ ∀ id, ¬ Matches policy t key id) := by
  have linked : Linked t s := ⟨spells, onceOfSorted (fun a => by simp [Std.ReflCmp.compare_self]) spells sorted⟩
  have found : ∀ id, t.search policy key = .ok (some id) ↔ Matches policy t key id := by
    intro id
    rw [linked.search, Except.ok.injEq, Shape.findSomeIff (sorted.aligned key), linked.spells.equalIff, Matches, linked.linksIff]
  refine ⟨found, fun id other first second => ?_, ?_⟩
  · have same := ((found id).mpr first).symm.trans ((found other).mpr second)
    exact Option.some.inj (Except.ok.inj same)
  · simp only [← found, linked.search, Except.ok.injEq]
    exact Option.eq_none_iff_forall_ne_some

def rightRow : Tree (Array (Node Nat Nat)) :=
  ⟨some ⟨1⟩, #[⟨.red, none, none, 9, 90⟩, ⟨.red, none, some ⟨2⟩, 2, 20⟩, ⟨.red, none, some ⟨0⟩, 5, 50⟩]⟩

theorem halvedSearchExact :
    Matches (.byMeasure (· / 2)) rightRow 4 ⟨2⟩ ∧ (∀ other, Matches (.byMeasure (· / 2)) rightRow 4 other → ⟨2⟩ = other) ∧
      ∀ id, ¬ Matches (.byMeasure (· / 2)) rightRow 7 id := by
  have spells : Spells rightRow.store rightRow.root
      (.node ⟨1⟩ .red .leaf 2 20 (.node ⟨2⟩ .red .leaf 5 50 (.node ⟨0⟩ .red .leaf 9 90 .leaf))) :=
    Spells.nodeIff.mpr ⟨rfl, rfl, .leaf, Spells.nodeIff.mpr ⟨rfl, rfl, .leaf, Spells.nodeIff.mpr ⟨rfl, rfl, .leaf, .leaf⟩⟩⟩
  have sorted : Shape.Sorted (.byMeasure (· / 2)) (.node ⟨1⟩ .red .leaf 2 20 (.node ⟨2⟩ .red .leaf 5 50
      (.node ⟨0⟩ .red .leaf 9 90 .leaf))) := by decide
  obtain ⟨found, unique, -⟩ := everySearchExact spells sorted 4
  obtain ⟨-, -, missing⟩ := everySearchExact spells sorted 7
  have present := (found ⟨2⟩).mp rfl
  exact ⟨present, fun other => unique ⟨2⟩ other present, missing.mp rfl⟩

end Tree

end RedBlack
