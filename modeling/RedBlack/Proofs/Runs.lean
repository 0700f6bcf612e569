import RedBlack.Proofs.Insertion.Outcome
import RedBlack.Proofs.Erasure.Removal
import RedBlack.Proofs.Values

/-! Runs of a tree over storage that a caller shares with it. Between the operations the caller may write to
nodes that are not linked, make new ones and change values. -/
namespace RedBlack.Tree
variable {σ K V : Type} [Storage σ K V] {policy : Policy K} {t : Tree σ}

inductive Act (σ K : Type) where
  | insert (id : NodeId)
  | erase (key : K)
  | clear
  | turn (store : σ)

def Allowed (t : Tree σ) : Act σ K → Prop
  | .insert id => (Storage.get? t.store id).isSome ∧ ¬ Links t id
  | .erase _ => True
  | .clear => True
  | .turn store => ∀ id n, Links t id → Storage.get? t.store id = some n →
      ∃ n', Storage.get? store id = some n' ∧ n.Alike n'

def perform (policy : Policy K) (t : Tree σ) : Act σ K → Traced (Tree σ)
  | .insert id => return (← insert policy t id).2
  | .erase key => return (← erase policy t key).2
  | .clear => return t.clear
  | .turn store => return { t with store }

inductive Reached (policy : Policy K) : Tree σ → Prop where
  | start (store : σ) : Reached policy (.rootless store)
  | step {t t' : Tree σ} (act : Act σ K) (before : Reached policy t) (allowed : Allowed t act)
      (result : (perform policy t act).result = .ok t') : Reached policy t'

structure Sound (policy : Policy K) (t : Tree σ) (s : Shape K V) : Prop where
  linked : Linked t s
  balanced : s.Balanced
  sorted : Std.TransCmp policy → s.Sorted policy

theorem soundRootless (policy : Policy K) (store : σ) : Sound policy (.rootless store) .leaf where
  linked := ⟨.leaf, .nil⟩
  balanced := Shape.balancedLeaf
  sorted _ := .nil

theorem Sound.insert {s : Shape K V} (sound : Sound policy t s) {id : NodeId} {n : Node K V}
    (read : Storage.get? t.store id = some n) (out : id ∉ s.ids) :
    ∃ t' s', (perform policy t (.insert id)).result = .ok t' ∧ Sound policy t' s' := by
  cases found : s.find? (policy n.key) with
  | none =>
      obtain ⟨log, s', t', run, linked, balanced, cells, -⟩ := insertFresh sound.linked sound.balanced read out found
      refine ⟨t', s', by simp [perform, run], linked, balanced, fun _ => ?_⟩
      exact (sound.sorted ‹_›).insert ⟨id, n.key, n.value⟩ found cells
  | some holder =>
      exact ⟨t, s, by simp [perform, insertHeld sound.linked read found], sound⟩

theorem Sound.erase {s : Shape K V} (sound : Sound policy t s) (key : K) :
    ∃ t' s', (perform policy t (.erase key)).result = .ok t' ∧ Sound policy t' s' := by
  by_cases held : s.find? (policy key) = none
  · exact ⟨t, s, by simp [perform, eraseMissing sound.linked held], sound⟩
  · obtain ⟨log, id, entry, t', s', run, linked, balanced, -, -, -, singles⟩ := eraseHeld sound.linked sound.balanced held
    refine ⟨t', s', by simp [perform, run], linked, balanced, fun _ => ?_⟩
    have sorted := sound.sorted ‹_›
    exact sorted.erase (singles (sorted.aligned key))

theorem Sound.turn {s : Shape K V} (sound : Sound policy t s) {store : σ} (allowed : Allowed t (.turn store)) :
    ∃ s', Sound policy ({ t with store } : Tree σ) s' := by
  obtain ⟨s', spells, same⟩ := sound.linked.spells.alike fun id member n read =>
    allowed id n (sound.linked.linksIff.mpr member) read
  refine ⟨s', ⟨spells, ?_⟩, sound.balanced.ofBare same, fun _ => (sound.sorted ‹_›).ofBare same⟩
  rw [← Shape.idsBare, same, Shape.idsBare]
  exact sound.linked.once

theorem Sound.step {s : Shape K V} (sound : Sound policy t s) {act : Act σ K} (allowed : Allowed t act) :
    ∃ t' s', (perform policy t act).result = .ok t' ∧ Sound policy t' s' := by
  cases act with
  | insert id =>
      obtain ⟨live, out⟩ := allowed
      obtain ⟨n, read⟩ := Option.isSome_iff_exists.mp live
      exact sound.insert read fun member => out (sound.linked.linksIff.mpr member)
  | erase key => exact sound.erase key
  | clear => exact ⟨t.clear, .leaf, rfl, soundRootless policy t.store⟩
  | turn store =>
      obtain ⟨s', sound'⟩ := sound.turn allowed
      exact ⟨{ t with store }, s', rfl, sound'⟩

theorem Reached.sound (reached : Reached policy t) : ∃ s : Shape K V, Sound policy t s := by
  induction reached with
  | start store => exact ⟨.leaf, soundRootless policy store⟩
  | step act before allowed result ih =>
      obtain ⟨s, sound⟩ := ih
      obtain ⟨t', s', run, sound'⟩ := sound.step allowed
      obtain rfl := Except.ok.inj (run.symm.trans result)
      exact ⟨s', sound'⟩

theorem Reached.insert {t' : Tree σ} {s : Shape K V} {id : NodeId} (reached : Reached policy t) (linked : Linked t s)
    (live : (Storage.get? t.store id).isSome) (out : id ∉ s.ids)
    (result : (perform policy t (.insert id)).result = .ok t') : Reached policy t' :=
  .step (.insert id) reached ⟨live, fun links => out (linked.linksIff.mp links)⟩ result

theorem everyRunBalanced (reached : Reached policy t) :
    (∃ s : Shape K V, Linked t s ∧ s.Balanced ∧ (Std.TransCmp policy → s.Sorted policy)) ∧
      ∀ act : Act σ K, Allowed t act → ∃ t', (perform policy t act).result = .ok t' := by
  obtain ⟨s, sound⟩ := reached.sound
  refine ⟨⟨s, sound.linked, sound.balanced, sound.sorted⟩, fun act allowed => ?_⟩
  obtain ⟨t', -, run, -⟩ := sound.step allowed
  exact ⟨t', run⟩

def oneLinked : Tree (Array (Node Nat Nat)) :=
  ⟨some ⟨0⟩, #[⟨.black, none, none, 2, 20⟩, ⟨.black, none, some ⟨7⟩, 1, 10⟩]⟩

def writtenMeanwhile : Array (Node Nat Nat) :=
  #[⟨.black, none, none, 2, 21⟩, ⟨.black, none, some ⟨7⟩, 1, 10⟩, ⟨.black, none, none, 3, 30⟩]

def twoLinked : Tree (Array (Node Nat Nat)) :=
  ⟨some ⟨0⟩, #[⟨.black, some ⟨1⟩, none, 2, 21⟩, ⟨.red, none, none, 1, 10⟩, ⟨.black, none, none, 3, 30⟩]⟩

theorem turnedRunBalanced :
    (∃ s, Linked twoLinked s ∧ s.Balanced ∧ s.Sorted .natural) ∧
      ∀ act, Allowed twoLinked act → ∃ t', (perform .natural twoLinked act).result = .ok t' := by
  have started : Reached (.natural : Policy Nat)
      (.rootless #[⟨.black, some ⟨1⟩, some ⟨0⟩, 2, 20⟩, ⟨.black, none, some ⟨7⟩, 1, 10⟩] : Tree (Array (Node Nat Nat))) :=
    .start _
  have first : Reached .natural oneLinked :=
    started.insert (soundRootless .natural _).linked rfl (by decide : (⟨0⟩ : NodeId) ∉ Shape.ids .leaf) rfl
  have linked : Linked oneLinked (.node ⟨0⟩ .black .leaf 2 20 .leaf) :=
    ⟨Spells.nodeIff.mpr ⟨rfl, rfl, .leaf, .leaf⟩, by decide⟩
  have allowed : Allowed oneLinked (.turn writtenMeanwhile) := by
    intro id n links read
    obtain rfl : id = ⟨0⟩ := by simpa [Shape.ids] using linked.linksIff.mp links
    cases Option.some.inj read
    exact ⟨⟨.black, none, none, 2, 21⟩, rfl, rfl, rfl, rfl, rfl⟩
  have turned := first.step _ allowed rfl
  have linkedTurned : Linked ({ oneLinked with store := writtenMeanwhile } : Tree (Array (Node Nat Nat)))
      (.node ⟨0⟩ .black .leaf 2 21 .leaf) := ⟨Spells.nodeIff.mpr ⟨rfl, rfl, .leaf, .leaf⟩, by decide⟩
  have reached : Reached .natural twoLinked := turned.insert linkedTurned rfl (by decide : (⟨1⟩ : NodeId) ∉ _) rfl
  obtain ⟨⟨s, linked, balanced, sorted⟩, further⟩ := everyRunBalanced reached
  exact ⟨⟨s, linked, balanced, sorted inferInstance⟩, further⟩

end RedBlack.Tree
