import RedBlack.Tree.Validation
import RedBlack.Proofs.Values

/-! Validation reads live nodes only: it ends with a verdict and not with a fault on every storage where the
links lead from live nodes to live nodes. It finds a tree too deep only where a way down is that long. -/
namespace RedBlack.Tree

section
variable {α β : Type} {holds : α → Prop} {holds' : β → Prop} {raises raises' : Violation → Prop}

def Returns (x : ExceptT Violation (Except Fault) α) (holds : α → Prop) (raises : Violation → Prop) : Prop :=
  ∃ verdict, x.run = .ok verdict ∧ (∀ a, verdict = .ok a → holds a) ∧ ∀ v, verdict = .error v → raises v

theorem returnsPure {a : α} (h : holds a) : Returns (pure a) holds raises :=
  ⟨.ok a, rfl, fun _ same => Except.ok.inj same ▸ h, by simp⟩

theorem returnsThrow {violation : Violation} (h : raises violation) :
    Returns (throw violation : ExceptT Violation (Except Fault) α) holds raises :=
  ⟨.error violation, rfl, by simp, fun _ same => Except.error.inj same ▸ h⟩

theorem returnsLift {result : Except Fault α} {a : α} (ok : result = .ok a) :
    Returns (liftM result : ExceptT Violation (Except Fault) α) (a = ·) raises := by
  subst ok
  exact ⟨.ok a, rfl, fun _ same => Except.ok.inj same, by simp⟩

theorem returnsBind {x : ExceptT Violation (Except Fault) α} {f : α → ExceptT Violation (Except Fault) β}
    (first : Returns x holds raises) (rest : ∀ a, holds a → Returns (f a) holds' raises) : Returns (x >>= f) holds' raises := by
  obtain ⟨verdict, run, found, raised⟩ := first
  cases verdict with
  | ok a =>
      obtain ⟨verdict', run', found', raised'⟩ := rest a (found a rfl)
      refine ⟨verdict', ?_, found', raised'⟩
      rw [ExceptT.run_bind, run]
      exact run'
  | error violation =>
      refine ⟨.error violation, ?_, by simp, ?_⟩
      · rw [ExceptT.run_bind, run]
        rfl
      · intro v same
        cases same
        exact raised violation rfl

theorem Returns.raising {x : ExceptT Violation (Except Fault) α} (returns : Returns x holds raises)
    (more : ∀ v, raises v → raises' v) : Returns x holds raises' := by
  obtain ⟨verdict, run, found, raised⟩ := returns
  exact ⟨verdict, run, found, fun v same => more v (raised v same)⟩

theorem returnsCheck {p : Prop} {decision : Decidable p} {violation : Violation}
    {rest : PUnit → ExceptT Violation (Except Fault) β} (raised : p → raises violation)
    (passed : ¬ p → Returns (rest ()) holds' raises) :
    Returns (if p then throw violation >>= rest else rest ()) holds' raises := by
  split
  · rename_i failed
    have thrown : Returns (throw violation : ExceptT Violation (Except Fault) PUnit) (fun _ => False) raises :=
      returnsThrow (raised failed)
    exact returnsBind thrown fun _ never => never.elim
  · rename_i fine
    exact passed fine

theorem returnsLastCheck {p : Prop} {decision : Decidable p} {violation : Violation} (raised : p → raises violation) :
    Returns (if p then throw violation else pure PUnit.unit) (fun _ => True) raises := by
  split
  · rename_i failed
    exact returnsThrow (raised failed)
  · exact returnsPure trivial

end

variable {σ K V : Type} [Storage σ K V] {store : σ} {policy : Policy K} {inside : NodeId → Prop}

def Closed (store : σ) (inside : NodeId → Prop) : Prop :=
  ∀ id, inside id → ∃ n, Storage.get? store id = some n ∧ ∀ side next, n.child side = some next → inside next

theorem Closed.isRed (closed : Closed store inside) {link : Option NodeId} (led : ∀ id, link = some id → inside id) :
    ∃ answer, Storage.isRed store link = .ok answer ∧
      (answer = true → ∃ id n, link = some id ∧ Storage.get? store id = some n ∧ n.color = .red) := by
  cases link with
  | none => exact ⟨false, rfl, nofun⟩
  | some id =>
      obtain ⟨n, read, -⟩ := closed id (led id rfl)
      refine ⟨n.isRed, by simp [Storage.isRed, Storage.nodeOk read, Except.map], ?_⟩
      exact fun red => ⟨id, n, rfl, read, of_decide_eq_true red⟩

inductive Way (store : σ) : Option NodeId → List NodeId → Option NodeId → Prop where
  | here (link : Option NodeId) : Way store link [] link
  | down {id : NodeId} {n : Node K V} {passed : List NodeId} {last : Option NodeId} (side : Side)
      (read : Storage.get? store id = some n) (below : Way store (n.child side) passed last) :
      Way store (some id) (id :: passed) last

theorem Way.lengthLeHeight {link last : Option NodeId} {passed : List NodeId} {s : Shape K V} (way : Way store link passed last)
    (spells : Spells store link s) : passed.length ≤ s.height := by
  induction way generalizing s with
  | here link => exact Nat.zero_le _
  | @down id n passed last side read below ih =>
      cases spells with
      | @node _ n' left right read' spellsLeft spellsRight =>
          obtain rfl := Option.some.inj (read.symm.trans read')
          rw [List.length_cons, Shape.height]
          cases side with
          | left =>
              have shorter := ih spellsLeft
              omega
          | right =>
              have shorter := ih spellsRight
              omega

def Deep (store : σ) (levels depth : Nat) (link : Option NodeId) : Violation → Prop
  | .tooDeep reached limit => reached = depth + levels ∧ limit = heightLimit ∧
      ∃ passed last, Way store link passed last ∧ passed.length = levels + 1
  | _ => True

theorem Deep.up {id : NodeId} {n : Node K V} {side : Side} {levels depth : Nat} {v : Violation}
    (read : Storage.get? store id = some n) (deep : Deep store levels (depth + 1) (n.child side) v) :
    Deep store (levels + 1) depth (some id) v := by
  cases v with
  | tooDeep reached limit =>
      obtain ⟨same, limited, passed, last, way, long⟩ := deep
      exact ⟨by omega, limited, id :: passed, last, .down side read way, by rw [List.length_cons, long]⟩
  | _ => trivial

def RedKid (store : σ) (n : Node K V) (kid : NodeId) : Prop :=
  n.color = .red ∧ (∃ side, n.child side = some kid) ∧ ∃ m, Storage.get? store kid = some m ∧ m.color = .red

theorem returnsKid (closed : Closed store inside) (id : NodeId) {link : Option NodeId}
    (led : ∀ next, link = some next → inside next)
    (raised : ∀ kid m, link = some kid → Storage.get? store kid = some m → m.color = .red → raises (.redRed id.index kid.index)) :
    Returns (checkColors.checkKid store id link) (fun _ => True) raises := by
  cases link with
  | none => exact returnsPure trivial
  | some kid =>
      obtain ⟨answer, answered, red⟩ := closed.isRed led
      refine returnsBind (returnsLift answered) ?_
      intro _ same
      subst same
      refine returnsLastCheck fun found => ?_
      obtain ⟨id', m, link, read, redKid⟩ := red found
      obtain rfl := Option.some.inj link
      exact raised kid m rfl read redKid

theorem returnsColors (closed : Closed store inside) (id : NodeId) {n : Node K V}
    (led : ∀ side next, n.child side = some next → inside next)
    (raised : ∀ kid, RedKid store n kid → raises (.redRed id.index kid.index)) :
    Returns (checkColors store id n) (fun _ => True) raises := by
  unfold checkColors
  split
  · rename_i red
    have red : n.color = .red := of_decide_eq_true red
    have below : ∀ side, Returns (checkColors.checkKid store id (n.child side)) (fun _ => True) raises := by
      intro side
      exact returnsKid closed id (led side) fun kid m link read redKid => raised kid ⟨red, ⟨side, link⟩, m, read, redKid⟩
    exact returnsBind (below .left) fun _ _ => below .right
  · exact returnsPure trivial

theorem returnsOrder {before : Option NodeId} (live : ∀ earlier, before = some earlier → ∃ m, Storage.get? store earlier = some m)
    (id : NodeId) (n : Node K V)
    (raised : ∀ earlier m, before = some earlier → Storage.get? store earlier = some m → policy m.key n.key ≠ .lt →
      raises (.order id.index)) :
    Returns (checkOrder policy store before id n) (fun _ => True) raises := by
  cases before with
  | none => exact returnsPure trivial
  | some earlier =>
      obtain ⟨m, read⟩ := live earlier rfl
      refine returnsBind (returnsLift (Storage.nodeOk read)) ?_
      intro _ same
      subst same
      exact returnsLastCheck (raised earlier m rfl read)

theorem returnsBelow (closed : Closed store inside) {levels depth : Nat} {link before : Option NodeId}
    (led : ∀ id, link = some id → inside id) (seen : ∀ id, before = some id → inside id) :
    Returns (checkBelow policy store levels depth link before) (fun found => ∀ id, found.2 = some id → inside id)
      (Deep store levels depth link) := by
  induction levels generalizing depth link before with
  | zero =>
      cases link with
      | none => exact returnsPure seen
      | some id =>
          obtain ⟨n, read, -⟩ := closed id (led id rfl)
          exact returnsThrow ⟨rfl, rfl, [id], n.child .left, .down .left read (.here _), rfl⟩
  | succ levels ih =>
      cases link with
      | none => exact returnsPure seen
      | some id =>
          obtain ⟨n, read, further⟩ := closed id (led id rfl)
          refine returnsBind (returnsLift (Storage.nodeOk read)) ?_
          intro _ same
          subst same
          refine returnsBind (returnsColors closed id further fun _ _ => trivial) fun _ _ => ?_
          have left := @ih (depth + 1) _ _ (fun next link => further .left next link) seen
          refine returnsBind (left.raising fun _ => Deep.up read) fun found seenLeft => ?_
          have liveLeft : ∀ earlier, found.2 = some earlier → ∃ m, Storage.get? store earlier = some m := by
            intro earlier same
            obtain ⟨m, read, -⟩ := closed earlier (seenLeft earlier same)
            exact ⟨m, read⟩
          refine returnsBind (returnsOrder liveLeft id n fun _ _ _ _ _ => trivial) fun _ _ => ?_
          have here : ∀ other, some id = some other → inside other := fun other same => led other same
          have right := @ih (depth + 1) _ _ (fun next link => further .right next link) here
          refine returnsBind (right.raising fun _ => Deep.up read) fun _ seenRight => ?_
          exact returnsCheck (fun _ => trivial) fun _ => returnsPure seenRight

theorem validateReturns (policy : Policy K) {t : Tree σ} (closed : Closed t.store inside) (root : ∀ id, t.root = some id → inside id) :
    ∃ verdict, t.validate policy = .ok verdict ∧ ∀ v, verdict = .error v → Deep t.store heightLimit 1 t.root v := by
  obtain ⟨answer, red, -⟩ := closed.isRed root
  have returns : Returns (do
      if ← Storage.isRed t.store t.root then throw .redRoot
      return (← checkBelow policy t.store heightLimit 1 t.root none).1) (fun _ => True) (Deep t.store heightLimit 1 t.root) := by
    refine returnsBind (returnsLift red) fun _ _ => ?_
    refine returnsCheck (fun _ => trivial) fun _ => ?_
    exact returnsBind (returnsBelow closed root (by simp)) fun _ _ => returnsPure trivial
  obtain ⟨verdict, run, -, raised⟩ := returns
  exact ⟨verdict, run, raised⟩

theorem closedLinks {t : Tree σ} (live : ∀ id, Links t id → (Storage.get? t.store id).isSome) : Closed t.store (Links t) := by
  intro id linked
  obtain ⟨n, read⟩ := Option.isSome_iff_exists.mp (live id linked)
  exact ⟨n, read, fun side next link => .child side linked read link⟩

theorem Linked.closed {t : Tree σ} {s : Shape K V} (h : Linked t s) : Closed t.store (· ∈ s.ids) := by
  intro id member
  obtain ⟨n, read⟩ := Option.isSome_iff_exists.mp (h.live member)
  exact ⟨n, read, fun side next link => linkInside h.spells member read link⟩

end RedBlack.Tree
