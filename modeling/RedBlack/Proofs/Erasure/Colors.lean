import RedBlack.Proofs.Erasure.Rounds

/-! Colors on the way of an erasure in a balanced shape. A red node stays near the place all the way down, so
that the node at the bottom is red and goes without leaving a way short of a black node. Only below a black
root with a black sibling is there nothing red; what is done there takes one black node off every way. -/
namespace RedBlack.Erasure
variable {K V : Type} {order : K → Ordering} {z z' : Place K V} {log : List Event} {h : Nat}

def Led (z : Place K V) : Prop :=
  match z.path with
  | [] => True
  | f :: above => f.color = .red ∨ z.focus.color = .red ∨ above = [] ∧ f.far.color = .black

theorem Step.led (step : Step order z log z') (even : z.shape.BlackHeight h) : Led z' := by
  cases step with
  | walk turn red =>
      rcases red with red | red
      · exact .inl red
      · exact .inr (.inl red)
  | @alone path side c near far turn black beside =>
      cases path with
      | nil => exact .inr (.inr ⟨rfl, black.2⟩)
      | cons p above =>
          obtain ⟨sum, local_, -⟩ := (Path.blackHeightFill above).mp even
          obtain ⟨below, -, here, there⟩ := Shape.blackHeightFork.mp local_
          obtain ⟨b, rfl, -⟩ := Shape.blackHeightFork.mp here
          have beside : p.far = .leaf := beside
          rw [beside, Shape.blackHeightLeaf] at there
          simp at there
  | lift turn black => exact .inl rfl
  | recolor turn black beside nephews => exact .inl rfl
  | single turn black beside nephews => exact .inl rfl
  | double turn black beside => exact .inl rfl

section
variable {p : Frame K V} {above : Path K V} {side : Side} {c d : Cell K V} {color : Color}
  {near far inner outer : Shape K V}

theorem Led.parent (led : Led ⟨p :: above, .fork side c .black near far⟩) : p.color = .red ∨ above = [] := by
  rcases led with red | red | ⟨top, -⟩
  · exact .inl red
  · simp at red
  · exact .inr top

theorem Led.sibling (led : Led ⟨p :: above, .fork side c .black near far⟩)
    (noRedRed : (Path.fill (p :: above) (.fork side c .black near far)).NoRedRed) : p.far.color = .black := by
  rcases led with red | red | ⟨-, black⟩
  · exact (((Path.noRedRedFill (p :: above)).mp noRedRed).1.1 red).2
  · simp at red
  · exact black

theorem besideHeight (beside : p.far = .fork p.side d .black inner outer)
    (even : (p.fill (.fork side c .black near far)).BlackHeight h) :
    ∃ below, h = below + 1 + p.color.weight ∧ near.BlackHeight below ∧ far.BlackHeight below ∧
      inner.BlackHeight below ∧ outer.BlackHeight below := by
  obtain ⟨sum, rfl, here, there⟩ := Shape.blackHeightFork.mp even
  obtain ⟨below, rfl, evenNear, evenFar⟩ := Shape.blackHeightFork.mp here
  rw [beside] at there
  obtain ⟨below', same, evenInner, evenOuter⟩ := Shape.blackHeightFork.mp there
  obtain rfl : below = below' := Nat.succ.inj same
  exact ⟨below, rfl, evenNear, evenFar, evenInner, evenOuter⟩

theorem topHeight {s new : Shape K V} (top : p.color = .red ∨ above = [])
    (even : (Path.fill (p :: above) s).BlackHeight h)
    (lower : ∀ sum, (p.fill s).BlackHeight sum → ∃ below, sum = below + p.color.weight ∧ new.BlackHeight below) :
    ∃ h', (Path.fill above new).BlackHeight h' := by
  obtain ⟨sum, here, up⟩ := (Path.blackHeightFill above).mp even
  obtain ⟨below, rfl, lowered⟩ := lower sum here
  rcases top with red | rfl
  · rw [red, Color.weightRed, Nat.add_zero] at up
    exact ⟨h, (Path.blackHeightFill above).mpr ⟨below, lowered, up⟩⟩
  · exact ⟨below, lowered⟩

theorem topNoRedRed {s new : Shape K V} (top : p.color = .red ∨ above = [])
    (noRedRed : (Path.fill (p :: above) s).NoRedRed) (ok : new.NoRedRed) : (Path.fill above new).NoRedRed := by
  have up := ((Path.noRedRedFill (p :: above)).mp noRedRed).1.2.2
  refine (Path.noRedRedFill above).mpr ⟨?_, ok⟩
  rcases top with red | rfl
  · rw [red] at up
    cases new.color with
    | red => exact up
    | black => exact up.black
  · trivial

end

theorem Step.noRedRed (step : Step order z log z') (led : Led z) (noRedRed : z.shape.NoRedRed) : z'.shape.NoRedRed := by
  obtain ⟨up, focusOk⟩ := (Path.noRedRedFill _).mp noRedRed
  cases step with
  | walk turn red => exact noRedRed
  | alone turn black beside => exact noRedRed
  | @lift path side c d near inner outer turn black =>
      obtain ⟨-, nearOk, farOk⟩ := (Shape.noRedRedFork ..).mp focusOk
      obtain ⟨kids, innerOk, outerOk⟩ := (Shape.noRedRedFork ..).mp farOk
      refine (Path.noRedRedFill path).mpr ⟨by simpa [Frame.fill] using up, ?_⟩
      simp only [Frame.fill, Shape.noRedRedFork]
      exact ⟨by simp, ⟨fun _ => ⟨black, (kids rfl).1⟩, nearOk, innerOk⟩, outerOk⟩
  | @recolor p above side c d color near far inner outer turn black beside nephews =>
      obtain ⟨-, nearOk, farOk⟩ := (Shape.noRedRedFork ..).mp focusOk
      have besideOk := up.2.1
      rw [beside] at besideOk
      obtain ⟨-, innerOk, outerOk⟩ := (Shape.noRedRedFork ..).mp besideOk
      have turned : (Shape.fork p.side p.cell .black (.fork side c .red near far)
          (.fork p.side d .red inner outer)).NoRedRed := by
        simp only [Shape.noRedRedFork]
        exact ⟨by simp, ⟨fun _ => black, nearOk, farOk⟩, fun _ => nephews, innerOk, outerOk⟩
      have whole := topNoRedRed led.parent noRedRed turned
      exact whole
  | @single p above side c d color near far inner outer turn black beside nephews =>
      obtain ⟨-, nearOk, farOk⟩ := (Shape.noRedRedFork ..).mp focusOk
      have besideOk := up.2.1
      rw [beside] at besideOk
      obtain ⟨-, innerOk, outerOk⟩ := (Shape.noRedRedFork ..).mp besideOk
      have turned : (Shape.fork p.side d .red (.fork p.side p.cell .black (.fork side c .red near far) inner)
          outer.blacken).NoRedRed := by
        simp only [Shape.noRedRedFork, Shape.colorFork]
        exact ⟨by simp, ⟨by simp, ⟨fun _ => black, nearOk, farOk⟩, innerOk⟩,
          Shape.noRedRedBlacken outerOk⟩
      have whole := topNoRedRed led.parent noRedRed turned
      exact whole
  | @double p above side c d x color near far a b outer turn black beside =>
      obtain ⟨-, nearOk, farOk⟩ := (Shape.noRedRedFork ..).mp focusOk
      have besideOk := up.2.1
      rw [beside] at besideOk
      obtain ⟨-, innerOk, outerOk⟩ := (Shape.noRedRedFork ..).mp besideOk
      obtain ⟨-, aOk, bOk⟩ := (Shape.noRedRedFork ..).mp innerOk
      have turned : (Shape.fork p.side x .red (.fork p.side p.cell .black (.fork side c .red near far) a)
          (.fork p.side d .black b outer)).NoRedRed := by
        simp only [Shape.noRedRedFork, Shape.colorFork]
        exact ⟨by simp, ⟨by simp, ⟨fun _ => black, nearOk, farOk⟩, aOk⟩, by simp, bOk, outerOk⟩
      have whole := topNoRedRed led.parent noRedRed turned
      exact whole

theorem Step.blackHeight (step : Step order z log z') (led : Led z) (noRedRed : z.shape.NoRedRed)
    (even : z.shape.BlackHeight h) : ∃ h', z'.shape.BlackHeight h' := by
  cases step with
  | walk turn red => exact ⟨h, even⟩
  | alone turn black beside => exact ⟨h, even⟩
  | @lift path side c d near inner outer turn black =>
      obtain ⟨sum, here, up⟩ := (Path.blackHeightFill path).mp even
      obtain ⟨below, rfl, evenNear, evenFar⟩ := Shape.blackHeightFork.mp here
      obtain ⟨below', rfl, evenInner, evenOuter⟩ := Shape.blackHeightFork.mp evenFar
      refine ⟨h, (Path.blackHeightFill path).mpr ⟨_, Shape.blackHeightFork.mpr ⟨_, rfl, ?_, evenOuter⟩, up⟩⟩
      exact Shape.blackHeightFork.mpr ⟨_, rfl, evenNear, evenInner⟩
  | @recolor p above side c d color near far inner outer turn black beside nephews =>
      have heavy := led.sibling noRedRed
      rw [beside, Shape.colorFork] at heavy
      subst heavy
      have turned : ∀ sum, (p.fill (.fork side c .black near far)).BlackHeight sum →
          ∃ below, sum = below + p.color.weight ∧ (Shape.fork p.side p.cell .black (.fork side c .red near far)
            (.fork p.side d .red inner outer)).BlackHeight below := by
        intro sum here
        obtain ⟨below, sum, evenNear, evenFar, evenInner, evenOuter⟩ := besideHeight beside here
        exact ⟨below + 1, sum, Shape.evenFork (Shape.evenFork evenNear evenFar) (Shape.evenFork evenInner evenOuter)⟩
      have whole := topHeight led.parent even turned
      exact whole
  | @single p above side c d color near far inner outer turn black beside nephews =>
      have heavy := led.sibling noRedRed
      rw [beside, Shape.colorFork] at heavy
      subst heavy
      have turned : ∀ sum, (p.fill (.fork side c .black near far)).BlackHeight sum →
          ∃ below, sum = below + p.color.weight ∧ (Shape.fork p.side d .red
            (.fork p.side p.cell .black (.fork side c .red near far) inner) outer.blacken).BlackHeight below := by
        intro sum here
        obtain ⟨below, sum, evenNear, evenFar, evenInner, evenOuter⟩ := besideHeight beside here
        refine ⟨below + 1, sum, Shape.blackHeightFork.mpr ⟨below + 1, rfl, ?_, ?_⟩⟩
        · exact Shape.blackHeightFork.mpr ⟨below, rfl, Shape.evenFork evenNear evenFar, evenInner⟩
        · exact Shape.blackHeightBlacken nephews.2 evenOuter
      have whole := topHeight led.parent even turned
      exact whole
  | @double p above side c d x color near far a b outer turn black beside =>
      have heavy := led.sibling noRedRed
      rw [beside, Shape.colorFork] at heavy
      subst heavy
      have turned : ∀ sum, (p.fill (.fork side c .black near far)).BlackHeight sum →
          ∃ below, sum = below + p.color.weight ∧ (Shape.fork p.side x .red
            (.fork p.side p.cell .black (.fork side c .red near far) a) (.fork p.side d .black b outer)).BlackHeight below := by
        intro sum here
        obtain ⟨below, sum, evenNear, evenFar, evenInner, evenOuter⟩ := besideHeight beside here
        obtain ⟨_, rfl, evenA, evenB⟩ := Shape.blackHeightFork.mp evenInner
        refine ⟨below + 1, sum, Shape.blackHeightFork.mpr ⟨below + 1, rfl, ?_, ?_⟩⟩
        · exact Shape.blackHeightFork.mpr ⟨below, rfl, Shape.evenFork evenNear evenFar, evenA⟩
        · exact Shape.blackHeightFork.mpr ⟨below, rfl, evenB, evenOuter⟩
      have whole := topHeight led.parent even turned
      exact whole

section
variable {rounds : Nat} {bottom : Path K V}

theorem Passes.balance (passes : Passes order rounds z log bottom) (led : Led z) (noRedRed : z.shape.NoRedRed)
    (even : z.shape.BlackHeight h) :
    Led ⟨bottom, .leaf⟩ ∧ (bottom.fill .leaf).NoRedRed ∧ ∃ h', (bottom.fill .leaf).BlackHeight h' := by
  induction passes generalizing h with
  | ends => exact ⟨led, noRedRed, h, even⟩
  | step first tail ih =>
      obtain ⟨h', even'⟩ := first.blackHeight led noRedRed even
      exact ih (first.led even) (first.noRedRed led noRedRed) even'

end

section
variable {f : Frame K V} {rest : Path K V} (led : Led ⟨f :: rest, .leaf⟩)
  (noRedRed : (Path.fill (f :: rest) .leaf).NoRedRed) (even : (Path.fill (f :: rest) .leaf).BlackHeight h)
include led noRedRed even

theorem bottomLeaf : f.far = .leaf ∧ (f.color = .red ∨ rest = []) := by
  obtain ⟨sum, here, -⟩ := (Path.blackHeightFill rest).mp even
  obtain ⟨below, -, absent, beside⟩ := Shape.blackHeightFork.mp here
  rw [Shape.blackHeightLeaf] at absent
  subst absent
  rcases led with red | red | ⟨top, black⟩
  · have black := (((Path.noRedRedFill (f :: rest)).mp noRedRed).1.1 red).2
    exact ⟨Shape.blackHeightZero beside black, .inl red⟩
  · cases red
  · exact ⟨Shape.blackHeightZero beside black, .inr top⟩

theorem spliceHeight (red : f.color = .red) : (rest.fill f.far).BlackHeight h := by
  obtain ⟨leaf, -⟩ := bottomLeaf led noRedRed even
  obtain ⟨sum, here, above⟩ := (Path.blackHeightFill rest).mp even
  obtain ⟨below, rfl, absent, -⟩ := Shape.blackHeightFork.mp here
  rw [leaf]
  exact (Path.blackHeightFill rest).mpr ⟨below, absent, by simpa [red] using above⟩

theorem spliceBalance : (rest.fill f.far).NoRedRed ∧ ∃ h', (rest.fill f.far).BlackHeight h' := by
  obtain ⟨leaf, red | rfl⟩ := bottomLeaf led noRedRed even
  · have up := ((Path.noRedRedFill (f :: rest)).mp noRedRed).1.2.2
    refine ⟨?_, h, spliceHeight led noRedRed even red⟩
    rw [leaf]
    exact (Path.noRedRedFill rest).mpr ⟨up.black, trivial⟩
  · rw [leaf]
    exact ⟨trivial, 0, rfl⟩

end

end RedBlack.Erasure
