import RedBlack.Proofs.Insertion.Rounds

/-! Colors on the way of an insertion. Between rounds the shape has no red node under a red one and even
black heights; only its root may have turned red. What a stage says about the colors around the place is
what keeps a second conflict away until the names of the nodes above are known again. -/
namespace RedBlack

namespace Shape
variable {K V : Type}

def Quiet : Shape K V → Prop
  | leaf => False
  | node _ color left _ _ right => color = .black ∧ (left.color = .black ∨ right.color = .black)

theorem quietFork {side : Side} {c : Cell K V} {color : Color} {near far : Shape K V} :
    (fork side c color near far).Quiet ↔ color = .black ∧ (near.color = .black ∨ far.color = .black) := by
  cases side with
  | left => rfl
  | right => simp [fork, Quiet, or_comm]

theorem blackOfRed {side : Side} {c : Cell K V} {color : Color} {near far : Shape K V} (red : near.color = .red)
    (noRedRed : (fork side c color near far).NoRedRed) : color = .black := by
  refine Color.eqBlackIff.mpr fun redTop => ?_
  simpa [red] using ((noRedRedFork ..).mp noRedRed).1 redTop

theorem quietBlacken {s : Shape K V} (red : s.color = .red) (noRedRed : s.NoRedRed) : s.blacken.Quiet := by
  cases s with
  | leaf => cases red
  | node id color left key value right => exact ⟨rfl, .inl (noRedRed.1 red).1⟩

end Shape

namespace Insertion
variable {K V : Type}

structure Ready (z : Place K V) : Prop where
  top : z.path = [] → z.focus.color = .black
  lone : ∀ f, z.path = [f] → f.color = .black
  uncle : ∀ p g above, z.path = p :: g :: above → p.color = .red → g.far.color = .black
  sibling : ∀ f above, z.path = f :: above → z.focus.color = .red → f.far.color = .black

structure Returning (order : K → Ordering) (z : Place K V) : Prop where
  parent : ∃ f above, z.path = f :: above ∧ f.color = .black
  onward : ∃ side c near far, z.focus = .fork side c .red near far ∧ Side.toward (order c.key) = side ∧ near.Quiet

def At (order : K → Ordering) : Stage → Place K V → Prop
  | .ready, z => Ready z
  | .quiet, z => z.focus.Quiet
  | .returning, z => Returning order z

section
variable {order : K → Ordering} {new : Cell K V} {stage stage' : Stage} {z z' : Place K V} {log : List Event}

theorem startReady {s : Shape K V} (black : s.color = .black) : At order .ready ⟨[], s⟩ where
  top _ := black
  lone := by simp
  uncle := by simp
  sibling := by simp

theorem Step.at (step : Step order stage z log stage' z') (stands : At order stage z) (noRedRed : z.shape.NoRedRed)
    (follows : z.path.Follows order) : At order stage' z' := by
  have focusOk := (Path.noRedRedFill _ |>.mp noRedRed).2
  cases step with
  | @walk _ path side c color near far turn idle calm =>
      cases stage with
      | ready =>
          have stands : Ready ⟨path, .fork side c color near far⟩ := stands
          refine ⟨by simp, ?_, ?_, ?_⟩
          · intro f same
            cases same
            simpa using stands.top rfl
          · intro p g above same red
            cases same
            exact stands.sibling g above rfl (by simpa using red)
          · intro f above same red
            cases same
            exact idle.resolve_left fun black => by simp [red] at black
      | quiet =>
          obtain ⟨black, -⟩ := Shape.quietFork.mp stands
          refine ⟨by simp, ?_, ?_, ?_⟩
          · intro f same
            cases same
            exact black
          · intro p g above same red
            cases same
            simp [black] at red
          · intro f above same red
            cases same
            exact idle.resolve_left fun black => by simp [red] at black
      | returning =>
          obtain ⟨side', c', near', far', same, turn', quiet⟩ := stands.onward
          obtain ⟨rfl, rfl⟩ := Shape.forkCell _ _ _ _ _ same
          obtain rfl : side = side' := turn.symm.trans turn'
          obtain ⟨rfl, rfl⟩ := Shape.forkInj _ _ _ _ _ same
          exact quiet
  | flip turn redNear redFar calm =>
      exact Shape.quietBlacken redNear (Shape.noRedRedFork ..|>.mp focusOk).2.1
  | single turn redNear redFar redParent straight =>
      exact Shape.quietBlacken redNear (Shape.noRedRedFork ..|>.mp focusOk).2.1
  | @double p g q r above side c color near far turn redNear redFar redParent pair back away =>
      refine ⟨⟨_, _, rfl, rfl⟩, q.side, q.cell, near.blacken, q.far, rfl, ?_, ?_⟩
      · obtain ⟨rfl, rfl⟩ | ⟨rfl, rfl⟩ := pair
        · exact follows.head
        · exact follows.tail.head
      · exact Shape.quietBlacken redNear (Shape.noRedRedFork ..|>.mp focusOk).2.1

section
variable {p g q r : Frame K V} {above : Path K V} {s s' near far : Shape K V} {side : Side} {c : Cell K V} {h : Nat}

theorem overNoRedRed (redParent : p.color = .red) (uncle : g.far.color = .black)
    (whole : (Path.fill (p :: g :: above) s).NoRedRed) (ok : s'.NoRedRed) :
    (Path.fill (p.over g :: above) s').NoRedRed := by
  obtain ⟨up, whole⟩ := (Path.noRedRedFill above).mp whole
  simp only [Frame.fill, Shape.noRedRedFork, Shape.colorFork] at whole
  obtain ⟨-, ⟨parent, -, besideOk⟩, uncleOk⟩ := whole
  refine (Path.noRedRedFill above).mpr ⟨by simpa [Frame.fill, Frame.over] using up.black, ?_⟩
  simp only [Frame.fill, Frame.over, Frame.redden, Shape.noRedRedFork]
  exact ⟨by simp, ok, fun _ => ⟨(parent redParent).2, uncle⟩, besideOk, uncleOk⟩

theorem betweenNoRedRed (redParent : p.color = .red) (uncle : g.far.color = .black)
    (whole : (Path.fill (p :: g :: above) s).NoRedRed) (pair : q = p ∧ r = g ∨ q = g ∧ r = p)
    (nearOk : near.NoRedRed ∧ near.color = .black) (farOk : far.NoRedRed ∧ far.color = .black) :
    (Path.fill above (.fork side c .black (q.redden.fill near) (r.redden.fill far))).NoRedRed := by
  obtain ⟨up, whole⟩ := (Path.noRedRedFill above).mp whole
  simp only [Frame.fill, Shape.noRedRedFork, Shape.colorFork] at whole
  obtain ⟨-, ⟨parent, -, besideOk⟩, uncleOk⟩ := whole
  have beside := (parent redParent).2
  refine (Path.noRedRedFill above).mpr ⟨by simpa using up.black, ?_⟩
  simp only [Frame.fill, Frame.redden, Shape.noRedRedFork, Shape.colorFork]
  obtain ⟨rfl, rfl⟩ | ⟨rfl, rfl⟩ := pair
  · exact ⟨by simp, ⟨fun _ => ⟨nearOk.2, beside⟩, nearOk.1, besideOk⟩, fun _ => ⟨farOk.2, uncle⟩, farOk.1, uncleOk⟩
  · exact ⟨by simp, ⟨fun _ => ⟨nearOk.2, uncle⟩, nearOk.1, uncleOk⟩, fun _ => ⟨farOk.2, beside⟩, farOk.1, besideOk⟩

theorem grandBlack (redParent : p.color = .red) (whole : (Path.fill (p :: g :: above) s).NoRedRed) : g.color = .black :=
  Shape.blackOfRed (by simpa [Frame.fill] using redParent) ((Path.noRedRedFill above).mp whole).2

theorem grandBlackHeight (redParent : p.color = .red) (whole : (Path.fill (p :: g :: above) s).NoRedRed)
    (even : (Path.fill (p :: g :: above) s).BlackHeight h) :
    ∃ below, above.BlackHeight (below + 1) h ∧ s.BlackHeight below ∧ p.far.BlackHeight below ∧
      g.far.BlackHeight below := by
  have black := grandBlack redParent whole
  obtain ⟨sum, even, up⟩ := (Path.blackHeightFill above).mp even
  obtain ⟨below, rfl, evenParent, evenUncle⟩ := Shape.blackHeightFork.mp even
  obtain ⟨below', rfl, evenFocus, evenBeside⟩ := Shape.blackHeightFork.mp evenParent
  simp only [redParent, black, Color.weightRed, Color.weightBlack, Nat.add_zero] at evenUncle up
  exact ⟨below', up, evenFocus, evenBeside, evenUncle⟩

theorem overBlackHeight (redParent : p.color = .red) (whole : (Path.fill (p :: g :: above) s).NoRedRed)
    (even : (Path.fill (p :: g :: above) s).BlackHeight h)
    (same : ∀ below, s.BlackHeight below → s'.BlackHeight below) :
    (Path.fill (p.over g :: above) s').BlackHeight h := by
  obtain ⟨below, up, evenFocus, evenBeside, evenUncle⟩ := grandBlackHeight redParent whole even
  have grand : (g.redden.fill p.far).BlackHeight below := Shape.blackHeightFork.mpr ⟨below, rfl, evenBeside, evenUncle⟩
  exact (Path.blackHeightFill above).mpr
    ⟨below + 1, Shape.blackHeightFork.mpr ⟨below, rfl, same below evenFocus, grand⟩, up⟩

theorem betweenBlackHeight (redParent : p.color = .red) (whole : (Path.fill (p :: g :: above) s).NoRedRed)
    (even : (Path.fill (p :: g :: above) s).BlackHeight h) (pair : q = p ∧ r = g ∨ q = g ∧ r = p)
    (same : ∀ below, s.BlackHeight below → near.BlackHeight below ∧ far.BlackHeight below) :
    (Path.fill above (.fork side c .black (q.redden.fill near) (r.redden.fill far))).BlackHeight h := by
  obtain ⟨below, up, evenFocus, evenBeside, evenUncle⟩ := grandBlackHeight redParent whole even
  obtain ⟨evenNear, evenFar⟩ := same below evenFocus
  refine (Path.blackHeightFill above).mpr ⟨below + 1, Shape.blackHeightFork.mpr ⟨below, rfl, ?_, ?_⟩, up⟩
  all_goals
    apply Shape.blackHeightFork.mpr
    obtain ⟨rfl, rfl⟩ | ⟨rfl, rfl⟩ := pair <;> exact ⟨below, rfl, by assumption, by assumption⟩

theorem flipBlackHeight {color : Color} (redNear : near.color = .red) (redFar : far.color = .red)
    (noRedRed : (Shape.fork side c color near far).NoRedRed) (even : (Shape.fork side c color near far).BlackHeight h) :
    near.blacken.BlackHeight h ∧ far.blacken.BlackHeight h := by
  obtain ⟨below, rfl, evenNear, evenFar⟩ := Shape.blackHeightFork.mp even
  obtain rfl := Shape.blackOfRed redNear noRedRed
  exact ⟨Shape.blackHeightBlacken redNear evenNear, Shape.blackHeightBlacken redFar evenFar⟩

theorem flipNoRedRed {color : Color} (noRedRed : (Shape.fork side c color near far).NoRedRed) :
    (Shape.fork side c .red near.blacken far.blacken).NoRedRed := by
  obtain ⟨-, nearOk, farOk⟩ := (Shape.noRedRedFork ..).mp noRedRed
  exact (Shape.noRedRedFork ..).mpr ⟨by simp, Shape.noRedRedBlacken nearOk, Shape.noRedRedBlacken farOk⟩

end

theorem Step.noRedRed (step : Step order stage z log stage' z') (stands : At order stage z)
    (noRedRed : z.shape.NoRedRed) : z'.shape.NoRedRed := by
  have focusOk := ((Path.noRedRedFill _).mp noRedRed).2
  cases step with
  | walk turn idle calm => exact noRedRed
  | @flip path side c color near far turn redNear redFar calm =>
      have up := ((Path.noRedRedFill path).mp noRedRed).1
      exact (Path.noRedRedFill path).mpr ⟨up.ofBlack calm, flipNoRedRed focusOk⟩
  | @single p g above side c color near far turn redNear redFar redParent straight =>
      exact overNoRedRed redParent (stands.uncle p g above rfl redParent) noRedRed (flipNoRedRed focusOk)
  | @double p g q r above side c color near far turn redNear redFar redParent pair back away =>
      obtain ⟨-, nearOk, farOk⟩ := (Shape.noRedRedFork ..).mp (flipNoRedRed focusOk)
      exact betweenNoRedRed redParent (stands.uncle p g above rfl redParent) noRedRed pair ⟨nearOk, Shape.colorBlacken _⟩
        ⟨farOk, Shape.colorBlacken _⟩

theorem Step.blackHeight (step : Step order stage z log stage' z') (noRedRed : z.shape.NoRedRed) {h : Nat}
    (even : z.shape.BlackHeight h) : z'.shape.BlackHeight h := by
  have focusOk := ((Path.noRedRedFill _).mp noRedRed).2
  cases step with
  | walk turn idle calm => exact even
  | @flip path side c color near far turn redNear redFar calm =>
      obtain ⟨below, here, up⟩ := (Path.blackHeightFill path).mp even
      have kids := flipBlackHeight redNear redFar focusOk here
      exact (Path.blackHeightFill path).mpr ⟨below, Shape.blackHeightFork.mpr ⟨below, rfl, kids⟩, up⟩
  | @single p g above side c color near far turn redNear redFar redParent straight =>
      refine overBlackHeight redParent noRedRed even fun below here => ?_
      exact Shape.blackHeightFork.mpr ⟨below, rfl, flipBlackHeight redNear redFar focusOk here⟩
  | @double p g q r above side c color near far turn redNear redFar redParent pair back away =>
      exact betweenBlackHeight redParent noRedRed even pair fun below here => flipBlackHeight redNear redFar focusOk here

theorem Ends.noRedRed {s : Shape K V} (ends : Ends new z log s) (ready : Ready z) (noRedRed : z.shape.NoRedRed) :
    s.NoRedRed := by
  have sprout : new.sprout.NoRedRed := ⟨fun _ => ⟨rfl, rfl⟩, trivial, trivial⟩
  cases ends with
  | @plain path calm =>
      exact (Path.noRedRedFill path).mpr ⟨((Path.noRedRedFill path).mp noRedRed).1.ofBlack calm, sprout⟩
  | @single p g above redParent straight =>
      exact overNoRedRed redParent (ready.uncle p g above rfl redParent) noRedRed sprout
  | @double p g above redParent bent =>
      exact betweenNoRedRed redParent (ready.uncle p g above rfl redParent) noRedRed (.inl ⟨rfl, rfl⟩) ⟨trivial, rfl⟩
        ⟨trivial, rfl⟩

theorem Ends.blackHeight {s : Shape K V} (ends : Ends new z log s) (noRedRed : z.shape.NoRedRed) {h : Nat}
    (even : z.shape.BlackHeight h) : s.BlackHeight h := by
  have sprout : ∀ below, (.leaf : Shape K V).BlackHeight below → new.sprout.BlackHeight below := fun _ leaf => ⟨leaf, leaf⟩
  cases ends with
  | @plain path calm =>
      obtain ⟨below, here, up⟩ := (Path.blackHeightFill path).mp even
      exact (Path.blackHeightFill path).mpr ⟨below, sprout below here, up⟩
  | single redParent straight => exact overBlackHeight redParent noRedRed even sprout
  | double redParent bent =>
      exact betweenBlackHeight redParent noRedRed even (.inl ⟨rfl, rfl⟩) fun below here => ⟨here, here⟩

end

end Insertion

end RedBlack
