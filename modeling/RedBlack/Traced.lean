import RedBlack.Fault

/-! Computations that keep a record of what they did. The record survives a fault, so a run that ends
early still shows every step before it. -/
namespace RedBlack

inductive Event where
  | insertRefused (id holder : NodeId)
  | insertFlip (id : NodeId)
  | insertSingle (id : NodeId)
  | insertDouble (id : NodeId)
  | eraseMissed
  | eraseLift (id : NodeId)
  | eraseFlip (id : NodeId)
  | eraseSingle (id : NodeId)
  | eraseDouble (id : NodeId)
  | pathOverflow (id : NodeId) (limit : Nat)
  deriving DecidableEq, Repr

inductive Level where
  | trace
  | debug
  | error
  deriving DecidableEq, Repr

def Level.name : Level → String
  | trace => "TRACE"
  | debug => "DEBUG"
  | error => "ERROR"

namespace Event

def level : Event → Level
  | insertRefused .. | eraseMissed => .debug
  | pathOverflow .. => .error
  | _ => .trace

def text : Event → String
  | insertRefused id holder => s!"insert of {id.label} rejected: key already held by {holder.label}"
  | insertFlip id => s!"insert: color flip at {id.label}"
  | insertSingle id => s!"insert: single rotation at {id.label}"
  | insertDouble id => s!"insert: double rotation at {id.label}"
  | eraseMissed => "erase: no entry with the requested key"
  | eraseLift id => s!"erase: rotating red child up at {id.label}"
  | eraseFlip id => s!"erase: color flip at {id.label}"
  | eraseSingle id => s!"erase: single rotation at {id.label}"
  | eraseDouble id => s!"erase: double rotation at {id.label}"
  | pathOverflow id limit =>
      s!"cursor path overflow at {id.label}: " ++ (Refusal.capacityExceeded limit).message

end Event

structure Traced (α : Type) where
  log : List Event
  result : Except Fault α

namespace Traced
variable {α β σ : Type}

def lift (result : Except Fault α) : Traced α := ⟨[], result⟩

def fail (fault : Fault) : Traced α := ⟨[], .error fault⟩

def note (event : Event) : Traced Unit := ⟨[event], .ok ()⟩

def bind (x : Traced α) (f : α → Traced β) : Traced β :=
  match x.result with
  | .ok a =>
      let y := f a
      ⟨x.log ++ y.log, y.result⟩
  | .error fault => ⟨x.log, .error fault⟩

instance : Monad Traced where
  pure a := ⟨[], .ok a⟩
  bind := bind

instance : MonadLift (Except Fault) Traced := ⟨lift⟩

theorem ext {x y : Traced α} (log : x.log = y.log) (result : x.result = y.result) : x = y := by
  cases x; cases y; cases log; cases result; rfl

@[simp] theorem resultPure (a : α) : (pure a : Traced α).result = .ok a := rfl

@[simp] theorem logLift (r : Except Fault α) : (lift r).log = [] := rfl

@[simp] theorem resultLift (r : Except Fault α) : (lift r).result = r := rfl

theorem bindOk {x : Traced α} {a : α} (h : x.result = .ok a) (f : α → Traced β) :
    x >>= f = ⟨x.log ++ (f a).log, (f a).result⟩ := by
  show bind x f = _
  simp [bind, h]

theorem bindError {x : Traced α} {fault : Fault} (h : x.result = .error fault) (f : α → Traced β) :
    x >>= f = ⟨x.log, .error fault⟩ := by
  show bind x f = _
  simp [bind, h]

theorem resultBind (x : Traced α) (f : α → Traced β) :
    (x >>= f).result = x.result >>= fun a => (f a).result := by
  cases h : x.result with
  | ok a => rw [bindOk h]; rfl
  | error fault => rw [bindError h]; rfl

theorem resultBindEqOk {x : Traced α} {f : α → Traced β} {b : β} :
    (x >>= f).result = .ok b ↔ ∃ a, x.result = .ok a ∧ (f a).result = .ok b := by
  cases h : x.result with
  | ok a => simp [bindOk h]
  | error fault => simp [bindError h]

@[simp] theorem liftMEqLift (r : Except Fault α) : (liftM r : Traced α) = lift r := rfl

@[simp] theorem liftOkBind (a : α) (f : α → Traced β) : lift (.ok a) >>= f = f a := rfl

@[simp] theorem noteBind (event : Event) (f : Unit → Traced β) :
    note event >>= f = ⟨event :: (f ()).log, (f ()).result⟩ := rfl

@[simp] theorem okBind (log : List Event) (a : α) (f : α → Traced β) :
    (⟨log, .ok a⟩ : Traced α) >>= f = ⟨log ++ (f a).log, (f a).result⟩ := rfl

@[simp] theorem okMap (log : List Event) (a : α) (f : α → β) : f <$> (⟨log, .ok a⟩ : Traced α) = ⟨log, .ok (f a)⟩ :=
  ext (List.append_nil log) rfl

theorem pureEq (a : α) : (pure a : Traced α) = ⟨[], .ok a⟩ := rfl

instance : LawfulMonad Traced := LawfulMonad.mk' Traced
  (fun x => by cases h : x.result <;> apply ext <;> simp [Functor.map, bind, h])
  (fun a f => rfl)
  (fun x f g => by
    show bind (bind x f) g = bind x (fun a => bind (f a) g)
    cases h : x.result with
    | error fault => simp [bind, h]
    | ok a => cases k : (f a).result <;> simp [bind, h, k, List.append_assoc])

inductive Turn (σ α : Type) where
  | again (state : σ)
  | done (answer : α)

def loop (round : σ → Traced (Turn σ α)) : Nat → σ → Traced α
  | 0, _ => fail .endless
  | rounds + 1, state => do
      match ← round state with
      | .again next => loop round rounds next
      | .done answer => pure answer

theorem loopAgain {round : σ → Traced (Turn σ α)} {state next : σ} (rounds : Nat)
    (h : (round state).result = .ok (.again next)) :
    loop round (rounds + 1) state =
      ⟨(round state).log ++ (loop round rounds next).log, (loop round rounds next).result⟩ :=
  bindOk h _

theorem loopDone {round : σ → Traced (Turn σ α)} {state : σ} {answer : α} (rounds : Nat)
    (h : (round state).result = .ok (.done answer)) :
    loop round (rounds + 1) state = ⟨(round state).log, .ok answer⟩ :=
  (bindOk h _).trans (ext (List.append_nil _) rfl)

/-- The rounds of a loop that ends: each with the state it starts from and what it records. -/
inductive Course (round : σ → Traced (Turn σ α)) : σ → List (σ × List Event) → α → Prop where
  | last {state : σ} {log : List Event} {answer : α} (run : round state = ⟨log, .ok (.done answer)⟩) :
      Course round state [(state, log)] answer
  | next {state state' : σ} {log : List Event} {rounds : List (σ × List Event)} {answer : α}
      (run : round state = ⟨log, .ok (.again state')⟩) (rest : Course round state' rounds answer) :
      Course round state ((state, log) :: rounds) answer

def record (rounds : List (σ × List Event)) : List Event := (rounds.map Prod.snd).flatten

@[simp] theorem recordCons (r : σ × List Event) (rounds : List (σ × List Event)) :
    record (r :: rounds) = r.2 ++ record rounds := rfl

section
variable {round : σ → Traced (Turn σ α)} {state : σ} {rounds : List (σ × List Event)} {answer : α}

theorem Course.loop (course : Course round state rounds answer) {limit : Nat} (enough : rounds.length ≤ limit) :
    Traced.loop round limit state = ⟨record rounds, .ok answer⟩ := by
  induction course generalizing limit with
  | last run =>
      obtain ⟨limit, rfl⟩ : ∃ below, limit = below + 1 := ⟨limit - 1, (Nat.sub_add_cancel enough).symm⟩
      rw [loopDone limit (congrArg Traced.result run), run]
      exact ext (List.append_nil _).symm rfl
  | next run rest ih =>
      obtain ⟨limit, rfl⟩ : ∃ below, limit = below + 1 := ⟨limit - 1, (Nat.sub_add_cancel (Nat.one_le_of_lt enough)).symm⟩
      rw [loopAgain limit (congrArg Traced.result run), run, ih (Nat.le_of_succ_le_succ enough)]
      rfl

theorem loopCourse {limit : Nat} (run : (loop round limit state).result = .ok answer) :
    ∃ rounds, Course round state rounds answer ∧ rounds.length ≤ limit := by
  induction limit generalizing state with
  | zero => cases run
  | succ limit ih =>
      obtain ⟨turn, first, rest⟩ := resultBindEqOk.mp run
      cases turn with
      | done answer' =>
          cases rest
          exact ⟨_, .last (ext rfl first), Nat.succ_le_succ (Nat.zero_le _)⟩
      | again state' =>
          obtain ⟨rounds, course, few⟩ := ih rest
          exact ⟨_, .next (ext rfl first) course, Nat.succ_le_succ few⟩

theorem Course.reaches (Inv : σ → Prop) {now : σ} {log : List Event} {front behind : List (σ × List Event)}
    (course : Course round state rounds answer) (start : Inv state)
    (keeps : ∀ state log state', Inv state → round state = ⟨log, .ok (.again state')⟩ → Inv state')
    (split : rounds = front ++ (now, log) :: behind) : Inv now ∧ Course round now ((now, log) :: behind) answer := by
  induction course generalizing front with
  | last run =>
      cases front with
      | nil =>
          cases split
          exact ⟨start, .last run⟩
      | cons r front => simp at split
  | next run rest ih =>
      cases front with
      | nil =>
          cases split
          exact ⟨start, .next run rest⟩
      | cons r front =>
          obtain ⟨-, further⟩ := List.cons.inj split
          exact ih (keeps _ _ _ start run) further

end

end Traced

end RedBlack
