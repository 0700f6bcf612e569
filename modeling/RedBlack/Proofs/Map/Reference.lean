import RedBlack.OrderedMap

/-! What an ordered map is meant to be: a row of entries in ascending order, where a key is found by the
answers it gets along the row. The operations of a map on the one side and on a row on the other. -/
namespace RedBlack

inductive Op (K V α : Type) where
  | insert (key : K) (value : V)
  | remove (key : K)
  | removeEntry (key : K)
  | get (key : K)
  | modify (key : K) (change : V → V)
  | lookup (key : K) (read : V → α)
  | contains (key : K)
  | first
  | last
  | size
  | isEmpty
  | entries (side : Side)
  | clear

inductive Answer (K V α : Type) where
  | inserted (outcome : Except Refusal Unit)
  | removed (outcome : Except Refusal V)
  | removedEntry (outcome : Except Refusal (K × V))
  | value (held : Option V)
  | seen (held : Option α)
  | truth (answer : Bool)
  | entry (found : Option (K × V))
  | count (number : Nat)
  | row (entries : List (K × V))
  | done

namespace Op
variable {K V α : Type}

def Walks : Op K V α → Prop
  | .first | .last | .entries _ => True
  | _ => False

def slots (size held : Nat) : Op K V α → Nat
  | .insert .. => max held (size + 1)
  | .clear => 0
  | _ => held

end Op

namespace OrderedMap
variable {K V α : Type} {policy : Policy K}

def perform (m : OrderedMap K V policy) : Op K V α → Traced (Answer K V α × OrderedMap K V policy)
  | .insert key value => do
      let (outcome, m) ← m.insert key value
      return (.inserted outcome, m)
  | .remove key => do
      let (outcome, m) ← m.remove key
      return (.removed outcome, m)
  | .removeEntry key => do
      let (outcome, m) ← m.removeEntry key
      return (.removedEntry outcome, m)
  | .get key => return (.value (← m.get? key), m)
  | .modify key change => do
      let (held, m) ← m.modify key change
      return (.value held, m)
  | .lookup key read => return (.seen (← m.lookup key read), m)
  | .contains key => return (.truth (← m.contains key), m)
  | .first => return (.entry (← m.first?), m)
  | .last => return (.entry (← m.last?), m)
  | .size => return (.count m.size, m)
  | .isEmpty => return (.truth m.isEmpty, m)
  | .entries side => return (.row (← m.entries side), m)
  | .clear => return (.done, m.clear)

def run (m : OrderedMap K V policy) : List (Op K V α) → Traced (List (Answer K V α) × OrderedMap K V policy)
  | [] => return ([], m)
  | op :: rest => do
      let (answer, m) ← m.perform op
      let (answers, m) ← m.run rest
      return (answer :: answers, m)

section
variable {m m' : OrderedMap K V policy} {op : Op K V α} {answer : Answer K V α}

theorem runOk (first : (m.perform op).result = .ok (answer, m')) (rest : List (Op K V α)) :
    (m.run (op :: rest)).result = (m'.run rest).result.map fun (answers, last) => (answer :: answers, last) := by
  rw [run, Traced.resultBind, first]
  show ((m'.run rest) >>= _).result = _
  rw [Traced.resultBind]
  rfl

theorem runError {fault : Fault} (first : (m.perform op).result = .error fault) (rest : List (Op K V α)) :
    (m.run (op :: rest)).result = .error fault := by
  rw [run, Traced.resultBind, first]
  rfl

end

end OrderedMap

namespace Row
variable {K V α : Type}

def held? (order : K → Ordering) (row : List (K × V)) : Option (K × V) := row.find? fun e => order e.1 = .eq

def insert (order : K → Ordering) (entry : K × V) : List (K × V) → List (K × V)
  | [] => [entry]
  | e :: rest => if order e.1 = .gt then e :: insert order entry rest else entry :: e :: rest

def erase (order : K → Ordering) (row : List (K × V)) : List (K × V) := row.filter fun e => order e.1 ≠ .eq

def modify (order : K → Ordering) (change : V → V) (row : List (K × V)) : List (K × V) :=
  row.map fun e => if order e.1 = .eq then (e.1, change e.2) else e

def perform (policy : Policy K) (row : List (K × V)) : Op K V α → Answer K V α × List (K × V)
  | .insert key value =>
      match held? (policy key) row with
      | some _ => (.inserted (.error .duplicateKey), row)
      | none => (.inserted (.ok ()), insert (policy key) (key, value) row)
  | .remove key =>
      match held? (policy key) row with
      | some e => (.removed (.ok e.2), erase (policy key) row)
      | none => (.removed (.error .notFound), row)
  | .removeEntry key =>
      match held? (policy key) row with
      | some e => (.removedEntry (.ok e), erase (policy key) row)
      | none => (.removedEntry (.error .notFound), row)
  | .get key => (.value ((held? (policy key) row).map Prod.snd), row)
  | .modify key change => (.value ((held? (policy key) row).map Prod.snd), modify (policy key) change row)
  | .lookup key read => (.seen ((held? (policy key) row).map fun e => read e.2), row)
  | .contains key => (.truth (held? (policy key) row).isSome, row)
  | .first => (.entry row.head?, row)
  | .last => (.entry row.getLast?, row)
  | .size => (.count row.length, row)
  | .isEmpty => (.truth row.isEmpty, row)
  | .entries .right => (.row row, row)
  | .entries .left => (.row row.reverse, row)
  | .clear => (.done, [])

def run (policy : Policy K) (row : List (K × V)) : List (Op K V α) → List (Answer K V α)
  | [] => []
  | op :: rest => (perform policy row op).1 :: run policy (perform policy row op).2 rest

theorem lengthInsert (order : K → Ordering) (entry : K × V) (row : List (K × V)) :
    (insert order entry row).length = row.length + 1 := by
  induction row with
  | nil => rfl
  | cons e rest ih =>
      rw [insert]
      split
      · rw [List.length_cons, ih, List.length_cons]
      · rfl

theorem keysModify (order : K → Ordering) (change : V → V) (row : List (K × V)) :
    (modify order change row).map Prod.fst = row.map Prod.fst := by
  rw [modify, List.map_map]
  refine List.map_congr_left fun e _ => ?_
  by_cases equal : order e.1 = .eq <;> simp [equal]

theorem modifyNone {order : K → Ordering} {row : List (K × V)} (unequal : ∀ e ∈ row, order e.1 ≠ .eq) (change : V → V) :
    modify order change row = row := by
  rw [modify, List.map_congr_left fun e member => if_neg (unequal e member), List.map_id']

variable {order : K → Ordering} {front behind : List (K × V)} {entry : K × V}

section
variable (greater : ∀ e ∈ front, order e.1 = .gt) (less : ∀ e ∈ behind, order e.1 = .lt)
include greater less

theorem insertGap (entry : K × V) : insert order entry (front ++ behind) = front ++ entry :: behind := by
  induction front with
  | nil =>
      cases behind with
      | nil => rfl
      | cons e rest => simp [insert, less e List.mem_cons_self]
  | cons e rest ih =>
      have here := greater e List.mem_cons_self
      have tail := ih fun e member => greater e (List.mem_cons_of_mem _ member)
      simp [insert, here, tail]

omit less in
theorem heldSingle (equal : order entry.1 = .eq) : held? order (front ++ entry :: behind) = some entry := by
  rw [held?, List.find?_append, List.find?_eq_none.mpr fun e member => by simp [greater e member]]
  simp [equal]

theorem eraseSingle (equal : order entry.1 = .eq) : erase order (front ++ entry :: behind) = front ++ behind := by
  have keepFront : front.filter (fun e => order e.1 ≠ .eq) = front :=
    List.filter_eq_self.mpr fun e member => by simp [greater e member]
  have keepBehind : behind.filter (fun e => order e.1 ≠ .eq) = behind :=
    List.filter_eq_self.mpr fun e member => by simp [less e member]
  rw [erase, List.filter_append, keepFront, List.filter_cons_of_neg (by simp [equal]), keepBehind]

theorem modifySingle (equal : order entry.1 = .eq) (change : V → V) :
    modify order change (front ++ entry :: behind) = front ++ (entry.1, change entry.2) :: behind := by
  have keepFront : modify order change front = front := modifyNone (fun e member => by simp [greater e member]) change
  have keepBehind : modify order change behind = behind := modifyNone (fun e member => by simp [less e member]) change
  rw [modify] at keepFront keepBehind ⊢
  rw [List.map_append, List.map_cons, keepFront, keepBehind, if_pos equal]

end

end Row

end RedBlack
