import RedBlack.Blueprint
import RedBlack.Text.Json

/-! Blueprints read from documents. A record is an object with a key, a color and up to two subtrees, or
an array of the same things in this order; other fields of an object are passed over. -/
namespace RedBlack.Blueprint
open Text (Json)

def keyOf? : Json → Option Int
  | .number (some key) => if -2147483648 ≤ key ∧ key ≤ 2147483647 then some key else none
  | _ => none

def colorNamed? : Option String → Option Color
  | some "red" => some .red
  | some "black" => some .black
  | _ => none

def colorOf? : Json → Option Color
  | .text name => colorNamed? name
  | .object [(name, .null)] => colorNamed? name
  | _ => none

structure Draft where
  key : Option Int
  color : Option Color
  left : Option Blueprint
  right : Option Blueprint

def Draft.finish? (d : Draft) : Option Blueprint := do
  return node (← d.color) (← d.key) (d.left.getD absent) (d.right.getD absent)

def claim? {α : Type} (field : Option α) (value : Option α) : Option α :=
  if field.isSome then none else value

mutual

def ofJson? : Json → Option Blueprint
  | .null => some absent
  | .object fields => do (← ofFields? ⟨none, none, none, none⟩ fields).finish?
  | .array [key, color] => do return node (← colorOf? color) (← keyOf? key) absent absent
  | .array [key, color, left] => do
      return node (← colorOf? color) (← keyOf? key) (← ofJson? left) absent
  | .array [key, color, left, right] => do
      return node (← colorOf? color) (← keyOf? key) (← ofJson? left) (← ofJson? right)
  | _ => none

def ofFields? (d : Draft) : List (Option String × Json) → Option Draft
  | [] => some d
  | (none, _) :: _ => none
  | (some "key", value) :: rest => do
      ofFields? { d with key := ← claim? d.key (keyOf? value) } rest
  | (some "color", value) :: rest => do
      ofFields? { d with color := ← claim? d.color (colorOf? value) } rest
  | (some "left", value) :: rest => do
      ofFields? { d with left := ← claim? d.left (ofJson? value) } rest
  | (some "right", value) :: rest => do
      ofFields? { d with right := ← claim? d.right (ofJson? value) } rest
  | (some _, _) :: rest => ofFields? d rest

end

def read? (source : String) : Option Blueprint := do
  match ← Json.read? source with
  | .null => none
  | document => ofJson? document

end RedBlack.Blueprint
