import RedBlack.OrderedMap
import RedBlack.Text.Form

/-! Written forms of the values a reader of a tree sees: names, nodes, cursors, findings and whole maps. -/
namespace RedBlack
open Text (Form)

class Inspect (α : Type) where
  form : α → Form

export Inspect (form)

instance : Inspect Nat := ⟨fun n => .atom (toString n)⟩

instance : Inspect Int := ⟨fun i => .atom (toString i)⟩

instance : Inspect Bool := ⟨fun b => .atom (if b then "true" else "false")⟩

instance : Inspect String := ⟨fun text => .atom (Text.quoted text)⟩

instance {α : Type} [Inspect α] : Inspect (List α) := ⟨fun items => .list (items.map form)⟩

instance {α : Type} [Inspect α] : Inspect (Option α) where
  form
    | none => .atom "None"
    | some a => .tagged "Some" (form a)

instance : Inspect NodeId := ⟨fun id => .tagged "NodeId" (form id.index)⟩

instance : Inspect Color where
  form
    | .red => .atom "Red"
    | .black => .atom "Black"

instance {K V : Type} [Inspect K] [Inspect V] : Inspect (Node K V) where
  form node := .record "Node"
    [("color", form node.color), ("link", form [node.left, node.right]),
      ("key", form node.key), ("value", form node.value)]

instance {σ : Type} : Inspect (Cursor σ) where
  form c := .record "Cursor"
    [("attached", form c.isAttached), ("it", form c.current), ("path", form c.path.reverse)]

instance : Inspect Refusal where
  form
    | .duplicateKey => .atom "DuplicateKey"
    | .notFound => .atom "NotFound"
    | .capacityExceeded limit => .record "CapacityExceeded" [("limit", form limit)]

instance : Inspect Violation where
  form
    | .redRoot => .atom "RedRoot"
    | .redRed parent child => .record "RedRed" [("parent", form parent), ("child", form child)]
    | .blackHeight node left right =>
        .record "BlackHeight" [("node", form node), ("left", form left), ("right", form right)]
    | .order node => .record "Order" [("node", form node)]
    | .tooDeep depth limit => .record "TooDeep" [("depth", form depth), ("limit", form limit)]

def OrderedMap.inspect {K V : Type} {policy : Policy K} [Inspect K] [Inspect V]
    (m : OrderedMap K V policy) : Traced Form := do
  return .map ((← m.entries .right).map fun (key, value) => (form key, form value))

end RedBlack
