import RedBlack.Text.Quoted

/-! The written form of a value, as data. It has two renderings: on one line, and spread out with one item
a line, each level of nesting four blanks deeper and every item followed by a comma. -/
namespace RedBlack.Text

inductive Form where
  | atom (text : String)
  | tagged (tag : String) (content : Form)
  | list (items : List Form)
  | record (name : String) (fields : List (String × Form))
  | map (entries : List (Form × Form))

namespace Form

mutual

def compact : Form → String
  | atom text => text
  | tagged tag content => tag ++ "(" ++ content.compact ++ ")"
  | list items => "[" ++ ", ".intercalate (compactItems items) ++ "]"
  | record name fields => name ++ " \x7b " ++ ", ".intercalate (compactFields fields) ++ " \x7d"
  | map entries => "\x7b" ++ ", ".intercalate (compactEntries entries) ++ "\x7d"

def compactItems : List Form → List String
  | [] => []
  | item :: rest => item.compact :: compactItems rest

def compactFields : List (String × Form) → List String
  | [] => []
  | (name, field) :: rest => (name ++ ": " ++ field.compact) :: compactFields rest

def compactEntries : List (Form × Form) → List String
  | [] => []
  | (key, value) :: rest => (key.compact ++ ": " ++ value.compact) :: compactEntries rest

end

def spread (depth : Nat) (opening closing : String) : List String → String
  | [] => opening ++ closing
  | items =>
      let line (item : String) := "\n" ++ "".pushn ' ' (4 * (depth + 1)) ++ item ++ ","
      opening ++ String.join (items.map line) ++ "\n" ++ "".pushn ' ' (4 * depth) ++ closing

mutual

def prettyAt (depth : Nat) : Form → String
  | atom text => text
  | tagged tag content => spread depth (tag ++ "(") ")" [content.prettyAt (depth + 1)]
  | list items => spread depth "[" "]" (prettyItems (depth + 1) items)
  | record name fields => spread depth (name ++ " \x7b") "\x7d" (prettyFields (depth + 1) fields)
  | map entries => spread depth "\x7b" "\x7d" (prettyEntries (depth + 1) entries)

def prettyItems (depth : Nat) : List Form → List String
  | [] => []
  | item :: rest => item.prettyAt depth :: prettyItems depth rest

def prettyFields (depth : Nat) : List (String × Form) → List String
  | [] => []
  | (name, field) :: rest => (name ++ ": " ++ field.prettyAt depth) :: prettyFields depth rest

def prettyEntries (depth : Nat) : List (Form × Form) → List String
  | [] => []
  | (key, value) :: rest =>
      (key.prettyAt depth ++ ": " ++ value.prettyAt depth) :: prettyEntries depth rest

end

def pretty (form : Form) : String := form.prettyAt 0

end Form

end RedBlack.Text
