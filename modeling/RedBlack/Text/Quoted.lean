import RedBlack.Text.Printable

/-! Quoted text: between double quotes, with a backslash before a quote or another backslash, short names
for four control characters, and the code point of any other character that cannot be shown. -/
namespace RedBlack.Text

def codePoint (c : Char) : List Char := '\\' :: 'u' :: '\x7b' :: (Nat.toDigits 16 c.toNat ++ ['\x7d'])

def escape (c : Char) : List Char :=
  match c with
  | '\x00' => ['\\', '0']
  | '\t' => ['\\', 't']
  | '\r' => ['\\', 'r']
  | '\n' => ['\\', 'n']
  | '"' => ['\\', '"']
  | '\\' => ['\\', '\\']
  | c => if isPlain c then [c] else codePoint c

def quoted (text : String) : String := String.ofList ('"' :: (text.toList.flatMap escape ++ ['"']))

end RedBlack.Text
