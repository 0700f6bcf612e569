/-! Documents of nested values as text. The reader keeps what its callers tell apart: whether a number is
whole, whether a string can be spelled at all, and every field of an object in the order given. -/
namespace RedBlack.Text

inductive Json where
  | null
  | bool (value : Bool)
  | number (whole : Option Int)
  | text (value : Option String)
  | array (items : List Json)
  | object (fields : List (Option String × Json))

namespace Json

def isBlank (c : Char) : Bool := c = ' ' || c = '\n' || c = '\t' || c = '\r'

def skipBlanks (cs : List Char) : List Char := cs.dropWhile isBlank

inductive Piece where
  | char (c : Char)
  | unit (code : Nat)

def hexDigit? (c : Char) : Option Nat :=
  if '0' ≤ c ∧ c ≤ '9' then some (c.toNat - '0'.toNat)
  else if 'a' ≤ c ∧ c ≤ 'f' then some (c.toNat - 'a'.toNat + 10)
  else if 'A' ≤ c ∧ c ≤ 'F' then some (c.toNat - 'A'.toNat + 10)
  else none

def unit? (a b c d : Char) : Option Nat := do
  return ((← hexDigit? a) * 16 + (← hexDigit? b)) * 256 + (← hexDigit? c) * 16 + (← hexDigit? d)

def escaped? : Char → Option Char
  | '"' => some '"'
  | '\\' => some '\\'
  | '/' => some '/'
  | 'b' => some '\x08'
  | 'f' => some '\x0c'
  | 'n' => some '\n'
  | 'r' => some '\r'
  | 't' => some '\t'
  | _ => none

def pieces : List Char → Option (List Piece × List Char)
  | [] => none
  | '"' :: rest => some ([], rest)
  | '\\' :: 'u' :: a :: b :: c :: d :: rest => do
      let code ← unit? a b c d
      let (more, rest) ← pieces rest
      return (.unit code :: more, rest)
  | '\\' :: c :: rest => do
      let c ← escaped? c
      let (more, rest) ← pieces rest
      return (.char c :: more, rest)
  | c :: rest => do
      if c.toNat < 0x20 then none
      let (more, rest) ← pieces rest
      return (.char c :: more, rest)

def isLeading (code : Nat) : Bool := 0xd800 ≤ code && code ≤ 0xdbff

def isTrailing (code : Nat) : Bool := 0xdc00 ≤ code && code ≤ 0xdfff

def spell? : List Piece → Option (List Char)
  | [] => some []
  | .char c :: rest => (spell? rest).map (c :: ·)
  | .unit lead :: .unit trail :: rest =>
      if isLeading lead then
        if isTrailing trail then
          (spell? rest).map (Char.ofNat (0x10000 + (lead - 0xd800) * 0x400 + (trail - 0xdc00)) :: ·)
        else none
      else if isTrailing lead then none
      else (spell? (.unit trail :: rest)).map (Char.ofNat lead :: ·)
  | .unit code :: rest =>
      if isLeading code || isTrailing code then none else (spell? rest).map (Char.ofNat code :: ·)

def readString (cs : List Char) : Option (Option String × List Char) :=
  (pieces cs).map fun (found, rest) => ((spell? found).map String.ofList, rest)

def isDigit (c : Char) : Bool := '0' ≤ c && c ≤ '9'

def ofDigits (digits : List Char) : Nat := digits.foldl (fun n c => n * 10 + (c.toNat - '0'.toNat)) 0

def readDigits (cs : List Char) : Option (List Char × List Char) :=
  match cs.span isDigit with
  | ([], _) => none
  | found => some found

def readWhole : List Char → Option (Nat × List Char)
  | '0' :: rest => some (0, rest)
  | cs => (readDigits cs).map fun (digits, rest) => (ofDigits digits, rest)

def readFraction : List Char → Option (Bool × List Char)
  | '.' :: rest => (readDigits rest).map fun (_, rest) => (true, rest)
  | cs => some (false, cs)

def skipSign : List Char → List Char
  | '+' :: rest | '-' :: rest => rest
  | cs => cs

def readExponent : List Char → Option (Bool × List Char)
  | 'e' :: rest | 'E' :: rest => (readDigits (skipSign rest)).map fun (_, rest) => (true, rest)
  | cs => some (false, cs)

def readNumber (cs : List Char) : Option (Json × List Char) := do
  let negative := cs.head? = some '-'
  let (whole, rest) ← readWhole (if negative then cs.tail else cs)
  let (fraction, rest) ← readFraction rest
  let (exponent, rest) ← readExponent rest
  if fraction || exponent || (negative && whole = 0) then return (number none, rest)
  return (number (some (if negative then -whole else whole)), rest)

mutual

/-- A value and what follows it. Every step into a value and on to the next one takes a character, so
twice as many steps as there are characters suffice. -/
def readValue : Nat → List Char → Option (Json × List Char)
  | 0, _ => none
  | steps + 1, cs =>
      match skipBlanks cs with
      | 'n' :: 'u' :: 'l' :: 'l' :: rest => some (null, rest)
      | 't' :: 'r' :: 'u' :: 'e' :: rest => some (bool true, rest)
      | 'f' :: 'a' :: 'l' :: 's' :: 'e' :: rest => some (bool false, rest)
      | '"' :: rest => (readString rest).map fun (value, rest) => (text value, rest)
      | '[' :: rest =>
          match skipBlanks rest with
          | ']' :: rest => some (array [], rest)
          | rest => (readItems steps rest).map fun (items, rest) => (array items, rest)
      | '\x7b' :: rest =>
          match skipBlanks rest with
          | '\x7d' :: rest => some (object [], rest)
          | rest => (readFields steps rest).map fun (fields, rest) => (object fields, rest)
      | rest => readNumber rest

def readItems : Nat → List Char → Option (List Json × List Char)
  | 0, _ => none
  | steps + 1, cs => do
      let (item, rest) ← readValue steps cs
      match skipBlanks rest with
      | ',' :: rest =>
          let (more, rest) ← readItems steps rest
          return (item :: more, rest)
      | ']' :: rest => return ([item], rest)
      | _ => none

def readFields : Nat → List Char → Option (List (Option String × Json) × List Char)
  | 0, _ => none
  | steps + 1, cs => do
      let '"' :: rest := skipBlanks cs | none
      let (name, rest) ← readString rest
      let ':' :: rest := skipBlanks rest | none
      let (value, rest) ← readValue steps rest
      match skipBlanks rest with
      | ',' :: rest =>
          let (more, rest) ← readFields steps rest
          return ((name, value) :: more, rest)
      | '\x7d' :: rest => return ([(name, value)], rest)
      | _ => none

end

def read? (source : String) : Option Json := do
  let cs := source.toList
  let (value, rest) ← readValue (2 * cs.length + 2) cs
  if skipBlanks rest = [] then return value else none

end Json

end RedBlack.Text
