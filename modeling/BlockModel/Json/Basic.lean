import BlockModel.Failure

/-! JSON values. An object is the list of its members in the order of the text, and a key may be there more
than once; `canonical` is the form in which keys are sorted and only the last member of each is kept. What is
written has no blanks, and inside a string only the quote, the backslash and the control characters are
escaped. -/

namespace BlockModel

/-- A number is whole when it is written without point and exponent and fits 64 bits, signed or
unsigned; every other one is kept in double precision. -/
inductive JsonNumber where
  | int (n : Int)
  | float (x : Binary64)
  deriving DecidableEq, Repr

inductive Json where
  | null
  | bool (b : Bool)
  | number (n : JsonNumber)
  | str (s : String)
  | list (items : List Json)
  | object (members : List (String × Json))
  deriving Repr

namespace JsonNumber

def found : JsonNumber → Found
  | int n => .int n
  | float x => .float x

end JsonNumber

namespace Json

instance : Inhabited Json := ⟨null⟩

/-- How a message names the value. -/
def found : Json → Found
  | null => .null
  | bool b => .bool b
  | number n => n.found
  | str s => .str s
  | list _ => .list
  | object _ => .object

/-- Puts a member in its place among members sorted by key, instead of one with the same key. -/
def insertMember (key : String) (value : Json) : List (String × Json) → List (String × Json)
  | [] => [(key, value)]
  | (k, v) :: rest =>
    if key = k then (key, value) :: rest
    else if key < k then (key, value) :: (k, v) :: rest
    else (k, v) :: insertMember key value rest

mutual
/-- The value with the members of every object sorted by key, the last of each key only. -/
def canonical : Json → Json
  | null => null
  | bool b => bool b
  | number n => number n
  | str s => str s
  | list items => list (canonicalItems items)
  | object members =>
    object ((canonicalMembers members).foldl (fun sorted m => insertMember m.1 m.2 sorted) [])

def canonicalItems : List Json → List Json
  | [] => []
  | item :: rest => item.canonical :: canonicalItems rest

def canonicalMembers : List (String × Json) → List (String × Json)
  | [] => []
  | (key, value) :: rest => (key, value.canonical) :: canonicalMembers rest
end

end Json

namespace Json.Written

/-- A control character in an escape of four hexadecimal digits. -/
def hexEscape (c : Char) : List Char :=
  let digit (n : Nat) : Char := Nat.digitChar n
  ['\\', 'u', '0', '0', digit (c.toNat / 16), digit (c.toNat % 16)]

def escapedChar (c : Char) : List Char :=
  match c with
  | '"' => ['\\', '"']
  | '\\' => ['\\', '\\']
  | '\x08' => ['\\', 'b']
  | '\t' => ['\\', 't']
  | '\n' => ['\\', 'n']
  | '\x0c' => ['\\', 'f']
  | '\r' => ['\\', 'r']
  | c => if c.toNat < 0x20 then hexEscape c else [c]

def string (s : String) : List Char := '"' :: (s.toList.flatMap escapedChar ++ ['"'])

def int (n : Int) : List Char := (toString n).toList

def bool (b : Bool) : List Char := if b then "true".toList else "false".toList

def list (items : List (List Char)) : List Char := '[' :: (Text.joined [','] items ++ [']'])

def object (members : List (String × List Char)) : List Char :=
  '\x7b' :: (Text.joined [','] (members.map fun m => string m.1 ++ ':' :: m.2) ++ ['\x7d'])

end Json.Written

end BlockModel
