import Kademlia.Json.Value
import Kademlia.Text.Hex

/-!
The compact text of JSON values: no blanks, the members of an object in their order, and only such characters escaped
as have to be.
-/
namespace Kademlia.Json

def escape (c : Char) : List Char :=
  if c = '"' then ['\\', '"']
  else if c = '\\' then ['\\', '\\']
  else if c = '\x08' then ['\\', 'b']
  else if c = '\x0c' then ['\\', 'f']
  else if c = '\n' then ['\\', 'n']
  else if c = '\r' then ['\\', 'r']
  else if c = '\t' then ['\\', 't']
  else if c.toNat < 32 then ['\\', 'u', '0', '0', Text.Hex.digit (c.toNat / 16), Text.Hex.digit (c.toNat % 16)]
  else [c]

def quote (s : List Char) : List Char := '"' :: s.flatMap escape ++ ['"']

def integerChars (i : Int) : List Char :=
  if i < 0 then '-' :: Nat.toDigits 10 i.natAbs else Nat.toDigits 10 i.natAbs

def Number.chars : Number → List Char
  | .integer i => integerChars i
  | .decimal negative significand exponent =>
    (if negative then ['-'] else []) ++ Nat.toDigits 10 significand ++ 'e' :: integerChars exponent

namespace Value

mutual

def chars : Value → List Char
  | .null => ['n', 'u', 'l', 'l']
  | .bool true => ['t', 'r', 'u', 'e']
  | .bool false => ['f', 'a', 'l', 's', 'e']
  | .number n => n.chars
  | .string s => quote s.toList
  | .array [] => ['[', ']']
  | .array (v :: vs) => '[' :: v.chars ++ elementChars vs ++ [']']
  | .object [] => ['\x7b', '\x7d']
  | .object ((name, v) :: ms) =>
    '\x7b' :: quote name.toList ++ ':' :: v.chars ++ memberChars ms ++ ['\x7d']

def elementChars : List Value → List Char
  | [] => []
  | v :: vs => ',' :: v.chars ++ elementChars vs

def memberChars : List (String × Value) → List Char
  | [] => []
  | (name, v) :: ms => ',' :: quote name.toList ++ ':' :: v.chars ++ memberChars ms

end

def render (v : Value) : String := String.ofList v.chars

end Value
end Kademlia.Json
