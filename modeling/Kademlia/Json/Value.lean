/-!
JSON values.
-/
namespace Kademlia.Json

/-- A number is an integer that fits 64 bits, or else a decimal `significand * 10 ^ exponent` with a sign, which also
zero has. -/
inductive Number where
  | integer (i : Int)
  | decimal (negative : Bool) (significand : Nat) (exponent : Int)
  deriving DecidableEq

/-- The members of an object stand in the order of the text, repeated names included. -/
inductive Value where
  | null
  | bool (b : Bool)
  | number (n : Number)
  | string (s : String)
  | array (vs : List Value)
  | object (ms : List (String × Value))

namespace Value

def natural (n : Nat) : Value := .number (.integer n)

def members : Value → List (String × Value)
  | .object ms => ms
  | _ => []

/-- The member of a name; of several the last counts. -/
def member? (v : Value) (name : String) : Option Value :=
  v.members.reverse.lookup name

end Value
end Kademlia.Json
