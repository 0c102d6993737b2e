import Kademlia.Decimal.Shortest
import Kademlia.Json.Value
import Kademlia.Text.Quoted

/-!
What a JSON value can have against being taken for something else, and how this is said.
-/
namespace Kademlia.Json

inductive DecodeError where
  | wrongType (found : Value) (expected : String)
  | outOfRange (found : Int) (expected : String)
  | missingField (name : String)
  | tooShort (length : Nat) (expected : String)
  | tooLong (length : Nat)
  | content (detail : String)

def Number.describe : Number → String
  | .integer i => s!"integer `{i}`"
  | .decimal negative significand exponent =>
    let b := (Decimal.Binary.ofDecimal significand exponent).getD .zero
    "floating point `" ++ Decimal.text negative b ++ "`"

def Value.describe : Value → String
  | .null => "null"
  | .bool b => s!"boolean `{b}`"
  | .number n => n.describe
  | .string s => "string " ++ Text.quoted s
  | .array _ => "sequence"
  | .object _ => "map"

def DecodeError.message : DecodeError → String
  | .wrongType found expected => "invalid type: " ++ found.describe ++ ", expected " ++ expected
  | .outOfRange found expected => s!"invalid value: integer `{found}`, expected {expected}"
  | .missingField name => s!"missing field `{name}`"
  | .tooShort length expected => s!"invalid length {length}, expected {expected}"
  | .tooLong length => s!"invalid length {length}, expected fewer elements in array"
  | .content detail => detail

namespace Value

def natural? : Value → Except DecodeError Nat
  | .number (.integer (.ofNat n)) => .ok n
  | .number (.integer i) => .error (.outOfRange i "usize")
  | v => .error (.wrongType v "usize")

def optionalMember {α : Type} (v : Value) (name : String) (decode : Value → Except DecodeError α) :
    Except DecodeError (Option α) :=
  match v.member? name with
  | some m => (decode m).map some
  | none => .ok none

end Value

def required {α : Type} (name : String) : Option α → Except DecodeError α
  | some a => .ok a
  | none => .error (.missingField name)

end Kademlia.Json
