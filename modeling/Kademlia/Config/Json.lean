import Kademlia.Config
import Kademlia.Json.Decode
import Kademlia.Json.Printer
import Kademlia.Json.Record

/-!
A configuration in JSON is an object of its two fields, or, when it is read, also an array of them; what is missing
has its default. Nothing is said about defects here.
-/
namespace Kademlia.Config
open Json

def toJson (c : Config) : Value :=
  .object [("max_prox", .natural c.maxProx), ("prox_bin_size", .natural c.proxBinSize)]

def ofFields (maxProx proxBinSize : Option Nat) : Config :=
  let default : Config := {}
  ⟨maxProx.getD default.maxProx, proxBinSize.getD default.proxBinSize⟩

def ofJson (v : Value) : Except DecodeError Config :=
  match v with
  | .array vs => do
    let maxProx ← vs[0]?.mapM Value.natural?
    let proxBinSize ← vs[1]?.mapM Value.natural?
    if 2 < vs.length then throw (.tooLong vs.length)
    return ofFields maxProx proxBinSize
  | .object _ => do
    let maxProx ← v.optionalMember "max_prox" Value.natural?
    let proxBinSize ← v.optionalMember "prox_bin_size" Value.natural?
    return ofFields maxProx proxBinSize
  | v => .error (.wrongType v "struct AddressSpaceConfig")

structure Draft where
  maxProx : Option Nat := none
  proxBinSize : Option Nat := none

def shape : Shape Draft Config where
  fields := [
    ⟨"max_prox", (·.maxProx.isSome), fun t d => return { d with maxProx := some (← t.natural) }⟩,
    ⟨"prox_bin_size", (·.proxBinSize.isSome), fun t d => return { d with proxBinSize := some (← t.natural) }⟩]
  blank := {}
  finish d := some (ofFields d.maxProx d.proxBinSize)

def parseJson (text : String) : Except Fault Config := shape.parse text

end Kademlia.Config
