import Kademlia.Address.Json
import Kademlia.KeyRange

/-!
A range in JSON is an object of its three fields, or, when it is read, also an array of them.
-/
namespace Kademlia.KeyRange
open Json

def toJson (range : KeyRange) : Value :=
  .object [("start", range.start.toJson), ("stop", range.stop.toJson), ("prox", .natural range.prox)]

def element {α : Type} (vs : List Value) (i : Nat) (decode : Value → Except DecodeError α) : Except DecodeError α :=
  match vs[i]? with
  | some v => decode v
  | none => .error (.tooShort vs.length "struct KeyRange with 3 elements")

def ofElements (vs : List Value) : Except DecodeError KeyRange := do
  let start ← element vs 0 Address.ofJson
  let stop ← element vs 1 Address.ofJson
  let prox ← element vs 2 Value.natural?
  if 3 < vs.length then throw (.tooLong vs.length)
  return ⟨start, stop, prox⟩

/-- Reads a range from a value. The fields of an object are looked at in the order of their names, and only then is a
missing one noticed. -/
def ofJson (v : Value) : Except DecodeError KeyRange :=
  match v with
  | .array vs => ofElements vs
  | .object _ => do
    let prox ← v.optionalMember "prox" Value.natural?
    let start ← v.optionalMember "start" Address.ofJson
    let stop ← v.optionalMember "stop" Address.ofJson
    return ⟨← required "start" start, ← required "stop" stop, ← required "prox" prox⟩
  | v => .error (.wrongType v "struct KeyRange")

structure Draft where
  start : Option Address := none
  stop : Option Address := none
  prox : Option Nat := none

def shape : Shape Draft KeyRange where
  fields := [
    ⟨"start", (·.start.isSome), fun t d => return { d with start := some (← Address.ofToken t) }⟩,
    ⟨"stop", (·.stop.isSome), fun t d => return { d with stop := some (← Address.ofToken t) }⟩,
    ⟨"prox", (·.prox.isSome), fun t d => return { d with prox := some (← t.natural) }⟩]
  blank := {}
  finish d := return ⟨← d.start, ← d.stop, ← d.prox⟩

def parseJson (text : String) : Except Fault KeyRange := shape.parse text

end Kademlia.KeyRange
