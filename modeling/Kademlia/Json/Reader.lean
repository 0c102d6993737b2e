import Kademlia.Json.Token

/-!
Reading a JSON text into a value. The tokens are taken one after the other; what is open around the place of reading
is kept in a stack.
-/
namespace Kademlia.Json

inductive Awaiting where
  | value
  /-- A value, or the end of an array that is still empty. -/
  | firstElement
  | name
  /-- A name, or the end of an object that is still empty. -/
  | firstName
  | colon
  /-- A comma, or the end of what is open. -/
  | separator
  deriving DecidableEq

/-- An array or object that is being read, its parts in reverse, and the name of the member that comes next. -/
inductive Partial where
  | array (done : List Value)
  | object (done : List (String × Value)) (name : String)

namespace Partial

def add (v : Value) : Partial → Partial
  | .array done => .array (v :: done)
  | .object done name => .object ((name, v) :: done) name

def close : Partial → Value
  | .array done => .array done.reverse
  | .object done _ => .object done.reverse

end Partial

inductive Progress where
  | start
  | within (awaited : Awaiting) (inner : Partial) (outer : List Partial)
  | complete (v : Value)

def Token.scalar : Token → Except Fault Value
  | .word (.ok .null) => .ok .null
  | .word (.ok .true) => .ok (.bool true)
  | .word (.ok .false) => .ok (.bool false)
  | .word (.error f) => .error f
  | .text ps f => (joined ps f).map fun s => .string (String.ofList s)
  | .number (.ok n) =>
    match n.number? with
    | some n => .ok (.number n)
    | none => .error .malformed
  | .number (.error f) => .error f
  | .mark _ | .stray => .error .malformed

namespace Progress

def after (v : Value) : List Partial → Progress
  | [] => .complete v
  | p :: outer => .within .separator (p.add v) outer

def room? : Progress → Option (List Partial)
  | .start => some []
  | .within .value p outer | .within .firstElement p outer => some (p :: outer)
  | _ => none

def enter (outer : List Partial) : Token → Except Fault Progress
  | .mark .openList => .ok (.within .firstElement (.array []) outer)
  | .mark .openRecord => .ok (.within .firstName (.object [] "") outer)
  | t => t.scalar.map (after · outer)

def step (p : Progress) (t : Token) : Except Fault Progress :=
  match t, p with
  | .mark .closeList, .within .firstElement (.array done) outer
  | .mark .closeList, .within .separator (.array done) outer => .ok (after (Partial.array done).close outer)
  | .mark .closeRecord, .within .firstName (.object done name) outer
  | .mark .closeRecord, .within .separator (.object done name) outer =>
    .ok (after (Partial.object done name).close outer)
  | .mark .comma, .within .separator (.array done) outer => .ok (.within .value (.array done) outer)
  | .mark .comma, .within .separator (.object done name) outer => .ok (.within .name (.object done name) outer)
  | .mark .colon, .within .colon inner outer => .ok (.within .value inner outer)
  | .text ps f, .within .name (.object done _) outer
  | .text ps f, .within .firstName (.object done _) outer =>
    (joined ps f).map fun s => .within .colon (.object done (String.ofList s)) outer
  | t, p =>
    match p.room? with
    | some outer => enter outer t
    | none => .error .malformed

end Progress

def Value.parse (s : String) : Except Fault Value :=
  match (tokens s.toList).foldlM Progress.step .start with
  | .ok (.complete v) => .ok v
  | .ok _ => .error .unfinished
  | .error f => .error f

end Kademlia.Json
