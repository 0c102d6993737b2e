import Kademlia.Json.Reader

/-!
Reading a JSON text as a record with known fields: an object, whose other members are passed over, or an array of the
fields in order. The tokens are taken one after the other, and the first that does not fit decides what is wrong.
-/
namespace Kademlia.Json

/-! ### Passing over a value -/

inductive Frame where
  | array
  | object
  deriving DecidableEq

/-- The place inside a value that nobody wants, with what is open there, the innermost first. -/
structure Passing where
  awaited : Awaiting
  frames : List Frame
  deriving DecidableEq

namespace Passing

def start : Passing := ⟨.value, []⟩

def finished (p : Passing) : Bool := p.awaited = .separator && p.frames.isEmpty

/-- Takes a token where a value may stand. Numbers may have any size here and strings any units. -/
def enter (frames : List Frame) : Token → Except Fault Passing
  | .mark .openList => .ok ⟨.firstElement, .array :: frames⟩
  | .mark .openRecord => .ok ⟨.firstName, .object :: frames⟩
  | .word (.ok _) | .text _ none | .number (.ok _) => .ok ⟨.separator, frames⟩
  | .word (.error f) | .text _ (some f) => .error f
  | .number (.error _) | .mark _ | .stray => .error .malformed

def enterName (frames : List Frame) : Token → Except Fault Passing
  | .text _ none => .ok ⟨.colon, frames⟩
  | .text _ (some f) => .error f
  | _ => .error .malformed

def step (p : Passing) (t : Token) : Except Fault Passing :=
  match t, p.awaited, p.frames with
  | .mark .closeList, .firstElement, .array :: frames | .mark .closeList, .separator, .array :: frames
  | .mark .closeRecord, .firstName, .object :: frames | .mark .closeRecord, .separator, .object :: frames =>
    .ok ⟨.separator, frames⟩
  | .mark .comma, .separator, .array :: frames => .ok ⟨.value, .array :: frames⟩
  | .mark .comma, .separator, .object :: frames => .ok ⟨.name, .object :: frames⟩
  | .mark .colon, .colon, frames => .ok ⟨.value, frames⟩
  | t, .value, frames | t, .firstElement, frames => enter frames t
  | t, .name, frames | t, .firstName, frames => enterName frames t
  | _, .colon, _ | _, .separator, _ => .error .malformed

end Passing

/-! ### Single tokens -/

/-- The fault of a token where a value of another kind is wanted. A scalar is read to its end before it is refused. -/
def Token.refusal : Token → Fault
  | .mark .openList | .mark .openRecord => .unsuitable
  | t =>
    match t.scalar with
    | .ok _ => .unsuitable
    | .error f => f

def Token.natural (t : Token) : Except Fault Nat :=
  match t.scalar with
  | .ok (.number (.integer (.ofNat n))) => .ok n
  | _ => .error t.refusal

def Token.string (t : Token) : Except Fault String :=
  match t.scalar with
  | .ok (.string s) => .ok s
  | _ => .error t.refusal

/-! ### Records -/

structure Field (δ : Type) where
  name : String
  present : δ → Bool
  read : Token → δ → Except Fault δ

/-- A record with its fields in order. A draft becomes a record if no field is missing that has to be there. -/
structure Shape (δ α : Type) where
  fields : List (Field δ)
  blank : δ
  finish : δ → Option α

inductive Stage (δ α : Type) where
  | start
  /-- Before the first element of an array. -/
  | firstElement (left : List (Field δ)) (d : δ)
  /-- Behind an element. -/
  | nextElement (left : List (Field δ)) (d : δ)
  /-- Behind a comma of an array. -/
  | element (f : Field δ) (left : List (Field δ)) (d : δ)
  | firstName (d : δ)
  /-- Behind a member. -/
  | nextName (d : δ)
  /-- Behind a comma of an object. -/
  | name (d : δ)
  | colon (f : Option (Field δ)) (d : δ)
  | member (f : Field δ) (d : δ)
  | passing (p : Passing) (d : δ)
  | complete (a : α)

namespace Shape
variable {δ α : Type} (s : Shape δ α)

def complete (d : δ) : Except Fault (Stage δ α) :=
  match s.finish d with
  | some a => .ok (.complete a)
  | none => .error .unsuitable

def enterName (d : δ) : Token → Except Fault (Stage δ α)
  | .text ps f =>
    match joined ps f with
    | .error f => .error f
    | .ok name =>
      match s.fields.find? fun f => f.name.toList = name with
      | none => .ok (.colon none d)
      | some f => if f.present d then .error .unsuitable else .ok (.colon (some f) d)
  | _ => .error .malformed

def enterElement (f : Field δ) (left : List (Field δ)) (d : δ) (t : Token) : Except Fault (Stage δ α) :=
  (f.read t d).map (.nextElement left)

def step : Stage δ α → Token → Except Fault (Stage δ α)
  | .start, .mark .openList => .ok (.firstElement s.fields s.blank)
  | .start, .mark .openRecord => .ok (.firstName s.blank)
  | .start, t => .error t.refusal
  | .firstElement _ d, .mark .closeList | .nextElement _ d, .mark .closeList => s.complete d
  | .firstElement (f :: left) d, t | .element f left d, t => enterElement f left d t
  | .nextElement (f :: left) d, .mark .comma => .ok (.element f left d)
  | .firstName d, .mark .closeRecord | .nextName d, .mark .closeRecord => s.complete d
  | .firstName d, t | .name d, t => s.enterName d t
  | .nextName d, .mark .comma => .ok (.name d)
  | .colon none d, .mark .colon => .ok (.passing .start d)
  | .colon (some f) d, .mark .colon => .ok (.member f d)
  | .member f d, t => (f.read t d).map .nextName
  | .passing p d, t => (p.step t).map fun p => if p.finished then .nextName d else .passing p d
  | .firstElement [] _, _ | .nextElement _ _, _ | .nextName _, _ | .colon _ _, _ | .complete _, _ =>
    .error .malformed

def parse (text : String) : Except Fault α :=
  match (tokens text.toList).foldlM s.step .start with
  | .ok (.complete a) => .ok a
  | .ok _ => .error .unfinished
  | .error f => .error f

end Shape

def parseScalar {α : Type} (read : Token → Except Fault α) (text : String) : Except Fault α :=
  match tokens text.toList with
  | [] => .error .unfinished
  | [t] => read t
  | t :: _ :: _ => (read t).bind fun _ => .error .malformed

end Kademlia.Json
