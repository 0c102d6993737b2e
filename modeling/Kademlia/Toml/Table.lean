/-!
TOML values, and the tables that the statements of a document build up one after the other.
-/
namespace Kademlia.Toml

/-- What brought a table into being, which decides what may still be added to it. -/
inductive Origin where
  | inline
  | header
  /-- The header of a table inside it. -/
  | implied
  | dotted
  deriving DecidableEq

inductive Value where
  | string (s : String)
  | integer (i : Int)
  | float (spelling : String)
  | boolean (b : Bool)
  | moment (spelling : String)
  | array (vs : List Value)
  | table (origin : Origin) (entries : List (String × Value))
  /-- An array of tables with headers, the latest first. -/
  | tables (ts : List (List (String × Value)))

abbrev Entries := List (String × Value)

inductive Fault where
  /-- The statement that begins on this line is not formed as it should be. -/
  | malformed (line : Nat)
  | duplicate (key : String)
  /-- A key that names something to which nothing can be added. -/
  | closed (key : String)
  deriving DecidableEq

def Fault.message : Fault → String
  | .malformed line => s!"line {line} is not valid"
  | .duplicate key => s!"key {key} is given twice"
  | .closed key => s!"nothing can be added to {key}"

namespace Entries

def update (key : String) (f : Option Value → Except Fault Value) : Entries → Except Fault Entries
  | [] => (f none).map fun v => [(key, v)]
  | (k, v) :: es =>
    if k = key then (f (some v)).map fun v => (k, v) :: es
    else (update key f es).map ((k, v) :: ·)

/-- Adds a pair whose key stands behind a path of dotted keys. The tables on the path are made if they are not there;
one that has a header, or braces, cannot be extended in this way, and neither can the last one if a header implied
it. -/
def put : List String → String → Value → Entries → Except Fault Entries
  | [], key, v => update key fun
    | none => .ok v
    | some _ => .error (.duplicate key)
  | k :: path, key, v => update k fun
    | none => (put path key v []).map (.table .dotted)
    | some (.table .dotted es) => (put path key v es).map (.table .dotted)
    | some (.table .implied es) =>
      if path.isEmpty then .error (.duplicate key) else (put path key v es).map (.table .implied)
    | some (.tables (es :: ts)) =>
      if path.isEmpty then .error (.duplicate key) else (put path key v es).map fun es => .tables (es :: ts)
    | some _ => .error (.closed k)

/-- Changes the table at the end of a path of headers; of an array of tables the latest is meant. The tables on the
path are made if they are not there. -/
def within : List String → (Entries → Except Fault Entries) → Entries → Except Fault Entries
  | [], f => f
  | k :: path, f => update k fun
    | none => (within path f []).map (.table .implied)
    | some (.table .inline _) => .error (.closed k)
    | some (.table origin es) => (within path f es).map (.table origin)
    | some (.tables (es :: ts)) => (within path f es).map fun es => .tables (es :: ts)
    | some _ => .error (.closed k)

/-- Begins a table. It may be there already if only the header of a table inside it implied it. -/
def beginTable (key : String) : Entries → Except Fault Entries :=
  update key fun
    | none => .ok (.table .header [])
    | some (.table .implied es) => .ok (.table .header es)
    | some _ => .error (.duplicate key)

def beginElement (key : String) : Entries → Except Fault Entries :=
  update key fun
    | none => .ok (.tables [[]])
    | some (.tables ts) => .ok (.tables ([] :: ts))
    | some _ => .error (.duplicate key)

end Entries

structure Pair where
  path : List String
  key : String
  value : Value

def Value.ofPairs (ps : List Pair) : Except Fault Value :=
  (ps.foldlM (fun es p => Entries.put p.path p.key p.value es) []).map (.table .inline)

inductive Statement where
  | pair (p : Pair)
  | table (path : List String) (key : String)
  | element (path : List String) (key : String)

structure Document where
  entries : Entries := []
  current : List String := []

namespace Document

def apply (d : Document) : Statement → Except Fault Document
  | .pair p => do
    return { d with entries := ← Entries.within d.current (Entries.put p.path p.key p.value) d.entries }
  | .table path key => return ⟨← Entries.within path (Entries.beginTable key) d.entries, path ++ [key]⟩
  | .element path key => return ⟨← Entries.within path (Entries.beginElement key) d.entries, path ++ [key]⟩

def ofStatements (ss : List Statement) : Except Fault Document := ss.foldlM apply {}

end Document
end Kademlia.Toml
