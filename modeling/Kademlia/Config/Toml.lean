import Kademlia.Config
import Kademlia.Toml.Reader

/-!
A configuration in TOML is the table `address_space` of a document, with a key for each of its two fields. What is
missing has its default, and other keys are ignored.
-/
namespace Kademlia.Config
open Toml

def tableName : String := "address_space"
def maxProxKey : String := "max_prox"
def proxBinSizeKey : String := "prox_bin_size"

structure Mistyped where
  name : String

def Mistyped.message (m : Mistyped) : String := m.name ++ " has not the right type"

def naturalOr (default : Nat) (name : String) : Option Value → Except Mistyped Nat
  | none => .ok default
  | some (.integer (.ofNat n)) => .ok n
  | some _ => .error ⟨name⟩

def ofValues (maxProx proxBinSize : Option Value) : Except Mistyped Config := do
  let default : Config := {}
  return ⟨← naturalOr default.maxProx maxProxKey maxProx,
    ← naturalOr default.proxBinSize proxBinSizeKey proxBinSize⟩

/-- Reads a configuration from its table. It may also be an array of the two fields, and a moment counts as a table
without keys. -/
def ofTable : Option Value → Except Mistyped Config
  | none | some (.moment _) => .ok {}
  | some (.table _ es) => ofValues (es.lookup maxProxKey) (es.lookup proxBinSizeKey)
  | some (.array vs) => ofValues vs[0]? vs[1]?
  | some _ => .error ⟨tableName⟩

def ofToml (es : Entries) : Except Mistyped Config := ofTable (es.lookup tableName)

end Kademlia.Config
