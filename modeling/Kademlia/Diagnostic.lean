import Kademlia.ByteSource.Constant
import Kademlia.ByteSource.Script
import Kademlia.Space

/-!
The diagnostic text of values: the name of a type, and its contents in brackets.
-/
namespace Kademlia

class Diagnostic (α : Type) where
  debug : α → String

namespace Diagnostic

def wrapped (name content : String) : String := name ++ "(" ++ content ++ ")"

def fields (name : String) (fs : List (String × String)) : String :=
  name ++ " \x7b " ++ ", ".intercalate (fs.map fun (field, content) => field ++ ": " ++ content) ++ " \x7d"

instance : Diagnostic Nat := ⟨toString⟩
instance : Diagnostic UInt8 := ⟨fun b => toString b.toNat⟩
instance : Diagnostic String := ⟨Text.quoted⟩

instance {α : Type} [Diagnostic α] : Diagnostic (List α) :=
  ⟨fun as => "[" ++ ", ".intercalate (as.map debug) ++ "]"⟩

instance : Diagnostic Address := ⟨fun a => wrapped "Address" a.toHex⟩

instance : Diagnostic KeyRange :=
  ⟨fun range => fields "KeyRange"
    [("start", debug range.start), ("stop", debug range.stop), ("prox", debug range.prox)]⟩

instance : Diagnostic Config :=
  ⟨fun c => fields "AddressSpaceConfig"
    [("max_prox", debug c.maxProx), ("prox_bin_size", debug c.proxBinSize)]⟩

instance : Diagnostic Script :=
  ⟨fun s => fields "FixedByteSource" [("bytes", debug s.bytes), ("cursor", debug s.cursor)]⟩

instance : Diagnostic Constant := ⟨fun s => wrapped "ConstantFill" (debug s.byte)⟩

instance {σ : Type} [Diagnostic σ] : Diagnostic (Space σ) :=
  ⟨fun s => fields "AddressSpace"
    [("local", debug s.home), ("config", debug s.config), ("source", debug s.source)]⟩

instance : Diagnostic AddressError :=
  ⟨fun
    | .invalidLength expected actual =>
      fields "InvalidLength" [("expected", debug expected), ("actual", debug actual)]
    | .invalidEncoding detail => wrapped "InvalidEncoding" (debug detail)⟩

instance : Diagnostic ConfigError :=
  ⟨fun
    | .unreadable path detail => fields "Io" [("path", debug path), ("error", debug detail)]
    | .malformed detail => wrapped "Parse" (debug detail)
    | .invalid detail => wrapped "Invalid" (debug detail)⟩

end Diagnostic
end Kademlia
