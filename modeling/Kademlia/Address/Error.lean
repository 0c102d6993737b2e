/-!
Why bytes or a text are refused as an address.
-/
namespace Kademlia

inductive AddressError where
  | invalidLength (expected actual : Nat)
  | invalidEncoding (detail : String)
  deriving DecidableEq

def AddressError.message : AddressError → String
  | .invalidLength expected actual => s!"Invalid address length: expected {expected} bytes, got {actual}"
  | .invalidEncoding detail => "Invalid address encoding: " ++ detail

end Kademlia
