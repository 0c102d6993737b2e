import Kademlia.KeyRange

/-!
What an address space reports about its work.
-/
namespace Kademlia

inductive Level where
  | trace
  | debug
  | info
  | warn
  deriving DecidableEq

def Level.name : Level → String
  | .trace => "TRACE"
  | .debug => "DEBUG"
  | .info => "INFO"
  | .warn => "WARN"

inductive Event where
  | created (home : Address) (maxProx : Nat)
  | configLoaded (path : String) (maxProx : Nat)
  | rangeComputed (other : Address) (range : KeyRange)
  | underfilled (count proxBinSize : Nat)
  | clamped (prox : Nat)
  | beyondDepth (bin maxProx : Nat)
  | refreshed (bin : Nat) (target : Address)
  | neighbourhoodRefreshed (bin : Nat) (target : Address)
  deriving DecidableEq

namespace Event

def level : Event → Level
  | created .. | rangeComputed .. | underfilled .. => .debug
  | configLoaded .. => .info
  | clamped .. | beyondDepth .. => .warn
  | refreshed .. | neighbourhoodRefreshed .. => .trace

def message : Event → String
  | created .. => "address space created"
  | configLoaded .. => "loaded address space config"
  | rangeComputed .. => "key range computed"
  | underfilled .. => "neighbourhood bin underfilled"
  | clamped .. => "proximity clamped to address width"
  | beyondDepth .. => "bin beyond neighbourhood depth, targeting neighbourhood"
  | refreshed .. => "refresh target"
  | neighbourhoodRefreshed .. => "neighbourhood refresh target"

inductive Field where
  | text (s : String)
  | number (n : Nat)
  deriving DecidableEq

def Field.address (a : Address) : Field := .text a.toHex

def fields : Event → List (String × Field)
  | created home maxProx => [("local", .address home), ("max_prox", .number maxProx)]
  | configLoaded path maxProx => [("path", .text path), ("max_prox", .number maxProx)]
  | rangeComputed other range =>
    [("other", .address other), ("prox", .number range.prox), ("start", .address range.start),
      ("stop", .address range.stop)]
  | underfilled count proxBinSize => [("count", .number count), ("prox_bin_size", .number proxBinSize)]
  | clamped prox => [("prox", .number prox), ("max", .number 256)]
  | beyondDepth bin maxProx => [("bin", .number bin), ("max_prox", .number maxProx)]
  | refreshed bin target | neighbourhoodRefreshed bin target =>
    [("bin", .number bin), ("target", .address target)]

end Event
end Kademlia
