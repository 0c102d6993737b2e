import Kademlia.Config
import Kademlia.Event

/-!
The address space as seen from one address: the routing bins around it, the ranges towards others, and new addresses
for its bins. Each operation answers, reports events, and leaves the space with the rest of its byte source.
-/
namespace Kademlia

structure Space (σ : Type) where
  /-- The address that all bins and distances are relative to. -/
  home : Address
  config : Config
  source : σ
  usable : config.defect? = none

namespace Space
variable {σ : Type}

def create (home : Address) (config : Config) (source : σ) : Except ConfigError (Space σ × List Event) :=
  match config.checked with
  | .ok ⟨config, usable⟩ => .ok (⟨home, config, source, usable⟩, [.created home config.maxProx])
  | .error e => .error e

def fromProvider {π : Type} [ConfigProvider π] (home : Address) (provider : π) (source : σ) :
    Except ConfigError (Space σ × List Event) :=
  create home (ConfigProvider.config provider) source

def proximityTo (s : Space σ) (other : Address) : Nat := s.home.proximity other

def binOf (s : Space σ) (other : Address) : Nat := s.config.binFor (s.proximityTo other)

def compare (s : Space σ) (a b : Address) : Ordering := s.home.compareToward a b

def closest (s : Space σ) (candidates : List Address) (k : Nat) : List Address := s.home.closest candidates k

def keyRangeWithLimit (s : Space σ) (other : Address) (limit : Nat) : KeyRange × List Event :=
  let range := s.home.keyRange other limit
  (range, [.rangeComputed other range])

def keyRangeTo (s : Space σ) (other : Address) : KeyRange × List Event :=
  s.keyRangeWithLimit other s.config.maxProx

def neighbours (s : Space σ) (peers : List Address) : List Address :=
  peers.filter fun peer => peer ≠ s.home ∧ s.binOf peer = s.config.maxProx

def neighbourhoodUnderfilled (s : Space σ) (peers : List Address) : Bool × List Event :=
  let count := (s.neighbours peers).length
  if s.config.underfilled count then (true, [.underfilled count s.config.proxBinSize]) else (false, [])

structure Outcome (σ : Type) where
  address : Address
  space : Space σ
  events : List Event

def outcome (s : Space σ) (drawn : Address × σ) (events : List Event) : Outcome σ :=
  ⟨drawn.1, { s with source := drawn.2 }, events⟩

variable [ByteSource σ]

def randomAddressAt (s : Space σ) (prox : Nat) : Outcome σ :=
  s.outcome (s.home.randomAt prox s.source) (if 256 ≤ prox then [.clamped prox] else [])

def randomAddress (s : Space σ) : Outcome σ := s.outcome (Address.random s.source) []

/-- An address that falls into the given routing bin. All bins from the neighbourhood on are the neighbourhood, where
any address will do that shares enough bits with home. -/
def refreshTarget (s : Space σ) (bin : Nat) : Outcome σ :=
  let depth := s.config.maxProx
  if bin < depth then
    let drawn := s.home.randomAt bin s.source
    s.outcome drawn [.refreshed bin drawn.1]
  else
    let drawn := s.home.commonBits s.home depth s.source
    s.outcome drawn
      ((if depth < bin then [.beyondDepth bin depth] else []) ++ [.neighbourhoodRefreshed depth drawn.1])

end Space
end Kademlia
