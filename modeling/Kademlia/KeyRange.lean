import Kademlia.Address.Text
import Kademlia.Generation

/-!
Ranges of addresses between two ends, both of them included.
-/
namespace Kademlia

structure KeyRange where
  start : Address
  stop : Address
  /-- The number of leading bits that the addresses of the range share. -/
  prox : Nat
  deriving DecidableEq

namespace KeyRange

instance : Membership Address KeyRange :=
  ⟨fun range a => range.start.bytes ≤ a.bytes ∧ a.bytes ≤ range.stop.bytes⟩

theorem mem_def {range : KeyRange} {a : Address} :
    a ∈ range ↔ range.start.bytes ≤ a.bytes ∧ a.bytes ≤ range.stop.bytes := Iff.rfl

instance (a : Address) (range : KeyRange) : Decidable (a ∈ range) :=
  inferInstanceAs (Decidable (range.start.bytes ≤ a.bytes ∧ a.bytes ≤ range.stop.bytes))

end KeyRange

/-- The addresses that begin as `one` does, as far as `other` shares its bits and at most `limit` of them. -/
def Address.keyRange (one other : Address) (limit : Nat) : KeyRange :=
  let prox := min (min (one.proximity other) limit) 256
  ⟨one.commonBitsFilled other prox 0x00, one.commonBitsFilled other prox 0xff, prox⟩

end Kademlia
