import Kademlia.Proofs.KeyRange
import Kademlia.Space

/-!
Routing bins and the key ranges around home decide the same sets of addresses, and a refresh target lies in the bin
it was asked for.
-/
namespace Kademlia.Space
variable {σ : Type}

theorem maxProx_le (s : Space σ) : s.config.maxProx ≤ 256 :=
  (Config.defect?_eq_none.mp s.usable).1

theorem maxProx_le_proximity_home (s : Space σ) : s.config.maxProx ≤ s.home.proximity s.home := by
  rw [Address.proximity_self]
  exact s.maxProx_le

theorem binOf_eq_min (s : Space σ) (other : Address) :
    s.binOf other = min (s.home.proximity other) s.config.maxProx := rfl

theorem binOf_le (s : Space σ) (peer : Address) : s.binOf peer ≤ s.config.maxProx :=
  Nat.min_le_right _ _

theorem binOf_eq_maxProx_iff_mem (s : Space σ) (peer : Address) :
    s.binOf peer = s.config.maxProx ↔ peer ∈ s.home.keyRange s.home s.config.maxProx := by
  rw [Address.mem_keyRange, Address.keyRange_self_prox _ s.maxProx_le, binOf_eq_min, min_eq_right_iff]

theorem keyRangeTo_prox (s : Space σ) (other : Address) : (s.keyRangeTo other).1.prox = s.binOf other :=
  Address.keyRange_prox s.home other s.config.maxProx

/-- A peer lies in the range towards another address when its bin is at least as deep. -/
theorem mem_keyRangeTo_iff (s : Space σ) (other peer : Address) :
    peer ∈ (s.keyRangeTo other).1 ↔ s.binOf other ≤ s.binOf peer := by
  have hmem : peer ∈ (s.keyRangeTo other).1 ↔ (s.keyRangeTo other).1.prox ≤ s.home.proximity peer :=
    Address.mem_keyRange
  rw [hmem, keyRangeTo_prox, binOf_eq_min, binOf_eq_min]
  omega

variable [ByteSource σ]

/-- A target is found in the bin it was asked for, or in the neighbourhood if the bin is beyond it. -/
theorem binOf_refreshTarget (s : Space σ) (bin : Nat) :
    s.binOf (s.refreshTarget bin).address = min bin s.config.maxProx := by
  have hdepth := s.maxProx_le
  rw [binOf_eq_min]
  by_cases hbin : bin < s.config.maxProx
  · have hprox : s.home.proximity (s.refreshTarget bin).address = min bin 256 := by
      simp only [refreshTarget, if_pos hbin, outcome]
      exact Address.proximity_randomAt s.home bin s.source
    rw [hprox]
    omega
  · have hprox : s.config.maxProx ≤ s.home.proximity (s.refreshTarget bin).address := by
      simp only [refreshTarget, if_neg hbin, outcome]
      exact Address.le_proximity_commonBits s.maxProx_le_proximity_home s.source
    omega

/-- The range towards an address and the bins around home agree on every peer and on every refresh target. -/
theorem keyRangeTo_agrees_with_bins (s : Space σ) (other peer : Address) (bin : Nat) :
    (s.keyRangeTo other).1.prox = s.binOf other ∧
      (peer ∈ (s.keyRangeTo other).1 ↔ s.binOf other ≤ s.binOf peer) ∧
      ((s.refreshTarget bin).address ∈ (s.keyRangeTo other).1 ↔ s.binOf other ≤ min bin s.config.maxProx) := by
  have htarget : (s.refreshTarget bin).address ∈ (s.keyRangeTo other).1 ↔
      s.binOf other ≤ min bin s.config.maxProx := by
    rw [mem_keyRangeTo_iff, binOf_refreshTarget]
  exact ⟨s.keyRangeTo_prox other, s.mem_keyRangeTo_iff other peer, htarget⟩

end Kademlia.Space
