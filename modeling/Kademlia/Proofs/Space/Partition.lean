import Kademlia.Proofs.KeyRange.Members
import Kademlia.Proofs.Space.Bins
import Mathlib.Data.Set.Lattice
import Mathlib.Data.Set.Pairwise.Basic
import Mathlib.Order.CompletePartialOrder

/-!
The routing bins share out all addresses. Each bin is a key range: around home for the neighbourhood, and around home
with one bit inverted for a bin before it.
-/
namespace Kademlia.Space
open Address
variable {σ : Type}

def binRange (s : Space σ) (bin : Nat) : KeyRange :=
  if bin < s.config.maxProx then (s.home.flipBit bin).keyRange (s.home.flipBit bin) (bin + 1)
  else s.home.keyRange s.home s.config.maxProx

theorem binRange_of_lt (s : Space σ) {bin : Nat} (hbin : bin < s.config.maxProx) :
    s.binRange bin = (s.home.flipBit bin).keyRange (s.home.flipBit bin) (bin + 1) :=
  if_pos hbin

theorem binRange_maxProx (s : Space σ) : s.binRange s.config.maxProx = s.home.keyRange s.home s.config.maxProx :=
  if_neg (Nat.lt_irrefl _)

theorem binOf_eq_iff_mem_flipBit (s : Space σ) {bin : Nat} (hbin : bin < s.config.maxProx) (peer : Address) :
    s.binOf peer = bin ↔ peer ∈ (s.home.flipBit bin).keyRange (s.home.flipBit bin) (bin + 1) := by
  have hdepth := s.maxProx_le
  have hprox : s.binOf peer = bin ↔ s.home.proximity peer = bin := by
    rw [binOf_eq_min]
    omega
  rw [hprox, mem_keyRange, keyRange_self_prox _ (by omega), proximity_eq_iff_flipBit (by omega)]

theorem mem_binRange_iff (s : Space σ) {bin : Nat} (hbin : bin ≤ s.config.maxProx) (peer : Address) :
    peer ∈ s.binRange bin ↔ s.binOf peer = bin := by
  rcases Nat.lt_or_eq_of_le hbin with hlt | rfl
  · rw [s.binRange_of_lt hlt, s.binOf_eq_iff_mem_flipBit hlt]
  · rw [binRange_maxProx, binOf_eq_maxProx_iff_mem]

theorem binRange_pairwiseDisjoint (s : Space σ) :
    (Set.Iic s.config.maxProx).PairwiseDisjoint fun bin => (s.binRange bin).members := by
  intro b hb c hc hne
  refine Set.disjoint_left.mpr fun peer hpb hpc => hne ?_
  calc
    b = s.binOf peer := ((s.mem_binRange_iff hb peer).mp hpb).symm
    _ = c := (s.mem_binRange_iff hc peer).mp hpc

theorem iUnion_binRange (s : Space σ) : ⋃ bin ≤ s.config.maxProx, (s.binRange bin).members = Set.univ := by
  refine Set.eq_univ_of_forall fun peer => ?_
  rw [Set.mem_iUnion₂]
  exact ⟨s.binOf peer, s.binOf_le peer, (s.mem_binRange_iff (s.binOf_le peer) peer).mpr rfl⟩

/-- The bins are disjoint intervals of numbers that together hold all addresses; each bin is half as large as the one
before it, and the neighbourhood holds the rest. -/
theorem bins_partition_addresses (s : Space σ) :
    (∀ peer, s.binOf peer ≤ s.config.maxProx) ∧
      (∀ bin < s.config.maxProx, ∀ peer,
        s.binOf peer = bin ↔ peer ∈ (s.home.flipBit bin).keyRange (s.home.flipBit bin) (bin + 1)) ∧
      (∀ peer, s.binOf peer = s.config.maxProx ↔ peer ∈ s.home.keyRange s.home s.config.maxProx) ∧
      ((Set.Iic s.config.maxProx).PairwiseDisjoint fun bin => (s.binRange bin).members) ∧
      ⋃ bin ≤ s.config.maxProx, (s.binRange bin).members = Set.univ ∧
      (∀ bin, toNat '' (s.binRange bin).members =
        Set.Icc (s.binRange bin).start.toNat (s.binRange bin).stop.toNat) ∧
      (∀ bin < s.config.maxProx, (toNat '' (s.binRange bin).members).ncard = 2 ^ (255 - bin)) ∧
      (toNat '' (s.binRange s.config.maxProx).members).ncard = 2 ^ (256 - s.config.maxProx) := by
  have hdepth := s.maxProx_le
  have hsize : ∀ bin < s.config.maxProx, (toNat '' (s.binRange bin).members).ncard = 2 ^ (255 - bin) := by
    intro bin hbin
    have hfree : 256 - (bin + 1) = 255 - bin := by omega
    rw [s.binRange_of_lt hbin, ncard_image_toNat_keyRange, keyRange_self_prox _ (by omega), hfree]
  have hrest : (toNat '' (s.binRange s.config.maxProx).members).ncard = 2 ^ (256 - s.config.maxProx) := by
    rw [binRange_maxProx, ncard_image_toNat_keyRange, keyRange_self_prox _ hdepth]
  exact ⟨s.binOf_le, fun _ hbin peer => s.binOf_eq_iff_mem_flipBit hbin peer, s.binOf_eq_maxProx_iff_mem,
    s.binRange_pairwiseDisjoint, s.iUnion_binRange, fun bin => (s.binRange bin).image_toNat_members, hsize, hrest⟩

/-- At depth 4 around the zero address, bin 2 holds an eighth of all addresses and the neighbourhood a sixteenth. -/
theorem testing_bins_partition_addresses :
    ∃ s : Space Constant, s.home = Address.zero ∧ s.config = Config.testing ∧
      2 < s.config.maxProx ∧ s.binOf ((zero.flipBit 2).flipBit 9) = 2 ∧
      (zero.flipBit 2).flipBit 9 ∈ (zero.flipBit 2).keyRange (zero.flipBit 2) (2 + 1) ∧
      (toNat '' (s.binRange 2).members).ncard = 2 ^ 253 ∧ (toNat '' (s.binRange 4).members).ncard = 2 ^ 252 := by
  let s : Space Constant := ⟨Address.zero, Config.testing, ⟨0⟩, rfl⟩
  obtain ⟨-, hbin, -, -, -, -, hsize, hrest⟩ := bins_partition_addresses s
  have hpeer : s.binOf ((zero.flipBit 2).flipBit 9) = 2 := by decide +kernel
  exact ⟨s, rfl, rfl, by decide, hpeer, (hbin 2 (by decide) _).mp hpeer, hsize 2 (by decide), hrest⟩

end Kademlia.Space
