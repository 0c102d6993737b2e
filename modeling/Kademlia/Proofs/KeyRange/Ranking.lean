import Kademlia.Proofs.KeyRange
import Kademlia.Proofs.Ranking

/-!
Key ranges are balls of the distance around each of their members. Toward a member every address of the range is
closer than any other address, and so the range is a beginning of every ranking toward the member.
-/
namespace Kademlia.Address
variable {one other m x y : Address} {limit : Nat}

/-- Two addresses of a range share its prefix with each other. -/
theorem le_proximity_of_mem (hm : m ∈ one.keyRange other limit) (hx : x ∈ one.keyRange other limit) :
    (one.keyRange other limit).prox ≤ m.proximity x := by
  rw [mem_keyRange] at hm hx
  rw [proximity_comm] at hm
  exact Nat.le_trans (Nat.le_min.mpr ⟨hm, hx⟩) (min_proximity_le m one x)

theorem mem_of_le_proximity (hm : m ∈ one.keyRange other limit)
    (hx : (one.keyRange other limit).prox ≤ m.proximity x) : x ∈ one.keyRange other limit := by
  rw [mem_keyRange] at hm ⊢
  exact Nat.le_trans (Nat.le_min.mpr ⟨hm, hx⟩) (min_proximity_le one m x)

/-- A range is the ball around any of its members that the length of its prefix gives. -/
theorem mem_keyRange_iff_distance_lt (hm : m ∈ one.keyRange other limit) :
    x ∈ one.keyRange other limit ↔ (m.distance x).toNat < 2 ^ (256 - (one.keyRange other limit).prox) := by
  rw [← le_proximity_iff_distance (keyRange_prox_le_width one other limit)]
  exact ⟨le_proximity_of_mem hm, mem_of_le_proximity hm⟩

theorem distance_lt_of_mem_of_not_mem (hm : m ∈ one.keyRange other limit) (hx : x ∈ one.keyRange other limit)
    (hy : y ∉ one.keyRange other limit) : (m.distance x).toNat < (m.distance y).toNat := by
  rw [mem_keyRange_iff_distance_lt hm] at hx hy
  exact Nat.lt_of_lt_of_le hx (Nat.not_lt.mp hy)

/-- What is no farther from a member than an address of the range lies in the range too. -/
theorem mem_of_distance_le (hm : m ∈ one.keyRange other limit) (h : (m.distance x).toNat ≤ (m.distance y).toNat)
    (hy : y ∈ one.keyRange other limit) : x ∈ one.keyRange other limit := by
  rw [mem_keyRange_iff_distance_lt hm] at hy ⊢
  exact Nat.lt_of_le_of_lt h hy

/-- In a ranking toward a member of a range, all entries before an entry of the range lie in it too. -/
theorem sortToward_pairwise_mem (hm : m ∈ one.keyRange other limit) (as : List Address) :
    (m.sortToward as).Pairwise fun a b =>
      decide (b ∈ one.keyRange other limit) = true → decide (a ∈ one.keyRange other limit) = true := by
  refine (sortToward_pairwise m as).imp fun {a b} hab hb => ?_
  rw [decide_eq_true_eq] at hb ⊢
  exact mem_of_distance_le hm hab hb

/-- Toward a member of a range the addresses of the range are the closest ones, and they lead every ranking. -/
theorem keyRange_leads_ranking (one other : Address) (limit : Nat) {m : Address}
    (hm : m ∈ one.keyRange other limit) :
    (∀ x ∈ one.keyRange other limit, ∀ y ∉ one.keyRange other limit, m.compareToward x y = .lt) ∧
      ∀ as : List Address,
        let n := as.countP (· ∈ one.keyRange other limit)
        (m.sortToward as).Perm as ∧
          (∀ i (hi : i < (m.sortToward as).length), (m.sortToward as)[i] ∈ one.keyRange other limit ↔ i < n) ∧
          m.closest as n = (m.sortToward as).filter (· ∈ one.keyRange other limit) ∧
          (m.closest as n).Perm (as.filter (· ∈ one.keyRange other limit)) := by
  constructor
  · intro x hx y hy
    rw [compareToward_eq, Nat.compare_eq_lt]
    exact distance_lt_of_mem_of_not_mem hm hx hy
  · intro as n
    have hperm := sortToward_perm m as
    have hlead := sortToward_pairwise_mem hm as
    have hn : (m.sortToward as).countP (· ∈ one.keyRange other limit) = n := hperm.countP_eq _
    have hclosest : m.closest as n = (m.sortToward as).filter (· ∈ one.keyRange other limit) := by
      rw [closest, ← hn, take_countP hlead]
    refine ⟨hperm, fun i hi => ?_, hclosest, ?_⟩
    · have h := getElem_iff_lt_countP hlead hi
      rwa [hn, decide_eq_true_eq] at h
    · rw [hclosest]
      exact hperm.filter _

/-- Around the zero address: two of the three candidates share its first six bits and come first. -/
theorem zero_keyRange_leads_ranking :
    let range := zero.keyRange (zero.flipBit 6) 256
    let near := (zero.flipBit 9).flipBit 200
    let far := zero.flipBit 2
    near ∈ range ∧ near.compareToward (zero.flipBit 7) far = .lt ∧
      near.closest [far, zero, zero.flipBit 7] 2 = (near.sortToward [far, zero, zero.flipBit 7]).filter (· ∈ range) := by
  intro range near far
  have h := keyRange_leads_ranking zero (zero.flipBit 6) 256 (m := near) (by decide +kernel)
  have hcount : [far, zero, zero.flipBit 7].countP (· ∈ range) = 2 := by decide +kernel
  have hclosest := (h.2 [far, zero, zero.flipBit 7]).2.2.1
  exact ⟨by decide +kernel, h.1 _ (by decide +kernel) far (by decide +kernel), hcount ▸ hclosest⟩

end Kademlia.Address
