import Kademlia.Proofs.Proximity

/-!
The proximity order as a closeness in which every triangle has two equal short sides. Where the common beginning of
three addresses ends, two of them have one bit and the third has the other, since a bit has only two values.
-/
namespace Kademlia.Address
variable {a b : Address}

/-- Addresses that agree before bit `n` have the proximity order `n` when that bit tells them apart. -/
theorem proximity_eq_iff_bit_ne {n : Nat} (hn : n < 256) (hle : n ≤ a.proximity b) :
    a.proximity b = n ↔ a.bit n ≠ b.bit n := by
  rw [proximity_eq_iff hn]
  exact and_iff_right fun i hi => bit_eq_of_lt_proximity (Nat.lt_of_lt_of_le hi hle)

/-- Of the three proximity orders among addresses that are not all equal, exactly two are the smallest. -/
theorem count_min_proximity (a b c : Address) (hne : ¬(a = b ∧ b = c)) :
    [a.proximity b, b.proximity c, a.proximity c].count
      (min (a.proximity b) (min (b.proximity c) (a.proximity c))) = 2 := by
  have hab := proximity_le a b
  have hbc := proximity_le b c
  generalize hm : min (a.proximity b) (min (b.proximity c) (a.proximity c)) = m
  have hm_ab : m ≤ a.proximity b := by omega
  have hm_bc : m ≤ b.proximity c := by omega
  have hm_ac : m ≤ a.proximity c := by omega
  have hw : m < 256 := by
    by_contra hw
    exact hne ⟨proximity_eq_width_iff.mp (by omega), proximity_eq_width_iff.mp (by omega)⟩
  have hattained : a.bit m ≠ b.bit m ∨ b.bit m ≠ c.bit m ∨ a.bit m ≠ c.bit m := by
    rw [← proximity_eq_iff_bit_ne hw hm_ab, ← proximity_eq_iff_bit_ne hw hm_bc, ← proximity_eq_iff_bit_ne hw hm_ac]
    omega
  simp only [List.count_cons, List.count_nil, beq_iff_eq, proximity_eq_iff_bit_ne hw hm_ab,
    proximity_eq_iff_bit_ne hw hm_bc, proximity_eq_iff_bit_ne hw hm_ac]
  cases ha : a.bit m <;> cases hb : b.bit m <;> cases hc : c.bit m <;> simp_all

/-- Two addresses that leave a third at the same bit share that bit with each other. -/
theorem lt_proximity_of_proximity_eq {t : Address} (h : t.proximity a = t.proximity b) (hw : t.proximity a < 256) :
    t.proximity a < a.proximity b := by
  have hmin := min_proximity_le a t b
  rw [proximity_comm a t] at hmin
  have hle : t.proximity a ≤ a.proximity b := by omega
  have ha := bit_proximity_ne hw
  have hb := bit_proximity_ne (h ▸ hw)
  rw [← h] at hb
  apply Nat.lt_of_le_of_ne hle
  intro heq
  refine (proximity_eq_iff_bit_ne hw hle).mp heq.symm ?_
  rw [Bool.eq_not_of_ne ha.symm, Bool.eq_not_of_ne hb.symm]

theorem distance_lt_of_proximity_lt {t : Address} (h : t.proximity b < t.proximity a) :
    (t.distance a).toNat < (t.distance b).toNat := by
  have hw := proximity_le t a
  have ha : t.proximity b + 1 ≤ t.proximity a := h
  have hb : ¬t.proximity b + 1 ≤ t.proximity b := Nat.not_succ_le_self _
  rw [le_proximity_iff_distance (by omega)] at ha hb
  exact Nat.lt_of_lt_of_le ha (Nat.not_lt.mp hb)

/-- What shares more bits with the target is closer to it. -/
theorem compareToward_eq_lt_of_proximity_lt {t : Address} (h : t.proximity b < t.proximity a) :
    t.compareToward a b = .lt := by
  rw [compareToward_eq, Nat.compare_eq_lt]
  exact distance_lt_of_proximity_lt h

end Kademlia.Address
