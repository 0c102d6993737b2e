import Kademlia.Proofs.Generation
import Kademlia.Proofs.Proximity.Metric

/-!
Which of two addresses is closer to a third. Up to the first bit in which the two differ their distances from it agree,
and there only one of the distances has a one: what the third address has behind this bit, or before it, is of no account.
-/
namespace Kademlia.Address
variable {x a b : Address}

/-- The address that has the deciding bit is the closer one. -/
theorem distance_lt_of_bit_eq (hw : a.proximity b < 256) (h : x.bit (a.proximity b) = a.bit (a.proximity b)) :
    (x.distance a).toNat < (x.distance b).toNat := by
  apply toNat_lt_of_bit hw
  · intro i hi
    rw [bit_distance, bit_distance, bit_eq_of_lt_proximity hi]
  · rw [bit_distance, h, Bool.xor_self]
  · rw [bit_distance, h]
    exact bne_iff_ne.mpr (bit_proximity_ne hw)

theorem distance_lt_of_bit_ne (hw : a.proximity b < 256) (h : x.bit (a.proximity b) ≠ a.bit (a.proximity b)) :
    (x.distance b).toNat < (x.distance a).toNat := by
  have hother := bit_proximity_ne hw
  -- a bit has two values, so the one that is not the first address's is the second's
  have hbit : x.bit (a.proximity b) = b.bit (a.proximity b) :=
    (Bool.eq_not_of_ne h).trans (Bool.eq_not_of_ne hother.symm).symm
  rw [proximity_comm] at hw hbit
  exact distance_lt_of_bit_eq hw hbit

theorem compareToward_eq_ite (x : Address) (hne : a ≠ b) :
    x.compareToward a b = if x.bit (a.proximity b) = a.bit (a.proximity b) then .lt else .gt := by
  have hw : a.proximity b < 256 := proximity_lt_of_ne hne
  rw [compareToward_eq]
  by_cases h : x.bit (a.proximity b) = a.bit (a.proximity b)
  · rw [if_pos h, Nat.compare_eq_lt]
    exact distance_lt_of_bit_eq hw h
  · rw [if_neg h, Nat.compare_eq_gt]
    exact distance_lt_of_bit_ne hw h

/-- One bit decides which of two addresses is closer to a third. So an address that has the leading bits two others share
and goes on with the bit of one of them is closer to this one, whatever it is filled up with. -/
theorem closer_by_deciding_bit :
    (∀ x a b : Address, a ≠ b →
      a.proximity b < 256 ∧
        x.compareToward a b = if x.bit (a.proximity b) = a.bit (a.proximity b) then .lt else .gt) ∧
      ∀ {σ : Type} [ByteSource σ] (r o : Address) (limit : Nat) (s : σ), r ≠ o → r.proximity o < limit →
        (r.commonBits o limit s).1.compareToward o r = .lt := by
  constructor
  · intro x a b hne
    exact ⟨proximity_lt_of_ne hne, compareToward_eq_ite x hne⟩
  · intro σ _ r o limit s hne hl
    have hw : r.proximity o < 256 := proximity_lt_of_ne hne
    have hbit := bit_eq_of_lt_proximity (lt_proximity_commonBits hl hw s)
    rw [proximity_comm] at hbit
    rw [compareToward_eq_ite _ hne.symm, if_pos hbit.symm]

/-- The third address is far from both, and bit 9, in which alone these two differ, is that of the first. From words the
address is filled up behind the same bit. -/
theorem far_closer_by_deciding_bit :
    let a := zero.flipBit 9
    let x := (a.flipBit 2).flipBit 200
    let words := WordStream.cycling [0x04030201, 0x08070605]
    a ≠ zero ∧ a.proximity zero < 256 ∧ x.compareToward a zero = .lt ∧ x.compareToward zero a = .gt ∧
      zero.proximity a < 10 ∧ (zero.commonBits a 10 words).1.compareToward a zero = .lt := by
  intro a x words
  obtain ⟨hdecided, hgenerated⟩ := closer_by_deciding_bit
  have hne : a ≠ zero := by decide +kernel
  have hbit : x.bit (a.proximity zero) = a.bit (a.proximity zero) := by decide +kernel
  have hbit' : x.bit (zero.proximity a) ≠ zero.bit (zero.proximity a) := by decide +kernel
  have hlimit : zero.proximity a < 10 := by decide +kernel
  obtain ⟨hw, hcloser⟩ := hdecided x a zero hne
  have hfarther := (hdecided x zero a hne.symm).2
  rw [if_pos hbit] at hcloser
  rw [if_neg hbit'] at hfarther
  exact ⟨hne, hw, hcloser, hfarther, hlimit, hgenerated zero a 10 words hne.symm hlimit⟩

end Kademlia.Address
