import Kademlia.Proofs.KeyRange
import Mathlib.Data.Set.Card
import Mathlib.Order.Interval.Finset.Nat

/-!
A key range read as numbers. Every number between its ends belongs to it, and a computed range has as many members as
the bits behind its prefix allow.
-/
namespace Kademlia

def KeyRange.members (range : KeyRange) : Set Address := {a | a ∈ range}

theorem KeyRange.image_toNat_members (range : KeyRange) :
    Address.toNat '' range.members = Set.Icc range.start.toNat range.stop.toNat := by
  ext n
  constructor
  · rintro ⟨a, ⟨hstart, hstop⟩, rfl⟩
    exact ⟨Address.bytes_le_iff.mp hstart, Address.bytes_le_iff.mp hstop⟩
  · rintro ⟨hstart, hstop⟩
    obtain ⟨a, rfl⟩ := Address.exists_toNat_eq (Nat.lt_of_le_of_lt hstop range.stop.toNat_lt)
    exact ⟨a, ⟨Address.bytes_le_iff.mpr hstart, Address.bytes_le_iff.mpr hstop⟩, rfl⟩

theorem Address.ncard_image_toNat_keyRange (one other : Address) (limit : Nat) :
    (Address.toNat '' (one.keyRange other limit).members).ncard = 2 ^ (256 - (one.keyRange other limit).prox) := by
  have hpos := Nat.two_pow_pos (256 - (one.keyRange other limit).prox)
  rw [KeyRange.image_toNat_members, toNat_keyRange_stop, ← Finset.coe_Icc, Set.ncard_coe_finset, Nat.card_Icc]
  omega

end Kademlia
