import Kademlia.Proofs.ByteSource.Script
import Kademlia.Proofs.KeyRange.Laminar

/-!
The addresses that common bits leave open. Filled up from any source, they are a key range around the other address, and
the fill with zeros and the fill with ones are its ends: no byte of the source leads beyond them, and every address between
them is filled up from its own bytes.
-/
namespace Kademlia

theorem bitOf_drop (bs : List UInt8) (n i : Nat) : bitOf (bs.drop n) i = bitOf bs (8 * n + i) := by
  have hdiv : (8 * n + i) / 8 = n + i / 8 := by omega
  have hmod : (8 * n + i) % 8 = i % 8 := by omega
  rw [bitOf, bitOf, hdiv, hmod, List.getD_eq_getElem?_getD, List.getD_eq_getElem?_getD, List.getElem?_drop]

namespace Address
variable {σ : Type} [ByteSource σ] {r o a : Address} {limit : Nat}

/-- The addresses that begin as the other one does, up to the limit or through the first bit in which it differs from the
reference. -/
def reach (r o : Address) (limit : Nat) : KeyRange := o.keyRange o (min limit (r.proximity o + 1))

theorem reach_prox (r o : Address) (limit : Nat) : (r.reach o limit).prox = min 256 (min limit (r.proximity o + 1)) := by
  rw [reach, keyRange_prox, proximity_self]

theorem mem_reach : a ∈ r.reach o limit ↔ (r.reach o limit).prox ≤ o.proximity a :=
  mem_keyRange

/-- The reference itself is out of reach when it differs from the other address before the limit. -/
theorem reference_mem_reach_iff : r ∈ r.reach o limit ↔ limit ≤ r.proximity o ∨ r = o := by
  have hprox := proximity_le r o
  rw [mem_reach, reach_prox, proximity_comm o r, ← proximity_eq_width_iff]
  omega

theorem commonBits_mem_reach (r o : Address) (limit : Nat) (s : σ) : (r.commonBits o limit s).1 ∈ r.reach o limit := by
  rw [mem_reach, reach_prox]
  exact le_proximity_other_commonBits r o limit s

theorem lt_reach_prox_iff {i : Nat} (hi : i < 256) :
    i < (r.reach o limit).prox ↔ i < min limit (r.proximity o + 1) := by
  rw [reach_prox]
  omega

/-- A constant fill keeps as much of the other address as any fill does, so that zeros and ones make the ends of the range. -/
theorem commonBitsFilled_eq_reach (r o : Address) (limit : Nat) (byte : UInt8) :
    r.commonBitsFilled o limit byte = o.commonBitsFilled o (r.reach o limit).prox byte := by
  have hprox : (r.reach o limit).prox ≤ o.proximity o := keyRange_prox_le o o _
  apply eq_of_bit
  intro i hi
  rw [bit_commonBitsFilled r o limit byte hi, bit_commonBitsFilled_capped hprox byte hi]
  exact (if_congr (lt_reach_prox_iff hi) rfl rfl).symm

/-- An address in reach comes out when its own bytes, from the boundary on, are the script. -/
theorem commonBits_ofBytes_drop (ha : a ∈ r.reach o limit) :
    (r.commonBits o limit (Script.ofBytes (a.bytes.drop (min limit (r.proximity o) / 8)))).1 = a := by
  apply eq_of_bit
  intro i hi
  rw [bit_commonBits r o limit _ hi]
  by_cases hin : i < min limit (r.proximity o + 1)
  · rw [if_pos hin]
    exact bit_eq_of_mem ha ((lt_reach_prox_iff hi).mpr hin)
  · have hplace : 8 * (min limit (r.proximity o) / 8) + (i - 8 * (min limit (r.proximity o) / 8)) = i := by omega
    have hlen : (a.bytes.drop (min limit (r.proximity o) / 8)).length = 32 - min limit (r.proximity o) / 8 := by
      rw [List.length_drop, a.length_bytes]
    rw [if_neg hin, drawnFrom_ofBytes (by omega) hlen, bitOf_drop, hplace]
    rfl

/-- What can come out is the whole range of the common prefix where no bit of the reference is turned. -/
theorem reach_eq_keyRange (h : limit ≤ r.proximity o ∨ r = o) : r.reach o limit = r.keyRange o limit := by
  have hle := proximity_le r o
  have hfull : limit ≤ r.proximity o ∨ r.proximity o = 256 := h.imp_right proximity_eq_width_iff.mpr
  apply keyRange_eq_of_mem (self_mem_keyRange o o _) (other_mem_keyRange r o limit)
  rw [keyRange_prox, keyRange_prox, proximity_self]
  omega

theorem commonBits_mem_keyRange (r o : Address) (limit : Nat) (s : σ) :
    (r.commonBits o limit s).1 ∈ r.keyRange o limit := by
  rw [mem_keyRange, keyRange_prox, Nat.min_comm]
  exact min_le_proximity_commonBits r o limit s

/-- The fills with zeros and with ones are the least and the greatest address that common bits lead to from any source, and
nothing between them is missed. They are the ends of the key range unless a bit of the reference is turned. -/
theorem constant_fills_bound_commonBits (r o : Address) (limit : Nat) :
    let lo := r.commonBitsFilled o limit 0x00
    let hi := r.commonBitsFilled o limit 0xff
    let range := r.keyRange o limit
    (∀ {σ : Type} [ByteSource σ] (s : σ),
        lo.bytes ≤ (r.commonBits o limit s).1.bytes ∧ (r.commonBits o limit s).1.bytes ≤ hi.bytes ∧
          (r.commonBits o limit s).1 ∈ range) ∧
      (∀ a : Address, lo.bytes ≤ a.bytes → a.bytes ≤ hi.bytes →
        ∃ script, (r.commonBits o limit (Script.ofBytes script)).1 = a) ∧
      (lo = range.start ∧ hi = range.stop ↔ limit ≤ r.proximity o ∨ r = o) ∧
      ({a : Address | lo.bytes ≤ a.bytes ∧ a.bytes ≤ hi.bytes} = range.members ↔ limit ≤ r.proximity o ∨ r = o) := by
  intro lo hi range
  have hlo : lo = (r.reach o limit).start := commonBitsFilled_eq_reach r o limit 0x00
  have hhi : hi = (r.reach o limit).stop := commonBitsFilled_eq_reach r o limit 0xff
  have hbetween : ∀ a : Address, lo.bytes ≤ a.bytes ∧ a.bytes ≤ hi.bytes ↔ a ∈ r.reach o limit := by
    intro a
    rw [hlo, hhi, KeyRange.mem_def]
  have hends : limit ≤ r.proximity o ∨ r = o → lo = range.start ∧ hi = range.stop := by
    intro h
    rw [hlo, hhi, reach_eq_keyRange h]
    exact ⟨rfl, rfl⟩
  have hmembers : lo = range.start ∧ hi = range.stop →
      {a : Address | lo.bytes ≤ a.bytes ∧ a.bytes ≤ hi.bytes} = range.members := by
    intro h
    rw [h.1, h.2]
    rfl
  -- the reference is in its own range, so that it tells the two intervals apart
  have hturned : {a : Address | lo.bytes ≤ a.bytes ∧ a.bytes ≤ hi.bytes} = range.members →
      limit ≤ r.proximity o ∨ r = o := by
    intro h
    have hself : r ∈ range.members := self_mem_keyRange r o limit
    rw [← h] at hself
    exact reference_mem_reach_iff.mp ((hbetween r).mp hself)
  refine ⟨?_, ?_, ⟨fun h => hturned (hmembers h), hends⟩, ⟨hturned, fun h => hmembers (hends h)⟩⟩
  · intro σ _ s
    obtain ⟨habove, hbelow⟩ := (hbetween _).mpr (commonBits_mem_reach r o limit s)
    exact ⟨habove, hbelow, commonBits_mem_keyRange r o limit s⟩
  · intro a habove hbelow
    exact ⟨_, commonBits_ofBytes_drop ((hbetween a).mp ⟨habove, hbelow⟩)⟩

/-- Two addresses that differ in bit 13 alone, and a limit one bit behind it: what comes out is half of the range. -/
theorem turned_constant_fills_bound_commonBits :
    let r := ofLeading [0x12, 0x34]
    let o := r.flipBit 13
    let a := (o.flipBit 14).flipBit 200
    (r.commonBitsFilled o 14 0x00).bytes ≤ a.bytes ∧ a.bytes ≤ (r.commonBitsFilled o 14 0xff).bytes ∧
      (∃ script, (r.commonBits o 14 (Script.ofBytes script)).1 = a) ∧
      ¬(r.commonBitsFilled o 14 0x00 = (r.keyRange o 14).start ∧
        r.commonBitsFilled o 14 0xff = (r.keyRange o 14).stop) ∧
      (r.commonBitsFilled o 13 0x00 = (r.keyRange o 13).start ∧
        r.commonBitsFilled o 13 0xff = (r.keyRange o 13).stop) := by
  intro r o a
  obtain ⟨-, hscript, hends, -⟩ := constant_fills_bound_commonBits r o 14
  obtain ⟨-, -, hends', -⟩ := constant_fills_bound_commonBits r o 13
  have habove : (r.commonBitsFilled o 14 0x00).bytes ≤ a.bytes := by decide +kernel
  have hbelow : a.bytes ≤ (r.commonBitsFilled o 14 0xff).bytes := by decide +kernel
  have hturned : ¬(14 ≤ r.proximity o ∨ r = o) := by decide +kernel
  have hkept : 13 ≤ r.proximity o ∨ r = o := by decide +kernel
  exact ⟨habove, hbelow, hscript a habove hbelow, mt hends.mp hturned, hends'.mpr hkept⟩

end Address
end Kademlia
