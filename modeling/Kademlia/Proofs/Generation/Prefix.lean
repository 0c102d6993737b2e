import Kademlia.Proofs.Generation

/-!
What a generated address tells about its reference. Two runs from the same source come out alike, address and source, as
soon as the references agree in the bits that are kept: no later bit of a reference is to be seen in the result.
-/
namespace Kademlia.Address
variable {σ : Type} [ByteSource σ] {r r' o o' : Address} {limit limit' : Nat}

/-- Exact generation reads the reference up to the bit that is turned. -/
theorem randomAt_congr {p : Nat} (h : ∀ i < p + 1, r.bit i = r'.bit i) (s : σ) : r.randomAt p s = r'.randomAt p s := by
  by_cases hp : p < 256
  · apply Prod.ext
    · apply eq_of_bit
      intro i hi
      rw [bit_randomAt r hp, bit_randomAt r' hp, h p (Nat.lt_succ_self p)]
      exact ite_congr rfl (fun hip => h i (Nat.lt_succ_of_lt hip)) fun _ => rfl
    · rw [randomAt_source r hp, randomAt_source r' hp]
  · have hsame : r = r' := eq_of_bit fun i hi => h i (by omega)
    rw [hsame]

/-- Common bits come out alike for equal boundaries and equal bits of the other addresses before them. -/
theorem commonBits_congr (hshared : min limit (r.proximity o) = min limit' (r'.proximity o'))
    (hkept : min limit (r.proximity o + 1) = min limit' (r'.proximity o' + 1))
    (h : ∀ i < min limit (r.proximity o + 1), o.bit i = o'.bit i) (s : σ) :
    r.commonBits o limit s = r'.commonBits o' limit' s := by
  have haddress : (r.commonBits o limit s).1 = (r'.commonBits o' limit' s).1 := by
    apply eq_of_bit
    intro i hi
    rw [bit_commonBits r o limit s hi, bit_commonBits r' o' limit' s hi, ← hshared, ← hkept]
    exact ite_congr rfl (h i) fun _ => rfl
  have hsource : (r.commonBits o limit s).2 = (r'.commonBits o' limit' s).2 := by
    by_cases hw : min limit (r.proximity o) < 256
    · rw [commonBits_source hw, commonBits_source (hshared ▸ hw), hshared]
    · have hfull : 256 ≤ min limit (r.proximity o) := Nat.not_lt.mp hw
      rw [commonBits_eq_self hfull, commonBits_eq_self (hshared ▸ hfull)]
  exact Prod.ext haddress hsource

/-- Up to a limit that both pairs reach, the other addresses agree because the references do. -/
theorem commonBits_capped_congr (hl : limit ≤ r.proximity o) (hl' : limit' ≤ r'.proximity o')
    (hshared : min limit (r.proximity o) = min limit' (r'.proximity o'))
    (h : ∀ i < min limit (r.proximity o), r.bit i = r'.bit i) (s : σ) :
    r.commonBits o limit s = r'.commonBits o' limit' s := by
  have hlimit : limit' = limit := by omega
  subst hlimit
  apply commonBits_congr hshared (by omega)
  intro i hi
  have hi₁ : i < r.proximity o := by omega
  have hi₂ : i < r'.proximity o' := by omega
  calc
    o.bit i = r.bit i := (bit_eq_of_lt_proximity hi₁).symm
    _ = r'.bit i := h i (by omega)
    _ = o'.bit i := bit_eq_of_lt_proximity hi₂

/-- An address that agrees with the reference up to the boundary has the same boundary toward the other address. -/
theorem boundary_congr (h : ∀ i < min limit (r.proximity o + 1), r.bit i = r'.bit i) :
    min limit (r'.proximity o) = min limit (r.proximity o) ∧
      min limit (r'.proximity o + 1) = min limit (r.proximity o + 1) := by
  by_cases hl : limit ≤ r.proximity o
  · have hwidth : limit ≤ 256 := Nat.le_trans hl (proximity_le r o)
    have hl' : limit ≤ r'.proximity o := by
      refine le_proximity_iff.mpr ⟨hwidth, fun i hi => ?_⟩
      have hi' : i < r.proximity o := by omega
      rw [← h i (by omega)]
      exact bit_eq_of_lt_proximity hi'
    omega
  · have hprox : r'.proximity o = r.proximity o := by
      by_cases hw : r.proximity o < 256
      · -- the first bit in which the reference differs from the other address is still kept
        apply proximity_eq_of_bit hw
        · intro i hi
          rw [← h i (by omega)]
          exact bit_eq_of_lt_proximity hi
        · rw [← h _ (by omega)]
          exact bit_proximity_ne hw
      · have hsame : r = r' := eq_of_bit fun i hi => h i (by omega)
        rw [hsame]
    rw [hprox]
    exact ⟨rfl, rfl⟩

/-- Two runs cannot be told apart by bits of the references behind the boundary: at a wanted proximity, up to a limit, and
up to the first bit in which the other address differs. -/
theorem outputs_depend_on_kept_prefix (s : σ) :
    (∀ (r r' : Address) (p : Nat), (∀ i < p + 1, r.bit i = r'.bit i) → r.draw (some p) s = r'.draw (some p) s) ∧
      (∀ (r o r' o' : Address) (limit limit' : Nat), limit ≤ r.proximity o → limit' ≤ r'.proximity o' →
        min limit (r.proximity o) = min limit' (r'.proximity o') →
        (∀ i < min limit (r.proximity o), r.bit i = r'.bit i) →
        r.commonBits o limit s = r'.commonBits o' limit' s) ∧
      ∀ (r r' o : Address) (limit : Nat), (∀ i < min limit (r.proximity o + 1), r.bit i = r'.bit i) →
        r.commonBits o limit s = r'.commonBits o limit s := by
  refine ⟨?_, ?_, ?_⟩
  · intro r r' p h
    exact randomAt_congr h s
  · intro r o r' o' limit limit' hl hl' hshared h
    exact commonBits_capped_congr hl hl' hshared h s
  · intro r r' o limit h
    obtain ⟨hshared, hkept⟩ := boundary_congr h
    exact commonBits_congr hshared.symm hkept.symm (fun _ _ => rfl) s

/-- Two references that differ in bit 14 and from the other addresses in bits 13 and 20. -/
theorem later_bits_leave_outputs :
    let s : Counter := ⟨7⟩
    let r := ofLeading [0x12, 0x34]
    let r' := r.flipBit 14
    r ≠ r' ∧ r.draw (some 13) s = r'.draw (some 13) s ∧
      r.commonBits (r.flipBit 20) 13 s = r'.commonBits (r'.flipBit 13) 13 s ∧
      r.commonBits (r.flipBit 13) 40 s = r'.commonBits (r.flipBit 13) 40 s := by
  intro s r r'
  obtain ⟨hdraw, hcapped, hreference⟩ := outputs_depend_on_kept_prefix s
  have hagree : ∀ i < 14, r.bit i = r'.bit i := by decide +kernel
  have hfar : r.proximity (r.flipBit 20) = 20 := by decide +kernel
  have hnear : r'.proximity (r'.flipBit 13) = 13 := by decide +kernel
  have hother : r.proximity (r.flipBit 13) = 13 := by decide +kernel
  refine ⟨by decide +kernel, hdraw r r' 13 hagree, ?_, ?_⟩
  · apply hcapped r (r.flipBit 20) r' (r'.flipBit 13) 13 13
    · omega
    · omega
    · omega
    · intro i hi
      exact hagree i (by omega)
  · apply hreference r r' (r.flipBit 13) 40
    intro i hi
    exact hagree i (by omega)

end Kademlia.Address
