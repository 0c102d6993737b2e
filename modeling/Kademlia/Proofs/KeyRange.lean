import Kademlia.KeyRange
import Kademlia.Proofs.Generation
import Mathlib.Order.Bounds.Defs

/-!
Key ranges as sets of addresses. The ends of a range are the common prefix followed by zeros and by ones, so that in
numbers the range is an aligned block of `2 ^ (256 - prox)` addresses, and lying between the ends is the same as
sharing the prefix.
-/
namespace Kademlia

theorem drawnFrom_constant {pos : Nat} (hpos : pos < 32) (b : UInt8) :
    drawnFrom pos (Constant.mk b) = List.replicate (32 - pos) b := by
  have hsucc : 32 - pos = (31 - pos) + 1 := by omega
  rw [hsucc, List.replicate_succ]
  rfl

theorem bitOf_replicate (b : UInt8) {n i : Nat} (hi : i < 8 * n) :
    bitOf (List.replicate n b) i = byteBit b (i % 8) := by
  have hdiv : i / 8 < n := by omega
  simp [bitOf, List.getD_eq_getElem?_getD, hdiv]

theorem byteBit_zeros_ones : ∀ i < 8, byteBit 0x00 i = false ∧ byteBit 0xff i = true := by
  decide

/-- The aligned block of `2 ^ (256 - p)` numbers around a number ends below `2 ^ 256`. -/
theorem aligned_block_le {n p : Nat} (hn : n < 2 ^ 256) (hp : p ≤ 256) :
    n / 2 ^ (256 - p) * 2 ^ (256 - p) + 2 ^ (256 - p) ≤ 2 ^ 256 := by
  have hdiv : n / 2 ^ (256 - p) < 2 ^ p := by
    apply Nat.div_lt_of_lt_mul
    rwa [← Nat.pow_add, Nat.sub_add_cancel hp]
  have hmul := Nat.mul_le_mul_right (2 ^ (256 - p)) hdiv
  rwa [← Nat.pow_add, Nat.add_sub_cancel' hp, Nat.succ_mul] at hmul

namespace Address
variable {one other c : Address} {limit : Nat}

theorem bit_commonBitsFilled (one other : Address) (limit : Nat) (byte : UInt8) {i : Nat} (hi : i < 256) :
    (one.commonBitsFilled other limit byte).bit i =
      if i < min limit (one.proximity other + 1) then other.bit i else byteBit byte (i % 8) := by
  rw [commonBitsFilled, bit_commonBits one other limit _ hi]
  refine ite_congr rfl (fun _ => rfl) fun hin => ?_
  have hplace : (i - 8 * (min limit (one.proximity other) / 8)) % 8 = i % 8 := by omega
  rw [drawnFrom_constant (by omega), bitOf_replicate _ (by omega), hplace]

theorem bit_commonBitsFilled_capped {p : Nat} (hp : p ≤ one.proximity other) (byte : UInt8) {i : Nat} (hi : i < 256) :
    (one.commonBitsFilled other p byte).bit i = if i < p then one.bit i else byteBit byte (i % 8) := by
  rw [bit_commonBitsFilled one other p byte hi, Nat.min_eq_left (Nat.le_succ_of_le hp)]
  exact ite_congr rfl (fun hin => (bit_eq_of_lt_proximity (Nat.lt_of_lt_of_le hin hp)).symm) fun _ => rfl

theorem keyRange_prox (one other : Address) (limit : Nat) :
    (one.keyRange other limit).prox = min (one.proximity other) limit := by
  have hprox := proximity_le one other
  simp only [keyRange]
  omega

theorem keyRange_prox_le (one other : Address) (limit : Nat) :
    (one.keyRange other limit).prox ≤ one.proximity other := by
  rw [keyRange_prox]
  exact Nat.min_le_left _ _

theorem keyRange_prox_le_width (one other : Address) (limit : Nat) : (one.keyRange other limit).prox ≤ 256 :=
  Nat.le_trans (keyRange_prox_le one other limit) (proximity_le one other)

theorem keyRange_self_prox (a : Address) {limit : Nat} (hl : limit ≤ 256) : (a.keyRange a limit).prox = limit := by
  rw [keyRange_prox, proximity_self, Nat.min_eq_right hl]

theorem bit_keyRange_start {i : Nat} (hi : i < 256) :
    (one.keyRange other limit).start.bit i = if i < (one.keyRange other limit).prox then one.bit i else false := by
  have h := bit_commonBitsFilled_capped (keyRange_prox_le one other limit) 0x00 hi
  rwa [(byteBit_zeros_ones _ (Nat.mod_lt i (by decide))).1] at h

theorem bit_keyRange_stop {i : Nat} (hi : i < 256) :
    (one.keyRange other limit).stop.bit i = if i < (one.keyRange other limit).prox then one.bit i else true := by
  have h := bit_commonBitsFilled_capped (keyRange_prox_le one other limit) 0xff hi
  rwa [(byteBit_zeros_ones _ (Nat.mod_lt i (by decide))).2] at h

theorem toNat_keyRange_start (one other : Address) (limit : Nat) :
    (one.keyRange other limit).start.toNat =
      one.toNat / 2 ^ (256 - (one.keyRange other limit).prox) * 2 ^ (256 - (one.keyRange other limit).prox) := by
  have hprox := keyRange_prox_le_width one other limit
  apply toNat_eq_of_testBit
  · exact lt_of_le_of_lt (Nat.div_mul_le_self _ _) one.toNat_lt
  · intro i hi
    rw [bit_keyRange_start hi, Nat.testBit_mul_two_pow, Nat.testBit_div_two_pow]
    generalize (one.keyRange other limit).prox = p at hprox ⊢
    by_cases hin : i < p
    · have hplace : 255 - i - (256 - p) + (256 - p) = 255 - i := by omega
      rw [if_pos hin, decide_eq_true (by omega), Bool.true_and, hplace, testBit_toNat_sub one hi]
    · rw [if_neg hin, decide_eq_false (by omega), Bool.false_and]

theorem toNat_keyRange_stop (one other : Address) (limit : Nat) :
    (one.keyRange other limit).stop.toNat =
      (one.keyRange other limit).start.toNat + 2 ^ (256 - (one.keyRange other limit).prox) - 1 := by
  have hprox := keyRange_prox_le_width one other limit
  have hpos := Nat.two_pow_pos (256 - (one.keyRange other limit).prox)
  rw [toNat_keyRange_start]
  apply toNat_eq_of_testBit
  · have hblock := aligned_block_le one.toNat_lt hprox
    omega
  · intro i hi
    rw [bit_keyRange_stop hi, Nat.add_sub_assoc hpos, Nat.mul_comm,
      Nat.testBit_two_pow_mul_add _ (Nat.sub_lt hpos Nat.one_pos), Nat.testBit_two_pow_sub_one,
      Nat.testBit_div_two_pow]
    generalize (one.keyRange other limit).prox = p at hprox ⊢
    -- the lowest `256 - p` bits are those of a power of two less one, the others those of the quotient
    by_cases hin : i < p
    · have hplace : 255 - i - (256 - p) + (256 - p) = 255 - i := by omega
      rw [if_pos hin, if_neg (by omega), hplace, testBit_toNat_sub one hi]
    · rw [if_neg hin, if_pos (by omega), decide_eq_true (by omega)]

/-- A range holds the addresses that share its prefix. -/
theorem mem_keyRange : c ∈ one.keyRange other limit ↔ (one.keyRange other limit).prox ≤ one.proximity c := by
  have hprox := keyRange_prox_le_width one other limit
  have hpos := Nat.two_pow_pos (256 - (one.keyRange other limit).prox)
  rw [KeyRange.mem_def, bytes_le_iff, bytes_le_iff, toNat_keyRange_stop, toNat_keyRange_start,
    le_proximity_iff_div hprox, eq_comm, Nat.div_eq_iff hpos]

theorem keyRange_start_isGreatest (one other : Address) (limit : Nat) :
    IsGreatest {n | 2 ^ (256 - (one.keyRange other limit).prox) ∣ n ∧ n ≤ one.toNat}
      (one.keyRange other limit).start.toNat := by
  rw [toNat_keyRange_start]
  constructor
  · exact ⟨Nat.dvd_mul_left _ _, Nat.div_mul_le_self _ _⟩
  · rintro n ⟨⟨q, rfl⟩, hle⟩
    rw [Nat.mul_comm]
    apply Nat.mul_le_mul_right
    rw [Nat.le_div_iff_mul_le (Nat.two_pow_pos _), Nat.mul_comm]
    exact hle

theorem self_mem_keyRange (one other : Address) (limit : Nat) : one ∈ one.keyRange other limit := by
  rw [mem_keyRange, proximity_self]
  exact keyRange_prox_le_width one other limit

theorem other_mem_keyRange (one other : Address) (limit : Nat) : other ∈ one.keyRange other limit :=
  mem_keyRange.mpr (keyRange_prox_le one other limit)

/-- A range is exactly the aligned block of the addresses that share the capped prefix. -/
theorem keyRange_exact (one other c : Address) (limit : Nat) :
    let range := one.keyRange other limit
    range.prox = min (one.proximity other) limit ∧
      (c ∈ range ↔ ∀ i < range.prox, c.bit i = one.bit i) ∧
      IsGreatest {n | 2 ^ (256 - range.prox) ∣ n ∧ n ≤ one.toNat} range.start.toNat ∧
      range.stop.toNat = range.start.toNat + 2 ^ (256 - range.prox) - 1 ∧
      one ∈ range ∧ other ∈ range ∧ range.start.bytes ≤ range.stop.bytes := by
  intro range
  have hmem : c ∈ range ↔ ∀ i < range.prox, c.bit i = one.bit i := by
    rw [mem_keyRange, le_proximity_iff, and_iff_right (keyRange_prox_le_width one other limit)]
    simp only [eq_comm]
    rfl
  have hone := self_mem_keyRange one other limit
  have hends : range.start.bytes ≤ range.stop.bytes := by
    rw [bytes_le_iff]
    exact Nat.le_trans (bytes_le_iff.mp hone.1) (bytes_le_iff.mp hone.2)
  exact ⟨keyRange_prox one other limit, hmem, keyRange_start_isGreatest one other limit,
    toNat_keyRange_stop one other limit, hone, other_mem_keyRange one other limit, hends⟩

end Address
end Kademlia
