import Kademlia.Proofs.Bits

/-!
Addresses as sequences of 256 bits and as numbers below `2 ^ 256`. Either view determines the address, and the order
of the bytes is the order of the numbers.
-/
namespace Kademlia.Address
variable {a b : Address}

theorem ofBytes?_of_length {bs : List UInt8} (h : bs.length = 32) : ofBytes? bs = some ⟨bs, h⟩ := dif_pos h

theorem getElem?_bytes (a : Address) {i : Nat} (hi : i < 32) : a.bytes[i]? = some (a.bytes.getD i 0) := by
  have hlt : i < a.bytes.length := by
    rw [a.length_bytes]
    exact hi
  rw [List.getElem?_eq_getElem hlt, List.getD_eq_getElem _ _ hlt]

theorem bit_eq_bitOf (a : Address) (i : Nat) : a.bit i = bitOf a.bytes i := rfl

theorem bit_eq_byteBit (r : Address) {i j : Nat} (hj : j < 8) :
    r.bit (8 * i + j) = byteBit (r.bytes.getD i 0) j := by
  have hdiv : (8 * i + j) / 8 = i := by omega
  have hmod : (8 * i + j) % 8 = j := by omega
  rw [bit_eq_bitOf, bitOf, hdiv, hmod]

theorem bit_of_le {i : Nat} (hi : 256 ≤ i) : a.bit i = false :=
  bitOf_of_length_le (by rw [a.length_bytes]; exact hi)

theorem eq_of_bit (h : ∀ i < 256, a.bit i = b.bit i) : a = b := by
  have hlen : a.bytes.length = b.bytes.length := a.length_bytes.trans b.length_bytes.symm
  apply ext_bytes
  apply eq_of_bitOf hlen
  rw [a.length_bytes]
  exact h

theorem toNat_lt (a : Address) : a.toNat < 2 ^ 256 := by
  have h := numberOf_lt a.bytes
  rwa [a.length_bytes] at h

theorem testBit_toNat_sub (a : Address) {i : Nat} (hi : i < 256) : a.toNat.testBit (255 - i) = a.bit i := by
  have h := testBit_numberOf a.bytes (i := i) (by rw [a.length_bytes]; exact hi)
  rwa [a.length_bytes] at h

/-- Bit `j` of the number, from the lowest, is bit `255 - j` of the address. -/
theorem testBit_toNat (a : Address) {j : Nat} (hj : j < 256) : a.toNat.testBit j = a.bit (255 - j) := by
  have hflip : 255 - (255 - j) = j := by omega
  rw [← testBit_toNat_sub a (by omega), hflip]

theorem testBit_toNat_of_le {j : Nat} (hj : 256 ≤ j) : a.toNat.testBit j = false :=
  Nat.testBit_lt_two_pow (lt_of_lt_of_le a.toNat_lt (Nat.pow_le_pow_right (by decide) hj))

theorem toNat_inj : a.toNat = b.toNat ↔ a = b := by
  constructor
  · intro h
    apply eq_of_bit
    intro i hi
    rw [← testBit_toNat_sub a hi, ← testBit_toNat_sub b hi, h]
  · exact congrArg toNat

theorem bytes_lt_iff : a.bytes < b.bytes ↔ a.toNat < b.toNat :=
  lt_iff_numberOf_lt (a.length_bytes.trans b.length_bytes.symm)

theorem bytes_le_iff : a.bytes ≤ b.bytes ↔ a.toNat ≤ b.toNat := by
  rw [← List.not_lt, bytes_lt_iff, Nat.not_lt]

/-- Of two addresses the one with a zero in the first bit in which they differ is the smaller number. -/
theorem toNat_lt_of_bit {n : Nat} (hn : n < 256) (hbits : ∀ i < n, a.bit i = b.bit i) (ha : a.bit n = false)
    (hb : b.bit n = true) : a.toNat < b.toNat := by
  apply Nat.lt_of_testBit (255 - n)
  · rw [testBit_toNat_sub a hn, ha]
  · rw [testBit_toNat_sub b hn, hb]
  · intro j hj
    by_cases hw : j < 256
    · rw [testBit_toNat a hw, testBit_toNat b hw]
      exact hbits _ (by omega)
    · rw [testBit_toNat_of_le (by omega), testBit_toNat_of_le (by omega)]

/-- A number whose bits are those of an address is the number of that address. -/
theorem toNat_eq_of_testBit {n : Nat} (hn : n < 2 ^ 256) (h : ∀ i < 256, n.testBit (255 - i) = a.bit i) :
    a.toNat = n := by
  apply Nat.eq_of_testBit_eq
  intro j
  by_cases hj : j < 256
  · have hflip : 255 - (255 - j) = j := by omega
    rw [testBit_toNat a hj, ← h (255 - j) (by omega), hflip]
  · have hpow : n < 2 ^ j := lt_of_lt_of_le hn (Nat.pow_le_pow_right (by decide) (by omega))
    rw [testBit_toNat_of_le (by omega), Nat.testBit_lt_two_pow hpow]

/-- The leading `n` bits are what is left of the number without its lowest `256 - n` bits. -/
theorem toNat_div_eq_iff {n : Nat} (hn : n ≤ 256) :
    a.toNat / 2 ^ (256 - n) = b.toNat / 2 ^ (256 - n) ↔ ∀ i < n, a.bit i = b.bit i := by
  constructor
  · intro h i hi
    have hplace : n - 1 - i + (256 - n) = 255 - i := by omega
    rw [← testBit_toNat_sub a (by omega), ← testBit_toNat_sub b (by omega), ← hplace, ← Nat.testBit_div_two_pow,
      ← Nat.testBit_div_two_pow, h]
  · intro h
    apply Nat.eq_of_testBit_eq
    intro j
    rw [Nat.testBit_div_two_pow, Nat.testBit_div_two_pow]
    by_cases hj : j + (256 - n) < 256
    · rw [testBit_toNat a hj, testBit_toNat b hj]
      exact h _ (by omega)
    · rw [testBit_toNat_of_le (by omega), testBit_toNat_of_le (by omega)]

def ofBits (f : Nat → Bool) : Address := ⟨bytesOfBits 32 f, length_bytesOfBits 32 f⟩

theorem bit_ofBits (f : Nat → Bool) {i : Nat} (hi : i < 256) : (ofBits f).bit i = f i :=
  bitOf_bytesOfBits f hi

theorem exists_toNat_eq {n : Nat} (hn : n < 2 ^ 256) : ∃ a : Address, a.toNat = n := by
  refine ⟨ofBits fun i => n.testBit (255 - i), toNat_eq_of_testBit hn fun i hi => ?_⟩
  rw [bit_ofBits _ hi]

theorem bit_flipBit (a : Address) (i : Nat) {j : Nat} (hj : j < 256) :
    (a.flipBit i).bit j = (a.bit j ^^ decide (j = i)) := by
  have hbyte : j / 8 < a.bytes.length := by
    rw [a.length_bytes]
    omega
  have hbyte' : j / 8 < (a.flipBit i).bytes.length := by
    rw [(a.flipBit i).length_bytes]
    omega
  rw [bit_eq_bitOf, bit_eq_bitOf, bitOf, bitOf, List.getD_eq_getElem _ _ hbyte, List.getD_eq_getElem _ _ hbyte']
  simp only [flipBit, List.getElem_modify]
  by_cases hi : i / 8 = j / 8
  · -- within one byte the places are equal when the bits are
    have hplace : j % 8 = i % 8 ↔ j = i := by omega
    rw [if_pos hi, byteBit_xor, byteBit_bitMask _ (Nat.mod_lt i (by decide)) _ (Nat.mod_lt j (by decide))]
    simp only [hplace]
  · have hne : j ≠ i := fun h => hi (h ▸ rfl)
    rw [if_neg hi, decide_eq_false hne, Bool.xor_false]

end Kademlia.Address
