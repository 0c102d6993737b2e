import Kademlia.Proofs.Address
import Kademlia.Proximity

/-!
What the proximity order counts, and what the comparison toward a target compares: two addresses share at least `n`
leading bits when their distance is below `2 ^ (256 - n)`, and the closer of two addresses is the one whose distance
is the smaller number.
-/
namespace Kademlia

theorem leadingZeros_lt {b : UInt8} (hb : b ≠ 0) : leadingZeros b < 8 := by
  rw [leadingZeros, if_neg hb]
  omega

theorem byteBit_of_lt_leadingZeros {b : UInt8} {i : Nat} (hi : i < leadingZeros b) : byteBit b i = false := by
  by_cases hb : b = 0
  · rw [hb, byteBit_zero]
  · rw [leadingZeros, if_neg hb] at hi
    rw [byteBit_eq_testBit b (by omega)]
    apply Nat.testBit_lt_two_pow
    calc
      b.toNat < 2 ^ (b.toNat.log2 + 1) := Nat.lt_log2_self
      _ ≤ 2 ^ (7 - i) := Nat.pow_le_pow_right (by decide) (by omega)

theorem byteBit_leadingZeros {b : UInt8} (hb : b ≠ 0) : byteBit b (leadingZeros b) = true := by
  have hn : b.toNat ≠ 0 := fun h => hb (UInt8.toNat_inj.mp h)
  have hlog : b.toNat.log2 < 8 := (Nat.log2_lt hn).mpr b.toNat_lt
  have hflip : 7 - (7 - b.toNat.log2) = b.toNat.log2 := by omega
  rw [byteBit_eq_testBit b (leadingZeros_lt hb), leadingZeros, if_neg hb, hflip]
  exact Nat.testBit_log2 hn

theorem le_leadingZeros_xor_iff {x y : UInt8} (hxy : x ≠ y) {n : Nat} :
    n ≤ leadingZeros (x ^^^ y) ↔ n ≤ 8 ∧ ∀ i < n, byteBit x i = byteBit y i := by
  have hne : x ^^^ y ≠ 0 := fun h => hxy (UInt8.xor_eq_zero_iff.mp h)
  have hlt := leadingZeros_lt hne
  constructor
  · intro hn
    refine ⟨by omega, fun i hi => ?_⟩
    have h := byteBit_of_lt_leadingZeros (Nat.lt_of_lt_of_le hi hn)
    rw [byteBit_xor] at h
    exact bne_eq_false_iff_eq.mp h
  · rintro ⟨-, hbits⟩
    by_contra hn
    have h := byteBit_leadingZeros hne
    rw [byteBit_xor, hbits _ (by omega), Bool.xor_self] at h
    exact Bool.false_ne_true h

theorem le_sharedBits_iff {xs ys : List UInt8} (hlen : xs.length = ys.length) {n : Nat} :
    n ≤ sharedBits xs ys ↔ n ≤ 8 * xs.length ∧ ∀ i < n, bitOf xs i = bitOf ys i := by
  induction xs generalizing ys n with
  | nil =>
    simp only [sharedBits, List.length_nil, Nat.mul_zero, Nat.le_zero_eq]
    constructor
    · rintro rfl
      simp
    · exact And.left
  | cons x xs ih =>
    cases ys with
    | nil => simp at hlen
    | cons y ys =>
      have htail : xs.length = ys.length := Nat.succ.inj hlen
      rw [List.length_cons, bitOf_cons_agree_iff]
      by_cases hxy : x = y
      · subst hxy
        have hrest : n ≤ 8 + sharedBits xs ys ↔ n - 8 ≤ sharedBits xs ys := by omega
        rw [sharedBits, if_pos rfl, hrest, ih htail]
        constructor
        · rintro ⟨hn, hbits⟩
          exact ⟨by omega, fun i _ => rfl, hbits⟩
        · rintro ⟨hn, -, hbits⟩
          exact ⟨by omega, hbits⟩
      · rw [sharedBits, if_neg hxy, le_leadingZeros_xor_iff hxy]
        constructor
        · rintro ⟨hn, hbyte⟩
          exact ⟨by omega, fun i hi => hbyte i (by omega), fun i hi => by omega⟩
        · rintro ⟨-, hbyte, -⟩
          -- with all eight bits equal the bytes would be the same
          have hn : n ≤ 8 := by
            by_contra hn
            exact hxy (eq_of_byteBit fun i hi => hbyte i (by omega))
          exact ⟨hn, fun i hi => hbyte i (by omega)⟩

theorem compare_byte (x y : UInt8) : compare x y = compare x.toNat y.toNat := by
  simp only [compare, compareOfLessAndEq, UInt8.lt_iff_toNat_lt, UInt8.toNat_inj]

theorem compare_then_compare {p m n : Nat} (x y : Nat) (hm : m < p) (hn : n < p) :
    (compare x y).then (compare m n) = compare (p * x + m) (p * y + n) := by
  rcases Nat.lt_trichotomy x y with hlt | heq | hgt
  · have hp : p * (x + 1) ≤ p * y := Nat.mul_le_mul_left p hlt
    have hsum : p * x + m < p * y + n := by
      rw [Nat.mul_succ] at hp
      omega
    rw [Nat.compare_eq_lt.mpr hlt, Nat.compare_eq_lt.mpr hsum]
    rfl
  · subst heq
    rw [Nat.compare_eq_eq.mpr rfl, Ordering.eq_then]
    simp only [compare, compareOfLessAndEq, Nat.add_lt_add_iff_left, Nat.add_left_cancel_iff]
  · have hp : p * (y + 1) ≤ p * x := Nat.mul_le_mul_left p hgt
    have hsum : p * y + n < p * x + m := by
      rw [Nat.mul_succ] at hp
      omega
    rw [Nat.compare_eq_gt.mpr hgt, Nat.compare_eq_gt.mpr hsum]
    rfl

/-- The scan of two distances compares the numbers they spell. -/
theorem compareDistances_eq {ts xs ys : List UInt8} (hx : ts.length = xs.length) (hy : ts.length = ys.length) :
    compareDistances ts xs ys =
      compare (numberOf (List.zipWith (· ^^^ ·) ts xs)) (numberOf (List.zipWith (· ^^^ ·) ts ys)) := by
  induction ts generalizing xs ys with
  | nil => simp [compareDistances, numberOf]
  | cons t ts ih =>
    cases xs with
    | nil => simp at hx
    | cons x xs =>
      cases ys with
      | nil => simp at hy
      | cons y ys =>
        have htx : ts.length = xs.length := Nat.succ.inj hx
        have hty : ts.length = ys.length := Nat.succ.inj hy
        have hxs := numberOf_lt (List.zipWith (· ^^^ ·) ts xs)
        have hys := numberOf_lt (List.zipWith (· ^^^ ·) ts ys)
        simp only [List.zipWith_cons_cons, numberOf_cons, compareDistances]
        simp only [List.length_zipWith, ← htx, ← hty, Nat.min_self] at hxs hys ⊢
        rw [ih htx hty, compare_byte, compare_then_compare _ _ hxs hys, UInt8.xor_comm x t, UInt8.xor_comm y t]

namespace Address
variable {a b : Address}

theorem le_proximity_iff {n : Nat} : n ≤ a.proximity b ↔ n ≤ 256 ∧ ∀ i < n, a.bit i = b.bit i := by
  have h := le_sharedBits_iff (n := n) (a.length_bytes.trans b.length_bytes.symm)
  rwa [a.length_bytes] at h

theorem proximity_le (a b : Address) : a.proximity b ≤ 256 :=
  (le_proximity_iff.mp (Nat.le_refl _)).1

theorem bit_eq_of_lt_proximity {i : Nat} (hi : i < a.proximity b) : a.bit i = b.bit i :=
  (le_proximity_iff.mp hi).2 i (Nat.lt_succ_self i)

theorem bit_proximity_ne (h : a.proximity b < 256) : a.bit (a.proximity b) ≠ b.bit (a.proximity b) := by
  intro heq
  apply Nat.not_succ_le_self (a.proximity b)
  refine le_proximity_iff.mpr ⟨h, fun i hi => ?_⟩
  rcases Nat.lt_succ_iff_lt_or_eq.mp hi with hlt | rfl
  · exact bit_eq_of_lt_proximity hlt
  · exact heq

/-- The proximity order is the place of the first bit in which two addresses differ. -/
theorem proximity_eq_of_bit {n : Nat} (hn : n < 256) (hbits : ∀ i < n, a.bit i = b.bit i) (hne : a.bit n ≠ b.bit n) :
    a.proximity b = n := by
  apply Nat.le_antisymm
  · by_contra h
    exact hne (bit_eq_of_lt_proximity (Nat.not_le.mp h))
  · exact le_proximity_iff.mpr ⟨by omega, hbits⟩

theorem proximity_eq_iff {n : Nat} (hn : n < 256) :
    a.proximity b = n ↔ (∀ i < n, a.bit i = b.bit i) ∧ a.bit n ≠ b.bit n := by
  constructor
  · rintro rfl
    exact ⟨fun i hi => bit_eq_of_lt_proximity hi, bit_proximity_ne hn⟩
  · rintro ⟨hbits, hne⟩
    exact proximity_eq_of_bit hn hbits hne

/-- The addresses at one proximity are those that begin as the address with the bit there inverted. -/
theorem proximity_eq_iff_flipBit {n : Nat} (hn : n < 256) :
    a.proximity b = n ↔ n + 1 ≤ (a.flipBit n).proximity b := by
  rw [proximity_eq_iff hn, le_proximity_iff, and_iff_right (show n + 1 ≤ 256 from hn)]
  constructor
  · rintro ⟨hbits, hne⟩ i hi
    rw [bit_flipBit a n (by omega)]
    by_cases hin : i = n
    · rw [hin, decide_eq_true rfl, Bool.xor_true]
      exact (Bool.eq_not_of_ne hne.symm).symm
    · rw [decide_eq_false hin, Bool.xor_false]
      exact hbits i (by omega)
  · intro h
    constructor
    · intro i hi
      have hbit := h i (by omega)
      rwa [bit_flipBit a n (by omega), decide_eq_false (by omega), Bool.xor_false] at hbit
    · have hbit := h n (by omega)
      rw [bit_flipBit a n hn, decide_eq_true rfl, Bool.xor_true] at hbit
      rw [← hbit]
      exact (Bool.not_ne_self _).symm

theorem proximity_eq_width_iff : a.proximity b = 256 ↔ a = b := by
  constructor
  · intro h
    exact eq_of_bit fun i hi => bit_eq_of_lt_proximity (h ▸ hi)
  · rintro rfl
    exact proximity_self a

theorem proximity_lt_of_ne (h : a ≠ b) : a.proximity b < 256 :=
  Nat.lt_of_le_of_ne (proximity_le a b) (mt proximity_eq_width_iff.mp h)

/-- Of the three proximity orders among three addresses none is below both others. -/
theorem min_proximity_le (a b c : Address) : min (a.proximity b) (b.proximity c) ≤ a.proximity c := by
  have hab := proximity_le a b
  refine le_proximity_iff.mpr ⟨by omega, fun i hi => ?_⟩
  have hi₁ : i < a.proximity b := by omega
  have hi₂ : i < b.proximity c := by omega
  exact (bit_eq_of_lt_proximity hi₁).trans (bit_eq_of_lt_proximity hi₂)

theorem bit_distance (a b : Address) (i : Nat) : (a.distance b).bit i = (a.bit i ^^ b.bit i) := by
  rw [bit_eq_bitOf, bit_eq_bitOf, bit_eq_bitOf]
  by_cases hi : i / 8 < 32
  · have ha : i / 8 < a.bytes.length := a.length_bytes ▸ hi
    have hb : i / 8 < b.bytes.length := b.length_bytes ▸ hi
    simp [bitOf, distance, List.getD_eq_getElem?_getD, ha, hb]
  · have hw : 256 ≤ i := by omega
    rw [← bit_eq_bitOf, ← bit_eq_bitOf, ← bit_eq_bitOf, bit_of_le hw, bit_of_le hw, bit_of_le hw]
    rfl

theorem toNat_distance (a b : Address) : (a.distance b).toNat = a.toNat ^^^ b.toNat := by
  apply toNat_eq_of_testBit (Nat.xor_lt_two_pow a.toNat_lt b.toNat_lt)
  intro i hi
  rw [Nat.testBit_xor, testBit_toNat_sub a hi, testBit_toNat_sub b hi, bit_distance]

theorem le_proximity_iff_div {n : Nat} (hn : n ≤ 256) :
    n ≤ a.proximity b ↔ a.toNat / 2 ^ (256 - n) = b.toNat / 2 ^ (256 - n) := by
  rw [le_proximity_iff, toNat_div_eq_iff hn]
  exact and_iff_right hn

theorem le_proximity_iff_distance {n : Nat} (hn : n ≤ 256) :
    n ≤ a.proximity b ↔ (a.distance b).toNat < 2 ^ (256 - n) := by
  rw [le_proximity_iff_div hn, toNat_distance, ← Nat.div_eq_zero_iff_lt (Nat.two_pow_pos _), Nat.xor_div_two_pow,
    Nat.xor_eq_zero_iff]

theorem compareToward_eq (t a b : Address) :
    t.compareToward a b = compare (t.distance a).toNat (t.distance b).toNat :=
  compareDistances_eq (t.length_bytes.trans a.length_bytes.symm) (t.length_bytes.trans b.length_bytes.symm)

end Address
end Kademlia
