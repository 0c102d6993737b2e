import Kademlia.KeyRange
import Kademlia.Proofs.Proximity
import Kademlia.Proofs.Text.Hex

/-!
The digits of an address. Its hexadecimal and its binary text are its digits in the bases 16 and 2, the highest one first.
So the texts of two addresses part at the digit that holds the first bit in which the addresses differ, and the order of
the texts is that of the numbers.
-/
namespace Kademlia

namespace Text

theorem Hex.digit_lt_digit_iff : ∀ m < 16, ∀ n < 16, digit m < digit n ↔ m < n := by
  decide

theorem Hex.digit_inj : ∀ m < 16, ∀ n < 16, digit m = digit n ↔ m = n := by
  decide

/-- How long a common beginning of two texts can be. -/
def commonLengths (s t : String) : Set Nat := {n | ∃ p : List Char, p <+: s.toList ∧ p <+: t.toList ∧ p.length = n}

end Text

namespace Address
open Text
variable {a b : Address} {w j n : Nat}

/-- Digit `j` in the base `2 ^ w`, the highest one first. -/
def digitAt (w : Nat) (a : Address) (j : Nat) : Nat := a.toNat / 2 ^ (256 - w * (j + 1)) % 2 ^ w

def digits (w : Nat) (a : Address) : List Char := (List.range (256 / w)).map fun j => Hex.digit (digitAt w a j)

theorem digitAt_lt (w : Nat) (a : Address) (j : Nat) : digitAt w a j < 2 ^ w := Nat.mod_lt _ (Nat.two_pow_pos w)

theorem toNat_div_eq_div (a : Address) (h : w * (j + 1) ≤ 256) :
    a.toNat / 2 ^ (256 - w * j) = a.toNat / 2 ^ (256 - w * (j + 1)) / 2 ^ w := by
  have hwidth : 256 - w * j = 256 - w * (j + 1) + w := by
    rw [Nat.mul_succ] at h ⊢
    omega
  rw [hwidth, Nat.pow_add, Nat.div_div_eq_div_mul]

theorem le_proximity_succ_iff (h : w * (j + 1) ≤ 256) :
    w * (j + 1) ≤ a.proximity b ↔ w * j ≤ a.proximity b ∧ digitAt w a j = digitAt w b j := by
  have hbefore : w * j ≤ 256 := Nat.le_trans (Nat.mul_le_mul_left w (Nat.le_succ j)) h
  rw [le_proximity_iff_div h, le_proximity_iff_div hbefore, toNat_div_eq_div a h, toNat_div_eq_div b h]
  exact Nat.ext_div_mod_iff (2 ^ w) _ _

theorem forall_digitAt_eq_iff (h : w * n ≤ 256) :
    (∀ j < n, digitAt w a j = digitAt w b j) ↔ w * n ≤ a.proximity b := by
  induction n with
  | zero => simp
  | succ n ih =>
    have hbefore : w * n ≤ 256 := Nat.le_trans (Nat.mul_le_mul_left w (Nat.le_succ n)) h
    rw [Nat.forall_lt_succ_right, ih hbefore, le_proximity_succ_iff h]

/-- Where the digits before agree, the smaller digit belongs to the smaller number. -/
theorem digitAt_lt_digitAt (h : w * (j + 1) ≤ 256) (hbefore : w * j ≤ a.proximity b)
    (hne : digitAt w a j ≠ digitAt w b j) (hlt : a.toNat < b.toNat) : digitAt w a j < digitAt w b j := by
  have hprox := proximity_le a b
  have hhigh := (le_proximity_iff_div (by omega)).mp hbefore
  have hle : a.toNat / 2 ^ (256 - w * (j + 1)) ≤ b.toNat / 2 ^ (256 - w * (j + 1)) :=
    Nat.div_le_div_right (Nat.le_of_lt hlt)
  rw [toNat_div_eq_div a h, toNat_div_eq_div b h] at hhigh
  have ha := Nat.div_add_mod (a.toNat / 2 ^ (256 - w * (j + 1))) (2 ^ w)
  have hb := Nat.div_add_mod (b.toNat / 2 ^ (256 - w * (j + 1))) (2 ^ w)
  rw [hhigh] at ha
  simp only [digitAt] at hne ⊢
  omega

theorem length_digits (w : Nat) (a : Address) : (digits w a).length = 256 / w := by
  simp [digits]

theorem mul_le_of_le_div (hn : n ≤ 256 / w) : w * n ≤ 256 := by
  rw [Nat.mul_comm]
  exact Nat.mul_le_of_le_div w n 256 hn

section
variable (hw : w ∣ 4)
include hw

theorem digitAt_lt_sixteen (a : Address) (j : Nat) : digitAt w a j < 16 :=
  Nat.lt_of_lt_of_le (digitAt_lt w a j) (Nat.pow_le_pow_right (by decide) (Nat.le_of_dvd (by decide) hw))

theorem take_digits_eq_iff (hn : n ≤ 256 / w) :
    (digits w a).take n = (digits w b).take n ↔ w * n ≤ a.proximity b := by
  rw [digits, digits, ← List.map_take, ← List.map_take, List.take_range, Nat.min_eq_left hn, List.map_inj_left,
    ← forall_digitAt_eq_iff (mul_le_of_le_div hn)]
  simp only [List.mem_range, Hex.digit_inj _ (digitAt_lt_sixteen hw a _) _ (digitAt_lt_sixteen hw b _)]

/-- The longest common beginning ends with the last digit all of whose bits are shared. -/
theorem commonLengths_isGreatest {s t : String} (hs : s.toList = digits w a) (ht : t.toList = digits w b) :
    IsGreatest (commonLengths s t) (a.proximity b / w) := by
  rw [commonLengths, hs, ht]
  constructor
  · have hle : a.proximity b / w ≤ 256 / w := Nat.div_le_div_right (proximity_le a b)
    have hagree := (take_digits_eq_iff (a := a) (b := b) hw hle).mpr (Nat.mul_div_le _ _)
    refine ⟨(digits w a).take (a.proximity b / w), List.take_prefix _ _, ?_, ?_⟩
    · rw [hagree]
      exact List.take_prefix _ _
    · rw [List.length_take, length_digits, Nat.min_eq_left hle]
  · intro n hn
    obtain ⟨p, hpa, hpb, hlen⟩ := hn
    have hle := hpa.length_le
    rw [length_digits, hlen] at hle
    rw [List.prefix_iff_eq_take, hlen] at hpa hpb
    have hprox := (take_digits_eq_iff hw hle).mp (hpa.symm.trans hpb)
    rw [Nat.le_div_iff_mul_le (Nat.pos_of_dvd_of_pos hw (by decide)), Nat.mul_comm]
    exact hprox

theorem digits_lt_of_toNat_lt (h : a.toNat < b.toNat) : digits w a < digits w b := by
  have hne : a ≠ b := fun heq => Nat.lt_irrefl _ (heq ▸ h)
  have hlast : a.proximity b / w < 256 / w :=
    Nat.div_lt_div_of_lt_of_dvd (Nat.dvd_trans hw (by decide)) (proximity_lt_of_ne hne)
  have hwithin : w * (a.proximity b / w) ≤ a.proximity b := Nat.mul_div_le _ _
  have hbeyond : ¬w * (a.proximity b / w + 1) ≤ a.proximity b :=
    Nat.not_le.mpr (Nat.lt_mul_div_succ _ (Nat.pos_of_dvd_of_pos hw (by decide)))
  have hagree := (forall_digitAt_eq_iff (mul_le_of_le_div (Nat.le_of_lt hlast))).mpr hwithin
  have hdiffer : digitAt w a (a.proximity b / w) ≠ digitAt w b (a.proximity b / w) := fun heq =>
    hbeyond ((le_proximity_succ_iff (mul_le_of_le_div hlast)).mpr ⟨hwithin, heq⟩)
  have hdigit := digitAt_lt_digitAt (mul_le_of_le_div hlast) hwithin hdiffer h
  rw [List.lt_iff_exists]
  refine Or.inr ⟨a.proximity b / w, ?_, ?_, ?_, ?_⟩
  · rw [length_digits]
    exact hlast
  · rw [length_digits]
    exact hlast
  · intro i hi
    simp [digits, hagree i hi]
  · simp only [digits, List.getElem_map, List.getElem_range]
    rwa [Hex.digit_lt_digit_iff _ (digitAt_lt_sixteen hw a _) _ (digitAt_lt_sixteen hw b _)]

theorem digits_lt_iff : digits w a < digits w b ↔ a.toNat < b.toNat := by
  constructor
  · intro h
    by_contra hle
    cases Nat.eq_or_lt_of_le (Nat.not_lt.mp hle) with
    | inl heq =>
      rw [toNat_inj.mp heq] at h
      exact List.lt_irrefl _ h
    | inr hlt => exact List.lt_asymm h (digits_lt_of_toNat_lt hw hlt)
  · exact digits_lt_of_toNat_lt hw

/-- Texts of digits are in the order of the addresses. -/
theorem le_iff_of_digits {s t : String} (hs : s.toList = digits w a) (ht : t.toList = digits w b) :
    s ≤ t ↔ a.bytes ≤ b.bytes := by
  rw [← String.not_lt, String.lt_iff, hs, ht, digits_lt_iff hw, Nat.not_lt, bytes_le_iff]

end

theorem digitAt_byte {i : Nat} (hi : i < a.bytes.length) : digitAt 8 a i = a.bytes[i].toNat := by
  have hw := a.length_bytes
  apply Nat.eq_of_testBit_eq
  intro k
  rw [digitAt, Nat.testBit_mod_two_pow, Nat.testBit_div_two_pow]
  by_cases hk : k < 8
  · have hplace : 255 - (k + (256 - 8 * (i + 1))) = 8 * i + (7 - k) := by omega
    have hflip : 7 - (7 - k) = k := by omega
    rw [testBit_toNat a (by omega), hplace, bit_eq_byteBit a (by omega), byteBit_eq_testBit _ (by omega), hflip,
      List.getD_eq_getElem _ _ hi, decide_eq_true hk, Bool.true_and]
  · have hpow : a.bytes[i].toNat < 2 ^ k :=
      Nat.lt_of_lt_of_le a.bytes[i].toNat_lt (Nat.pow_le_pow_right (by decide) (Nat.not_lt.mp hk))
    rw [decide_eq_false hk, Bool.false_and, Nat.testBit_lt_two_pow hpow]

theorem digitAt_halves (a : Address) {i : Nat} (hi : i < 32) :
    digitAt 4 a (2 * i) = digitAt 8 a i / 16 ∧ digitAt 4 a (2 * i + 1) = digitAt 8 a i % 16 := by
  have hupper : 256 - 4 * (2 * i + 1) = 256 - 8 * (i + 1) + 4 := by omega
  have hlower : 256 - 4 * (2 * i + 1 + 1) = 256 - 8 * (i + 1) := by omega
  simp only [digitAt, hupper, hlower, Nat.pow_add, ← Nat.div_div_eq_div_mul]
  omega

theorem getElem?_halves_bytes (a : Address) {j : Nat} (hj : j < 64) :
    (Hex.halves a.bytes)[j]? = some (digitAt 4 a j) := by
  have hi : j / 2 < a.bytes.length := by
    rw [a.length_bytes]
    omega
  obtain ⟨hupper, hlower⟩ := Hex.getElem?_halves a.bytes (j / 2)
  obtain ⟨hupper', hlower'⟩ := digitAt_halves a (i := j / 2) (by omega)
  rw [List.getElem?_eq_getElem hi, Option.map_some, ← digitAt_byte hi] at hupper hlower
  cases Nat.mod_two_eq_zero_or_one j with
  | inl heven =>
    have hplace : 2 * (j / 2) = j := by omega
    rw [← hupper', hplace] at hupper
    exact hupper
  | inr hodd =>
    have hplace : 2 * (j / 2) + 1 = j := by omega
    rw [← hlower', hplace] at hlower
    exact hlower

theorem halves_bytes (a : Address) : Hex.halves a.bytes = (List.range 64).map (digitAt 4 a) := by
  have hlen : (Hex.halves a.bytes).length = 64 := by rw [Hex.length_halves, a.length_bytes]
  apply List.ext_getElem?
  intro j
  by_cases hj : j < 64
  · rw [getElem?_halves_bytes a hj, List.getElem?_map, List.getElem?_range hj, Option.map_some]
  · rw [List.getElem?_eq_none (by omega), List.getElem?_eq_none (by simp; omega)]

theorem hexChars_eq_digits (a : Address) : a.hexChars = digits 4 a := by
  rw [hexChars, Hex.encode_eq_map_halves, halves_bytes, digits, List.map_map]
  rfl

theorem flatMap_binaryDigits (bs : List UInt8) :
    bs.flatMap binaryDigits = (List.range (8 * bs.length)).map fun i => if bitOf bs i then '1' else '0' := by
  induction bs with
  | nil => rfl
  | cons b bs ih =>
    rw [List.flatMap_cons, ih, List.length_cons, Nat.mul_succ, Nat.add_comm, List.range_add, List.map_append,
      List.map_map]
    have hfirst : binaryDigits b = (List.range 8).map fun i => if bitOf (b :: bs) i then '1' else '0' := by
      apply List.map_congr_left
      intro i hi
      rw [bitOf_cons, if_pos (List.mem_range.mp hi)]
    rw [hfirst]
    simp [bitOf_cons]

theorem binChars_eq_digits (a : Address) : a.binChars = digits 1 a := by
  rw [binChars, flatMap_binaryDigits, a.length_bytes, digits]
  apply List.map_congr_left
  intro i hi
  have hi : i < 256 := List.mem_range.mp hi
  have hwidth : 256 - 1 * (i + 1) = 255 - i := by omega
  rw [← bit_eq_bitOf, digitAt, hwidth, Nat.pow_one, ← Nat.toNat_testBit, testBit_toNat_sub a hi]
  cases a.bit i <;> rfl

theorem toList_toHex (a : Address) : a.toHex.toList = digits 4 a := by
  rw [toHex, String.toList_ofList, hexChars_eq_digits]

theorem toList_toBin (a : Address) : a.toBin.toList = digits 1 a := by
  rw [toBin, String.toList_ofList, binChars_eq_digits]

/-- The texts of two addresses have as long a common beginning as the addresses, and the order of the texts is that of the
bytes, so that a range of addresses is a range of texts. -/
theorem texts_preserve_structure (a b : Address) (range : KeyRange) :
    IsGreatest (commonLengths a.toBin b.toBin) (a.proximity b) ∧
      IsGreatest (commonLengths a.toHex b.toHex) (a.proximity b / 4) ∧
      (a.bytes ≤ b.bytes ↔ a.toHex ≤ b.toHex) ∧
      (a.bytes ≤ b.bytes ↔ a.toBin ≤ b.toBin) ∧
      (a ∈ range ↔ range.start.toHex ≤ a.toHex ∧ a.toHex ≤ range.stop.toHex) := by
  have hbin : (1 : Nat) ∣ 4 := by decide
  have hhex : (4 : Nat) ∣ 4 := by decide
  have hle : ∀ a b : Address, a.toHex ≤ b.toHex ↔ a.bytes ≤ b.bytes := fun a b =>
    le_iff_of_digits hhex (toList_toHex a) (toList_toHex b)
  refine ⟨?_, commonLengths_isGreatest hhex (toList_toHex a) (toList_toHex b), (hle a b).symm, ?_, ?_⟩
  · have h := commonLengths_isGreatest hbin (toList_toBin a) (toList_toBin b)
    rwa [Nat.div_one] at h
  · exact (le_iff_of_digits hbin (toList_toBin a) (toList_toBin b)).symm
  · rw [KeyRange.mem_def, hle, hle]

end Address
end Kademlia
