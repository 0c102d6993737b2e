import Kademlia.Proofs.Proximity
import Mathlib.Data.Nat.Digits.Lemmas

/-!
Closeness as a number. Read as numbers the distances form a metric; the proximity order says how many binary digits a
distance is short of 256, and the comparison toward a target orders the distances from it.
-/
namespace Kademlia

/-- The exclusive or of two numbers is their sum without the carries. -/
theorem xor_le_add (m n : Nat) : m ^^^ n ≤ m + n := by
  induction m using Nat.strongRecOn generalizing n with
  | ind m ih =>
    by_cases hm : m = 0
    · simp [hm]
    · have hhalves := ih (m / 2) (by omega) (n / 2)
      have hdiv : (m ^^^ n) / 2 = m / 2 ^^^ n / 2 := Nat.xor_div_two
      have hmod : (m ^^^ n) % 2 = (m + n) % 2 := Nat.xor_mod_two_eq
      omega

theorem sign_compare (m n : Nat) : sign (compare m n) = ((m : Int) - n).sign := by
  rcases Nat.lt_trichotomy m n with hlt | rfl | hgt
  · rw [Nat.compare_eq_lt.mpr hlt, Int.sign_eq_neg_one_of_neg (by omega)]
    rfl
  · simp [sign]
  · rw [Nat.compare_eq_gt.mpr hgt, Int.sign_eq_one_of_pos (by omega)]
    rfl

theorem sign_swap (o : Ordering) : sign o.swap = -sign o := by
  cases o <;> rfl

namespace Address
variable {a b : Address}

theorem toNat_distance_comm (a b : Address) : (a.distance b).toNat = (b.distance a).toNat := by
  rw [toNat_distance, toNat_distance, Nat.xor_comm]

theorem toNat_distance_eq_zero_iff : (a.distance b).toNat = 0 ↔ a = b := by
  rw [toNat_distance, Nat.xor_eq_zero_iff, toNat_inj]

theorem toNat_distance_triangle (a b c : Address) :
    (a.distance c).toNat ≤ (a.distance b).toNat + (b.distance c).toNat := by
  have hmiddle : (a.distance c).toNat = (a.distance b).toNat ^^^ (b.distance c).toNat := by
    rw [toNat_distance, toNat_distance, toNat_distance, Nat.xor_assoc, Nat.xor_xor_cancel_left]
  rw [hmiddle]
  exact xor_le_add _ _

theorem le_proximity_iff_length_digits {n : Nat} (hn : n ≤ 256) :
    n ≤ a.proximity b ↔ (Nat.digits 2 (a.distance b).toNat).length ≤ 256 - n := by
  rw [le_proximity_iff_distance hn, Nat.digits_length_le_iff Nat.one_lt_two]

theorem length_digits_distance_le (a b : Address) : (Nat.digits 2 (a.distance b).toNat).length ≤ 256 :=
  (le_proximity_iff_length_digits (Nat.zero_le 256)).mp (Nat.zero_le _)

theorem proximity_eq_sub_length_digits (a b : Address) :
    a.proximity b = 256 - (Nat.digits 2 (a.distance b).toNat).length := by
  have hlen := length_digits_distance_le a b
  apply Nat.le_antisymm
  · have h := (le_proximity_iff_length_digits (proximity_le a b)).mp (Nat.le_refl _)
    have hprox := proximity_le a b
    omega
  · rw [le_proximity_iff_length_digits (by omega)]
    omega

theorem compareToward_swap (t a b : Address) : (t.compareToward a b).swap = t.compareToward b a := by
  rw [compareToward_eq, compareToward_eq, Nat.compare_swap]

/-- Addresses at one distance from a third are one address. -/
theorem toNat_distance_right_inj {t : Address} : (t.distance a).toNat = (t.distance b).toNat ↔ a = b := by
  rw [toNat_distance, toNat_distance, Nat.xor_right_inj, toNat_inj]

theorem compareToward_eq_eq_iff {t : Address} : t.compareToward a b = .eq ↔ a = b := by
  rw [compareToward_eq, Nat.compare_eq_eq, toNat_distance_right_inj]

/-- The proximity order, the comparison toward a target and the distance are views of one metric on numbers. -/
theorem closeness_is_numeric_metric (a b c t : Address) :
    let d := fun x y : Address => (x.distance y).toNat
    ((Nat.digits 2 (d a b)).length ≤ 256 ∧ a.proximity b = 256 - (Nat.digits 2 (d a b)).length) ∧
      t.compareToward a b = compare (d t a) (d t b) ∧
      sign (t.compareToward a b) = ((d t a : Int) - d t b).sign ∧
      (t.compareToward a b).swap = t.compareToward b a ∧
      sign (t.compareToward b a) = -sign (t.compareToward a b) ∧
      (t.compareToward a b = .eq ↔ a = b) ∧
      (d a b = 0 ↔ a = b) ∧ d a b = d b a ∧ d a c ≤ d a b + d b c := by
  intro d
  have hsign : sign (t.compareToward a b) = ((d t a : Int) - d t b).sign := by
    rw [compareToward_eq, sign_compare]
  have hnegated : sign (t.compareToward b a) = -sign (t.compareToward a b) := by
    rw [← compareToward_swap, sign_swap]
  exact ⟨⟨length_digits_distance_le a b, proximity_eq_sub_length_digits a b⟩, compareToward_eq t a b, hsign,
    compareToward_swap t a b, hnegated, compareToward_eq_eq_iff, toNat_distance_eq_zero_iff,
    toNat_distance_comm a b, toNat_distance_triangle a b c⟩

end Address
end Kademlia
