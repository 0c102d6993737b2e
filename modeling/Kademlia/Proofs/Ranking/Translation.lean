import Kademlia.Proofs.Proximity.Metric
import Kademlia.Proofs.Ranking

/-!
Translations: every address changed by the distance to one of them. A translation done twice changes nothing, and it keeps
the distance of any two addresses, so that rankings are carried along by it although the order of the bytes is not. The
translation that takes a target to zero makes the ranking toward it the order of the bytes.
-/
namespace Kademlia.Address

theorem distance_distance_right (a m : Address) : (a.distance m).distance m = a := by
  apply eq_of_bit
  intro i _
  rw [bit_distance, bit_distance, Bool.xor_assoc, Bool.xor_self, Bool.xor_false]

theorem distance_translated (a b m : Address) : (a.distance m).distance (b.distance m) = a.distance b := by
  apply eq_of_bit
  intro i _
  simp only [bit_distance]
  cases a.bit i <;> cases b.bit i <;> cases m.bit i <;> rfl

theorem proximity_translated (a b m : Address) : (a.distance m).proximity (b.distance m) = a.proximity b := by
  rw [proximity_eq_sub_length_digits, distance_translated, ← proximity_eq_sub_length_digits]

theorem compareToward_translated (t a b m : Address) :
    (t.distance m).compareToward (a.distance m) (b.distance m) = t.compareToward a b := by
  rw [compareToward_eq, distance_translated, distance_translated, ← compareToward_eq]

theorem sortToward_translated (t m : Address) (as : List Address) :
    (t.distance m).sortToward (as.map fun a => a.distance m) = (t.sortToward as).map fun a => a.distance m := by
  symm
  apply List.map_mergeSort
  intro a _ b _
  rw [compareToward_translated]

theorem closest_translated (t m : Address) (as : List Address) (k : Nat) :
    (t.distance m).closest (as.map fun a => a.distance m) k = (t.closest as k).map fun a => a.distance m := by
  rw [closest, sortToward_translated, closest, List.map_take]

theorem toNat_zero : zero.toNat = 0 := rfl

theorem distance_self (a : Address) : a.distance a = zero := by
  rw [← toNat_inj, toNat_zero, toNat_distance_eq_zero_iff]

theorem zero_distance (a : Address) : zero.distance a = a := by
  rw [← toNat_inj, toNat_distance, toNat_zero, Nat.zero_xor]

def ascending (as : List Address) : List Address := as.mergeSort fun a b => a.bytes ≤ b.bytes

/-- Toward zero every address is its own distance. -/
theorem sortToward_zero (as : List Address) : zero.sortToward as = ascending as := by
  have horder : (fun a b : Address => (zero.compareToward a b).isLE) = fun a b => decide (a.bytes ≤ b.bytes) := by
    funext a b
    rw [Bool.eq_iff_iff, decide_eq_true_iff, compareToward_isLE_iff, zero_distance, zero_distance, bytes_le_iff]
  rw [sortToward, horder, ascending]

theorem sortToward_eq_map_ascending (t : Address) (as : List Address) :
    t.sortToward as = (ascending (as.map fun a => a.distance t)).map fun a => a.distance t := by
  rw [← sortToward_zero, ← distance_self t, sortToward_translated, List.map_map]
  simp [Function.comp_def, distance_distance_right]

/-- A translation keeps the proximity order, the comparison toward a target, the ranking and every selection from it. Where
it takes the target to zero, the ranking is the plain order of the translated addresses, translated back. -/
theorem ranking_invariant_under_translation (m t a b : Address) (as : List Address) (k : Nat) :
    let move := fun x : Address => x.distance m
    move (move a) = a ∧
      (move a).proximity (move b) = a.proximity b ∧
      (move t).compareToward (move a) (move b) = t.compareToward a b ∧
      (move t).sortToward (as.map move) = (t.sortToward as).map move ∧
      (move t).closest (as.map move) k = (t.closest as k).map move ∧
      t.sortToward as = (ascending (as.map fun x => x.distance t)).map fun x => x.distance t := by
  intro move
  exact ⟨distance_distance_right a m, proximity_translated a b m, compareToward_translated t a b m,
    sortToward_translated t m as, closest_translated t m as k, sortToward_eq_map_ascending t as⟩

end Kademlia.Address
