import Kademlia.Proofs.Proximity.Metric
import Kademlia.Proofs.Proximity.Ultrametric
import Kademlia.Proofs.Ranking

/-!
The ranking toward a target is the only one. Addresses at one distance from the target are one address, so a list leaves
no choice to whoever orders it, and the order in which it was given is forgotten.
-/
namespace Kademlia.Address
variable {t : Address} {as bs : List Address}

/-- No entry is followed, next or later, by one that is strictly closer to the target. -/
def Ranked (t : Address) (as : List Address) : Prop := as.Pairwise fun a b => t.compareToward b a ≠ .lt

instance (t : Address) (as : List Address) : Decidable (t.Ranked as) :=
  inferInstanceAs (Decidable (as.Pairwise fun a b => t.compareToward b a ≠ .lt))

theorem compareToward_ne_lt_iff {a b : Address} :
    t.compareToward b a ≠ .lt ↔ (t.distance a).toNat ≤ (t.distance b).toNat := by
  rw [compareToward_eq, Ne, Nat.compare_eq_lt, Nat.not_lt]

theorem ranked_iff : t.Ranked as ↔ as.Pairwise fun a b => (t.distance a).toNat ≤ (t.distance b).toNat := by
  simp only [Ranked, compareToward_ne_lt_iff]

theorem ranked_sortToward (t : Address) (as : List Address) : t.Ranked (t.sortToward as) :=
  ranked_iff.mpr (sortToward_pairwise t as)

theorem Ranked.eq_of_perm (has : t.Ranked as) (hbs : t.Ranked bs) (hperm : as.Perm bs) : as = bs := by
  rw [ranked_iff] at has hbs
  refine hperm.eq_of_pairwise (fun a b _ _ hab hba => ?_) has hbs
  exact toNat_distance_right_inj.mp (Nat.le_antisymm hab hba)

theorem Ranked.eq_sortToward (has : t.Ranked as) (hperm : as.Perm bs) : as = t.sortToward bs :=
  has.eq_of_perm (ranked_sortToward t bs) (hperm.trans (sortToward_perm t bs).symm)

theorem Ranked.sortToward_eq (has : t.Ranked as) : t.sortToward as = as :=
  (has.eq_sortToward (List.Perm.refl as)).symm

theorem sortToward_congr (t : Address) (hperm : as.Perm bs) : t.sortToward as = t.sortToward bs :=
  (ranked_sortToward t as).eq_sortToward ((sortToward_perm t as).trans hperm)

theorem proximity_le_of_distance_le {a b : Address} (h : (t.distance a).toNat ≤ (t.distance b).toNat) :
    t.proximity b ≤ t.proximity a := by
  by_contra hlt
  exact Nat.not_lt.mpr h (distance_lt_of_proximity_lt (Nat.not_le.mp hlt))

/-- Sorting toward a target yields the one permutation in which nothing closer comes later, from whatever order the list
had, and the proximity order only falls along it. -/
theorem ranking_is_canonical (t : Address) (as : List Address) :
    (t.sortToward as).Perm as ∧ t.Ranked (t.sortToward as) ∧
      (∀ bs : List Address, bs.Perm as → t.Ranked bs → bs = t.sortToward as) ∧
      (∀ bs : List Address, bs.Perm as → t.sortToward bs = t.sortToward as) ∧
      t.sortToward (t.sortToward as) = t.sortToward as ∧
      (t.sortToward as).Pairwise fun a b => t.proximity b ≤ t.proximity a := by
  have hranked := ranked_sortToward t as
  refine ⟨sortToward_perm t as, hranked, ?_, ?_, hranked.sortToward_eq, ?_⟩
  · intro bs hperm hbs
    exact hbs.eq_sortToward hperm
  · intro bs hperm
    exact sortToward_congr t hperm
  · exact (ranked_iff.mp hranked).imp proximity_le_of_distance_le

/-- Two candidates share two bits with the target and one of them occurs twice. -/
theorem repeated_ranking_is_canonical :
    let t := zero.flipBit 1
    let near := (t.flipBit 2).flipBit 3
    let nearer := t.flipBit 2
    let given := [zero, near, nearer, near]
    let ranked := [nearer, near, near, zero]
    ranked.Perm given ∧ t.Ranked ranked ∧ ranked = t.sortToward given ∧
      t.sortToward ranked = t.sortToward given := by
  intro t near nearer given ranked
  obtain ⟨-, -, honly, horder, -⟩ := ranking_is_canonical t given
  have hperm : ranked.Perm given := by decide +kernel
  have hranked : t.Ranked ranked := by decide +kernel
  exact ⟨hperm, hranked, honly ranked hperm hranked, horder ranked hperm⟩

end Kademlia.Address
