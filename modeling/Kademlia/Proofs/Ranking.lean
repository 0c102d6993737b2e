import Kademlia.Proofs.Proximity

/-!
The order in which addresses are ranked toward a target. The comparison is that of two numbers, so sorting yields an
ascending permutation; what is downward closed in the order stands in front.
-/
namespace Kademlia

/-- Where a property of an entry is inherited by all entries before it, the entries that have it come first. -/
theorem eq_filter_append_filter_not {α : Type} {p : α → Bool} {as : List α}
    (h : as.Pairwise fun a b => p b = true → p a = true) : as = as.filter p ++ as.filter (fun a => !p a) := by
  induction as with
  | nil => rfl
  | cons a as ih =>
    have hall : ∀ b ∈ as, p b = true → p a = true := fun b hb => List.rel_of_pairwise_cons h hb
    have htail := ih (List.Pairwise.of_cons h)
    by_cases ha : p a = true
    · rw [List.filter_cons_of_pos ha, List.filter_cons_of_neg (by simp [ha]), List.cons_append, ← htail]
    · -- nothing behind `a` can have the property
      have hnone : as.filter p = [] := List.filter_eq_nil_iff.mpr fun b hb hpb => ha (hall b hb hpb)
      rw [hnone, List.nil_append] at htail
      rw [List.filter_cons_of_neg ha, hnone, List.filter_cons_of_pos (by simp [ha]), List.nil_append, ← htail]

theorem take_countP {α : Type} {p : α → Bool} {as : List α}
    (h : as.Pairwise fun a b => p b = true → p a = true) : as.take (as.countP p) = as.filter p := by
  calc
    as.take (as.countP p) = (as.filter p ++ as.filter fun a => !p a).take (as.filter p).length := by
      rw [← eq_filter_append_filter_not h, List.countP_eq_length_filter]
    _ = as.filter p := List.take_left

theorem getElem_iff_lt_countP {α : Type} {p : α → Bool} {as : List α}
    (h : as.Pairwise fun a b => p b = true → p a = true) {i : Nat} (hi : i < as.length) :
    p as[i] = true ↔ i < as.countP p := by
  have hget := List.getElem_of_eq (eq_filter_append_filter_not h) hi
  rw [List.countP_eq_length_filter, hget]
  by_cases hlt : i < (as.filter p).length
  · rw [List.getElem_append_left hlt]
    exact iff_of_true (List.mem_filter.mp (List.getElem_mem hlt)).2 hlt
  · rw [List.getElem_append_right (Nat.not_lt.mp hlt)]
    have hnot : ∀ b ∈ as.filter (fun a => !p a), ¬p b = true := fun b hb => by
      simpa using (List.mem_filter.mp hb).2
    exact iff_of_false (hnot _ (List.getElem_mem _)) hlt

/-- The first `n` entries all have the property when at least `n` entries have it. -/
theorem take_forall_iff_le_countP {α : Type} {p : α → Bool} {as : List α}
    (h : as.Pairwise fun a b => p b = true → p a = true) (n : Nat) :
    ((as.take n).length = n ∧ ∀ a ∈ as.take n, p a = true) ↔ n ≤ as.countP p := by
  constructor
  · rintro ⟨hlen, hall⟩
    rw [List.length_take] at hlen
    -- otherwise the entry behind those with the property would be among the first `n`
    by_contra hlt
    have hcount : as.countP p < (as.take n).length := by
      rw [List.length_take]
      omega
    have hentry := hall _ (List.getElem_mem hcount)
    rw [List.getElem_take, getElem_iff_lt_countP h] at hentry
    exact Nat.lt_irrefl _ hentry
  · intro hn
    have hlen := List.countP_le_length (p := p) (l := as)
    refine ⟨List.length_take_of_le (Nat.le_trans hn hlen), fun a ha => ?_⟩
    obtain ⟨i, hi, rfl⟩ := List.getElem_of_mem ha
    rw [List.length_take] at hi
    rw [List.getElem_take, getElem_iff_lt_countP h]
    omega

namespace Address

theorem compareToward_isLE_iff {t a b : Address} :
    (t.compareToward a b).isLE ↔ (t.distance a).toNat ≤ (t.distance b).toNat := by
  rw [compareToward_eq, Nat.isLE_compare]

theorem sortToward_perm (t : Address) (as : List Address) : (t.sortToward as).Perm as :=
  List.mergeSort_perm _ _

theorem sortToward_pairwise (t : Address) (as : List Address) :
    (t.sortToward as).Pairwise fun a b => (t.distance a).toNat ≤ (t.distance b).toNat := by
  have hsorted : (t.sortToward as).Pairwise fun a b => (t.compareToward a b).isLE = true := by
    apply List.pairwise_mergeSort
    · intro a b c hab hbc
      rw [compareToward_isLE_iff] at hab hbc ⊢
      exact Nat.le_trans hab hbc
    · intro a b
      rw [Bool.or_eq_true, compareToward_isLE_iff, compareToward_isLE_iff]
      exact Nat.le_total _ _
  exact hsorted.imp compareToward_isLE_iff.mp

/-- The `n` closest entries all have a property that is inherited toward the target when at least `n` entries have it. -/
theorem closest_forall_iff {t : Address} {p : Address → Prop} [DecidablePred p]
    (hp : ∀ a b, (t.distance a).toNat ≤ (t.distance b).toNat → p b → p a) (as : List Address) (n : Nat) :
    ((t.closest as n).length = n ∧ ∀ a ∈ t.closest as n, p a) ↔ n ≤ as.countP (p ·) := by
  have hlead : (t.sortToward as).Pairwise fun a b => decide (p b) = true → decide (p a) = true := by
    simp only [decide_eq_true_eq]
    exact (sortToward_pairwise t as).imp fun {a b} hab => hp a b hab
  have h := take_forall_iff_le_countP hlead n
  rw [(sortToward_perm t as).countP_eq] at h
  simpa only [closest, decide_eq_true_eq] using h

end Address
end Kademlia
