import Kademlia.Proofs.Ranking.Canonical
import Mathlib.Data.List.Perm.Subperm

/-!
Selections of the closest addresses fit together. An entry that stands behind `k` others in one list stands behind them in
every longer list, so that it can be left out of a selection of `k` before the lists are put together.
-/
namespace Kademlia.Address
variable {t : Address} {as bs : List Address} {k : Nat}

/-- The entries that a selection of the `k` closest leaves out, closest first. -/
def beyond (t : Address) (as : List Address) (k : Nat) : List Address := (t.sortToward as).drop k

theorem closest_append_beyond (t : Address) (as : List Address) (k : Nat) :
    t.closest as k ++ t.beyond as k = t.sortToward as :=
  List.take_append_drop k _

theorem closest_append_beyond_perm (t : Address) (as : List Address) (k : Nat) :
    (t.closest as k ++ t.beyond as k).Perm as := by
  rw [closest_append_beyond]
  exact sortToward_perm t as

theorem length_closest (t : Address) (as : List Address) (k : Nat) : (t.closest as k).length = min k as.length := by
  rw [closest, List.length_take, (sortToward_perm t as).length_eq]

theorem subperm_closest (t : Address) (as : List Address) (k : Nat) : (t.closest as k).Subperm as :=
  (List.sublist_append_left _ _).subperm.trans (closest_append_beyond_perm t as k).subperm

theorem distance_le_of_mem_beyond {a b : Address} (ha : a ∈ t.closest as k) (hb : b ∈ t.beyond as k) :
    (t.distance a).toNat ≤ (t.distance b).toNat := by
  have hsorted := sortToward_pairwise t as
  rw [← closest_append_beyond t as k] at hsorted
  exact (List.pairwise_append.mp hsorted).2.2 a ha b hb

/-- Counted with their copies, the entries that are not selected are those beyond the selection. -/
theorem diff_closest_perm (t : Address) (as : List Address) (k : Nat) :
    (as.diff (t.closest as k)).Perm (t.beyond as k) := by
  have hcount : ∀ a ∈ t.closest as k, (t.closest as k).count a ≤ as.count a :=
    fun a _ => (subperm_closest t as k).count_le a
  have hsplit := List.subperm_append_diff_self_of_count_le hcount
  exact (List.perm_append_left_iff _).mp (hsplit.trans (closest_append_beyond_perm t as k).symm)

theorem closest_congr (t : Address) (hperm : as.Perm bs) (k : Nat) : t.closest as k = t.closest bs k := by
  rw [closest, closest, sortToward_congr t hperm]

theorem sortToward_append_of_le (h : ∀ a ∈ as, ∀ b ∈ bs, (t.distance a).toNat ≤ (t.distance b).toNat) :
    t.sortToward (as ++ bs) = t.sortToward as ++ t.sortToward bs := by
  have hranked : t.Ranked (t.sortToward as ++ t.sortToward bs) := by
    refine ranked_iff.mpr (List.pairwise_append.mpr ⟨sortToward_pairwise t as, sortToward_pairwise t bs, ?_⟩)
    intro a ha b hb
    exact h a ((sortToward_perm t as).mem_iff.mp ha) b ((sortToward_perm t bs).mem_iff.mp hb)
  exact (hranked.eq_sortToward ((sortToward_perm t as).append (sortToward_perm t bs))).symm

/-- Where `k` entries are no farther than `c`, none of the `k` closest is. -/
theorem distance_le_of_crowded {c : Address}
    (h : k ≤ as.countP fun a => (t.distance a).toNat ≤ (t.distance c).toNat) :
    ∀ a ∈ t.closest as k, (t.distance a).toNat ≤ (t.distance c).toNat :=
  ((closest_forall_iff (fun _ _ hab hb => Nat.le_trans hab hb) as k).mpr h).2

theorem ranked_closest (t : Address) (as : List Address) (k : Nat) : t.Ranked (t.closest as k) :=
  List.Pairwise.sublist (List.take_sublist k _) (ranked_sortToward t as)

/-- Entries that are behind `k` others do not change which are the `k` closest. -/
theorem closest_append_of_crowded
    (h : ∀ b ∈ bs, k ≤ as.countP fun a => (t.distance a).toNat ≤ (t.distance b).toNat) :
    t.closest (as ++ bs) k = t.closest as k := by
  -- if nothing is appended there may be fewer than `k` entries, else `h` says that there are enough
  cases bs with
  | nil => rw [List.append_nil]
  | cons b bs =>
    have hk : k ≤ as.length := Nat.le_trans (h b List.mem_cons_self) List.countP_le_length
    have hlen : (t.sortToward (t.closest as k)).length = k := by
      rw [(ranked_closest t as k).sortToward_eq, length_closest, Nat.min_eq_left hk]
    have hperm : (as ++ b :: bs).Perm (t.closest as k ++ (t.beyond as k ++ b :: bs)) := by
      rw [← List.append_assoc]
      exact (closest_append_beyond_perm t as k).symm.append_right _
    have hcloser : ∀ a ∈ t.closest as k, ∀ c ∈ t.beyond as k ++ b :: bs,
        (t.distance a).toNat ≤ (t.distance c).toNat := by
      intro a ha c hc
      cases List.mem_append.mp hc with
      | inl hc => exact distance_le_of_mem_beyond ha hc
      | inr hc => exact distance_le_of_crowded (h c hc) a ha
    calc
      t.closest (as ++ b :: bs) k = t.closest (t.closest as k ++ (t.beyond as k ++ b :: bs)) k :=
        closest_congr t hperm k
      _ = (t.sortToward (t.closest as k) ++ t.sortToward (t.beyond as k ++ b :: bs)).take k := by
        rw [closest, sortToward_append_of_le hcloser]
      _ = t.sortToward (t.closest as k) := List.take_left' hlen
      _ = t.closest as k := (ranked_closest t as k).sortToward_eq

/-- What a selection leaves out of one list has no place in a selection from a longer one. -/
theorem closest_append_left (t : Address) (as bs : List Address) (k : Nat) :
    t.closest (as ++ bs) k = t.closest (t.closest as k ++ bs) k := by
  have hperm : (as ++ bs).Perm ((t.closest as k ++ bs) ++ t.beyond as k) := by
    have hsplit := (closest_append_beyond_perm t as k).symm.append_right bs
    rw [List.append_assoc] at hsplit ⊢
    exact hsplit.trans (List.perm_append_comm.append_left _)
  rw [closest_congr t hperm]
  apply closest_append_of_crowded
  intro b hb
  -- something is left out only by a full selection, all of which stands before it
  have hfull : (t.closest as k).length = k := by
    have hpos := List.length_pos_of_mem hb
    rw [beyond, List.length_drop, (sortToward_perm t as).length_eq] at hpos
    rw [length_closest]
    omega
  have hall : (t.closest as k).countP (fun a => (t.distance a).toNat ≤ (t.distance b).toNat) = k := by
    rw [List.countP_eq_length.mpr, hfull]
    intro a ha
    exact decide_eq_true (distance_le_of_mem_beyond ha hb)
  rw [List.countP_append, hall]
  exact Nat.le_add_right k _

theorem closest_append (t : Address) (as bs : List Address) (k : Nat) :
    t.closest (as ++ bs) k = t.closest (t.closest as k ++ t.closest bs k) k := by
  calc
    t.closest (as ++ bs) k = t.closest (t.closest as k ++ bs) k := closest_append_left t as bs k
    _ = t.closest (bs ++ t.closest as k) k := closest_congr t List.perm_append_comm k
    _ = t.closest (t.closest bs k ++ t.closest as k) k := closest_append_left t bs _ k
    _ = t.closest (t.closest as k ++ t.closest bs k) k := closest_congr t List.perm_append_comm k

/-- The closest entries of two lists together are among the closest of either; a selection is a part of its list, as large
as asked for, beside which nothing closer is left, and it begins with every smaller selection. -/
theorem closest_composes (t : Address) (as bs : List Address) (j k : Nat) :
    t.closest (as ++ bs) k = t.closest (t.closest as k ++ t.closest bs k) k ∧
      (t.closest as k).length = min k as.length ∧
      (t.closest as k).Subperm as ∧
      (∀ left ∈ as.diff (t.closest as k), ∀ kept ∈ t.closest as k, t.compareToward left kept ≠ .lt) ∧
      (j ≤ k → t.closest as j = (t.closest as k).take j) := by
  refine ⟨closest_append t as bs k, length_closest t as k, subperm_closest t as k, ?_, ?_⟩
  · intro left hleft kept hkept
    rw [compareToward_ne_lt_iff]
    exact distance_le_of_mem_beyond hkept ((diff_closest_perm t as k).mem_iff.mp hleft)
  · intro hjk
    rw [closest, closest, List.take_take, Nat.min_eq_left hjk]

/-- One candidate occurs twice in the first list, of which the farthest is left out, and another in both lists. -/
theorem repeated_closest_composes :
    let near := zero.flipBit 9
    let mid := zero.flipBit 5
    let far := zero.flipBit 2
    let as := [far, near, mid, near]
    zero.closest (as ++ [mid, zero]) 3 = zero.closest (zero.closest as 3 ++ zero.closest [mid, zero] 3) 3 ∧
      (zero.closest as 3).length = 3 ∧
      far ∈ as.diff (zero.closest as 3) ∧ near ∈ zero.closest as 3 ∧ zero.compareToward far near ≠ .lt ∧
      zero.closest as 1 = (zero.closest as 3).take 1 := by
  intro near mid far as
  obtain ⟨hmerged, hlen, -, hleft, hsmaller⟩ := closest_composes zero as [mid, zero] 1 3
  have hranked : zero.Ranked [near, near, mid, far] := by decide +kernel
  have hperm : [near, near, mid, far].Perm as := by decide +kernel
  have hclosest : zero.closest as 3 = [near, near, mid] := by
    rw [closest, ← hranked.eq_sortToward hperm]
    rfl
  have hfar : far ∈ as.diff (zero.closest as 3) := by
    rw [hclosest]
    decide +kernel
  have hnear : near ∈ zero.closest as 3 := by
    rw [hclosest]
    exact List.mem_cons_self
  exact ⟨hmerged, hlen, hfar, hnear, hleft far hfar near hnear, hsmaller (by decide)⟩

end Kademlia.Address
