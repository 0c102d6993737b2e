import Kademlia.Proofs.KeyRange.Ranking
import Kademlia.Proofs.Space.Bins

/-!
When the neighbourhood is saturated. Counting the peers of the last bin gives the same answer as a look at the peers
closest to home, and the answer hangs on the peers of that bin alone.
-/
namespace Kademlia.Space
open Address
variable {σ : Type}

theorem neighbourhoodUnderfilled_eq_false_iff (s : Space σ) (peers : List Address) :
    (s.neighbourhoodUnderfilled peers).1 = false ↔ s.config.proxBinSize ≤ (s.neighbours peers).length := by
  simp only [neighbourhoodUnderfilled, Config.underfilled, decide_eq_true_eq]
  split
  · next hless => exact iff_of_false Bool.noConfusion (Nat.not_le.mpr hless)
  · next hless => exact iff_of_true rfl (Nat.not_lt.mp hless)

theorem neighbourhoodUnderfilled_congr (s : Space σ) {peers others : List Address}
    (h : (s.neighbours peers).length = (s.neighbours others).length) :
    (s.neighbourhoodUnderfilled peers).1 = (s.neighbourhoodUnderfilled others).1 := by
  rw [Bool.eq_iff_iff, ← Bool.not_eq_false, ← Bool.not_eq_false, neighbourhoodUnderfilled_eq_false_iff,
    neighbourhoodUnderfilled_eq_false_iff, h]

theorem neighbours_perm (s : Space σ) {peers others : List Address} (h : peers.Perm others) :
    (s.neighbours peers).Perm (s.neighbours others) :=
  h.filter _

theorem length_neighbours_of_perm_append (s : Space σ) {peers extra more : List Address}
    (h : more.Perm (peers ++ extra)) :
    (s.neighbours more).length = (s.neighbours peers).length + (s.neighbours extra).length := by
  have happend : s.neighbours (peers ++ extra) = s.neighbours peers ++ s.neighbours extra := List.filter_append ..
  rw [(s.neighbours_perm h).length_eq, happend, List.length_append]

theorem neighbours_eq_nil_iff (s : Space σ) (peers : List Address) :
    s.neighbours peers = [] ↔ ∀ a ∈ peers, a = s.home ∨ s.binOf a ≠ s.config.maxProx := by
  rw [neighbours, List.filter_eq_nil_iff]
  refine forall₂_congr fun a _ => ?_
  rw [decide_eq_true_eq, not_and_or, not_ne_iff]

theorem neighbours_eq_filter_mem (s : Space σ) (peers : List Address) :
    s.neighbours peers =
      (peers.filter (· ≠ s.home)).filter (· ∈ s.home.keyRange s.home s.config.maxProx) := by
  rw [neighbours, List.filter_filter]
  refine List.filter_congr fun a _ => ?_
  rw [← Bool.decide_and, decide_eq_decide, s.binOf_eq_maxProx_iff_mem, and_comm]

/-- The peers closest to home are neighbours as far as there are neighbours, since these lead the ranking. -/
theorem le_length_neighbours_iff (s : Space σ) (peers : List Address) (n : Nat) :
    n ≤ (s.neighbours peers).length ↔
      (s.closest (peers.filter (· ≠ s.home)) n).length = n ∧
        ∀ a ∈ s.closest (peers.filter (· ≠ s.home)) n, s.binOf a = s.config.maxProx := by
  have hinherited : ∀ a b, (s.home.distance a).toNat ≤ (s.home.distance b).toNat →
      b ∈ s.home.keyRange s.home s.config.maxProx → a ∈ s.home.keyRange s.home s.config.maxProx :=
    fun a b hab hb => mem_of_distance_le (self_mem_keyRange s.home s.home s.config.maxProx) hab hb
  rw [neighbours_eq_filter_mem, ← List.countP_eq_length_filter, ← closest_forall_iff hinherited]
  simp only [binOf_eq_maxProx_iff_mem]
  rfl

theorem neighbours_eq_nil_of_width (s : Space σ) (hw : s.config.maxProx = 256) (peers : List Address) :
    s.neighbours peers = [] := by
  rw [neighbours_eq_nil_iff]
  intro a _
  by_cases ha : a = s.home
  · exact Or.inl ha
  · have hne : s.home.proximity a ≠ 256 := fun h => ha (proximity_eq_width_iff.mp h).symm
    have hle := proximity_le s.home a
    rw [binOf_eq_min, hw]
    omega

/-- The neighbourhood is saturated when the closest peers other than home fill it; only its own peers count for that,
in any order, and at full depth there are none. -/
theorem saturation_agrees_with_closest (s : Space σ) (peers : List Address) :
    ((s.neighbourhoodUnderfilled peers).1 = false ↔
        (s.closest (peers.filter (· ≠ s.home)) s.config.proxBinSize).length = s.config.proxBinSize ∧
          ∀ a ∈ s.closest (peers.filter (· ≠ s.home)) s.config.proxBinSize, s.binOf a = s.config.maxProx) ∧
      (∀ others, others.Perm peers →
        (s.neighbourhoodUnderfilled others).1 = (s.neighbourhoodUnderfilled peers).1) ∧
      (∀ extra more, more.Perm (peers ++ extra) →
        (s.neighbourhoodUnderfilled peers).1 = false → (s.neighbourhoodUnderfilled more).1 = false) ∧
      (∀ extra more, more.Perm (peers ++ extra) → (∀ a ∈ extra, a = s.home ∨ s.binOf a ≠ s.config.maxProx) →
        (s.neighbourhoodUnderfilled more).1 = (s.neighbourhoodUnderfilled peers).1) ∧
      (s.config.maxProx = 256 → (s.neighbourhoodUnderfilled peers).1 = true) := by
  refine ⟨?_, ?_, ?_, ?_, ?_⟩
  · rw [neighbourhoodUnderfilled_eq_false_iff, le_length_neighbours_iff]
  · intro others hperm
    exact s.neighbourhoodUnderfilled_congr (s.neighbours_perm hperm).length_eq
  · intro extra more hperm hfull
    rw [neighbourhoodUnderfilled_eq_false_iff] at hfull ⊢
    rw [s.length_neighbours_of_perm_append hperm]
    omega
  · intro extra more hperm hextra
    apply s.neighbourhoodUnderfilled_congr
    rw [s.length_neighbours_of_perm_append hperm, (s.neighbours_eq_nil_iff extra).mpr hextra, List.length_nil,
      Nat.add_zero]
  · intro hw
    have hsize : 0 < s.config.proxBinSize := (Config.defect?_eq_none.mp s.usable).2
    rw [← Bool.not_eq_false, neighbourhoodUnderfilled_eq_false_iff, s.neighbours_eq_nil_of_width hw]
    exact Nat.not_le.mpr hsize

/-- One peer saturates the neighbourhood at depth 4 whatever stands around it, and at full depth none does. -/
theorem testing_saturation_agrees_with_closest :
    let s : Space Constant := ⟨zero, Config.testing, ⟨0⟩, rfl⟩
    let deep : Space Constant := ⟨zero, Config.testing.withMaxProx 256, ⟨0⟩, rfl⟩
    let peers := [zero.flipBit 2, zero.flipBit 7]
    let more := [zero, zero.flipBit 7, zero.flipBit 2, zero.flipBit 3]
    more.Perm (peers ++ [zero.flipBit 3, zero]) ∧ (s.neighbourhoodUnderfilled peers).1 = false ∧
      (s.closest peers 1).length = 1 ∧ (s.neighbourhoodUnderfilled more).1 = false ∧
      (s.neighbourhoodUnderfilled more).1 = (s.neighbourhoodUnderfilled peers).1 ∧
      (s.neighbourhoodUnderfilled peers.reverse).1 = false ∧ (deep.neighbourhoodUnderfilled peers).1 = true := by
  intro s deep peers more
  obtain ⟨hclosest, horder, hgrown, hsame, -⟩ := saturation_agrees_with_closest s peers
  have hperm : more.Perm (peers ++ [zero.flipBit 3, zero]) := by decide +kernel
  have hfull : (s.neighbourhoodUnderfilled peers).1 = false := by decide +kernel
  have hextra : ∀ a ∈ [zero.flipBit 3, zero], a = s.home ∨ s.binOf a ≠ s.config.maxProx := by decide +kernel
  have hothers : peers.filter (· ≠ s.home) = peers := by decide +kernel
  have hlength := (hclosest.mp hfull).1
  rw [hothers] at hlength
  exact ⟨hperm, hfull, hlength, hgrown _ more hperm hfull, hsame _ more hperm hextra,
    (horder peers.reverse peers.reverse_perm).trans hfull, (saturation_agrees_with_closest deep peers).2.2.2.2 rfl⟩

end Kademlia.Space
