import Kademlia.Proofs.Proximity.Ultrametric
import Kademlia.Proofs.Space.Bins

/-!
Why a lookup gets on. A peer from the bin of the wanted address shares more bits with that address than home does,
and so it is closer.
-/
namespace Kademlia.Space
open Address
variable {σ : Type}

theorem proximity_home_of_binOf_eq (s : Space σ) {bin : Nat} (hbin : bin < s.config.maxProx) {a : Address}
    (ha : s.binOf a = bin) : s.home.proximity a = bin := by
  rw [binOf_eq_min] at ha
  omega

theorem lt_proximity_of_binOf_eq (s : Space σ) {bin : Nat} (hbin : bin < s.config.maxProx) {t q : Address}
    (ht : s.binOf t = bin) (hq : s.binOf q = bin) : bin < q.proximity t := by
  have hdepth := s.maxProx_le
  have htarget := s.proximity_home_of_binOf_eq hbin ht
  have hpeer := s.proximity_home_of_binOf_eq hbin hq
  have h := lt_proximity_of_proximity_eq (hpeer.trans htarget.symm) (by omega)
  rwa [hpeer] at h

/-- A peer from the bin of an address outside the neighbourhood is closer to it than home. -/
theorem compareToward_home_of_binOf_eq (s : Space σ) {bin : Nat} (hbin : bin < s.config.maxProx) {t q : Address}
    (ht : s.binOf t = bin) (hq : s.binOf q = bin) : t.compareToward q s.home = .lt := by
  apply compareToward_eq_lt_of_proximity_lt
  rw [proximity_comm t s.home, s.proximity_home_of_binOf_eq hbin ht, proximity_comm t q]
  exact s.lt_proximity_of_binOf_eq hbin ht hq

/-- Among three addresses exactly two pairs are the least close, and therefore a peer from the bin of a target, be it
known or a refresh target for that bin, is a step toward it. -/
theorem same_bin_makes_progress :
    (∀ a b c : Address, ¬(a = b ∧ b = c) →
      [a.proximity b, b.proximity c, a.proximity c].count
        (min (a.proximity b) (min (b.proximity c) (a.proximity c))) = 2) ∧
      ∀ {σ : Type} (s : Space σ) {bin : Nat} {t : Address}, bin < s.config.maxProx → s.binOf t = bin →
        (∀ q, s.binOf q = bin → bin < q.proximity t ∧ t.compareToward q s.home = .lt) ∧
          ∀ [ByteSource σ], s.binOf (s.refreshTarget bin).address = bin ∧
            bin < (s.refreshTarget bin).address.proximity t ∧
            t.compareToward (s.refreshTarget bin).address s.home = .lt := by
  refine ⟨count_min_proximity, ?_⟩
  intro σ s bin t hbin ht
  have hpeer : ∀ q, s.binOf q = bin → bin < q.proximity t ∧ t.compareToward q s.home = .lt := fun q hq =>
    ⟨s.lt_proximity_of_binOf_eq hbin ht hq, s.compareToward_home_of_binOf_eq hbin ht hq⟩
  refine ⟨hpeer, ?_⟩
  intro _
  have hrefreshed : s.binOf (s.refreshTarget bin).address = bin := by
    rw [binOf_refreshTarget, Nat.min_eq_left (Nat.le_of_lt hbin)]
  exact ⟨hrefreshed, hpeer _ hrefreshed⟩

/-- Three addresses that part at bits 5 and 9, and a target in bin 2 with a refresh target filled up with ones. -/
theorem testing_same_bin_makes_progress :
    let near := (zero.flipBit 5).flipBit 9
    let s : Space Constant := ⟨zero, Config.testing, ⟨0xff⟩, rfl⟩
    let t := (zero.flipBit 2).flipBit 7
    [zero.proximity near, near.proximity (zero.flipBit 5), zero.proximity (zero.flipBit 5)].count 5 = 2 ∧
      2 < s.config.maxProx ∧ s.binOf t = 2 ∧ s.binOf (zero.flipBit 2) = 2 ∧ 2 < (zero.flipBit 2).proximity t ∧
      t.compareToward (zero.flipBit 2) zero = .lt ∧
      2 < (s.refreshTarget 2).address.proximity t ∧ t.compareToward (s.refreshTarget 2).address zero = .lt := by
  intro near s t
  obtain ⟨htriangle, hprogress⟩ := same_bin_makes_progress
  have hcount := htriangle zero near (zero.flipBit 5) (by decide +kernel)
  have hmin : min (zero.proximity near) (min (near.proximity (zero.flipBit 5)) (zero.proximity (zero.flipBit 5))) =
      5 := by
    decide +kernel
  have ht : s.binOf t = 2 := by decide +kernel
  have hq : s.binOf (zero.flipBit 2) = 2 := by decide +kernel
  obtain ⟨hpeer, hrefreshed⟩ := hprogress s (by decide) ht
  exact ⟨hmin ▸ hcount, by decide, ht, hq, (hpeer _ hq).1, (hpeer _ hq).2, hrefreshed.2⟩

end Kademlia.Space
