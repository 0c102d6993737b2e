import Kademlia.Proofs.KeyRange.Members
import Kademlia.Proofs.KeyRange.Ranking
import Mathlib.Order.CompletePartialOrder

/-!
How key ranges lie to each other. Any member of a range and the length of its prefix give the whole range back, so of
two ranges that meet the one with the longer prefix lies within the other.
-/
namespace Kademlia.Address
variable {a b a' b' m x y : Address} {l l' : Nat}

theorem mem_keyRange_of_mem (hm : m ∈ a.keyRange b l) : x ∈ a.keyRange b l ↔ (a.keyRange b l).prox ≤ m.proximity x :=
  ⟨le_proximity_of_mem hm, mem_of_le_proximity hm⟩

/-- Up to the end of the prefix the reference of a range has the bits of every member. -/
theorem bit_eq_of_mem {i : Nat} (hm : m ∈ a.keyRange b l) (hi : i < (a.keyRange b l).prox) : a.bit i = m.bit i :=
  bit_eq_of_lt_proximity (Nat.lt_of_lt_of_le hi (mem_keyRange.mp hm))

/-- Ranges with a common member and prefixes of one length are the same in every field. -/
theorem keyRange_eq_of_mem (hm : m ∈ a.keyRange b l) (hm' : m ∈ a'.keyRange b' l')
    (hprox : (a.keyRange b l).prox = (a'.keyRange b' l').prox) : a.keyRange b l = a'.keyRange b' l' := by
  have hbit : ∀ i < (a.keyRange b l).prox, a.bit i = a'.bit i := fun i hi =>
    (bit_eq_of_mem hm hi).trans (bit_eq_of_mem hm' (hprox ▸ hi)).symm
  have hstart : (a.keyRange b l).start = (a'.keyRange b' l').start := by
    apply eq_of_bit
    intro i hi
    rw [bit_keyRange_start hi, bit_keyRange_start hi, ← hprox]
    exact ite_congr rfl (hbit i) fun _ => rfl
  have hstop : (a.keyRange b l).stop = (a'.keyRange b' l').stop := by
    apply eq_of_bit
    intro i hi
    rw [bit_keyRange_stop hi, bit_keyRange_stop hi, ← hprox]
    exact ite_congr rfl (hbit i) fun _ => rfl
  calc
    a.keyRange b l = ⟨(a.keyRange b l).start, (a.keyRange b l).stop, (a.keyRange b l).prox⟩ := rfl
    _ = a'.keyRange b' l' := by rw [hstart, hstop, hprox]

theorem keyRange_comm (a b : Address) (l : Nat) : a.keyRange b l = b.keyRange a l := by
  apply keyRange_eq_of_mem (self_mem_keyRange a b l) (other_mem_keyRange b a l)
  rw [keyRange_prox, keyRange_prox, proximity_comm]

theorem keyRange_of_mem (hx : x ∈ a.keyRange b l) (hy : y ∈ a.keyRange b l) :
    x.keyRange y (a.keyRange b l).prox = a.keyRange b l := by
  apply keyRange_eq_of_mem (self_mem_keyRange x y _) hx
  rw [keyRange_prox, Nat.min_eq_right (le_proximity_of_mem hx hy)]

theorem keyRange_start_mem (a b : Address) (l : Nat) : (a.keyRange b l).start ∈ a.keyRange b l := by
  rw [mem_keyRange, le_proximity_iff]
  refine ⟨keyRange_prox_le_width a b l, fun i hi => ?_⟩
  have hw := keyRange_prox_le_width a b l
  rw [bit_keyRange_start (by omega), if_pos hi]

/-- The ends of a range part right behind its prefix. -/
theorem proximity_keyRange_ends (a b : Address) (l : Nat) :
    (a.keyRange b l).start.proximity (a.keyRange b l).stop = (a.keyRange b l).prox := by
  have hw := keyRange_prox_le_width a b l
  have hshared : ∀ i < (a.keyRange b l).prox, (a.keyRange b l).start.bit i = (a.keyRange b l).stop.bit i := by
    intro i hi
    rw [bit_keyRange_start (by omega), bit_keyRange_stop (by omega), if_pos hi, if_pos hi]
  rcases Nat.lt_or_eq_of_le hw with hlt | heq
  · apply proximity_eq_of_bit hlt hshared
    rw [bit_keyRange_start hlt, bit_keyRange_stop hlt, if_neg (Nat.lt_irrefl _), if_neg (Nat.lt_irrefl _)]
    exact Bool.false_ne_true
  · rw [heq, proximity_eq_width_iff]
    exact eq_of_bit fun i hi => hshared i (heq ▸ hi)

theorem keyRange_ends (a b : Address) (l : Nat) {n : Nat} (hn : (a.keyRange b l).prox ≤ n) :
    (a.keyRange b l).start.keyRange (a.keyRange b l).stop n = a.keyRange b l := by
  apply keyRange_eq_of_mem (self_mem_keyRange _ _ n) (keyRange_start_mem a b l)
  rw [keyRange_prox, proximity_keyRange_ends, Nat.min_eq_left hn]

/-- Of two ranges that meet, the one with the longer prefix is the smaller one. -/
theorem members_subset_of_meet (hm : m ∈ a.keyRange b l) (hm' : m ∈ a'.keyRange b' l')
    (hprox : (a.keyRange b l).prox ≤ (a'.keyRange b' l').prox) :
    (a'.keyRange b' l').members ⊆ (a.keyRange b l).members := by
  intro x hx
  exact (mem_keyRange_of_mem hm).mpr (Nat.le_trans hprox ((mem_keyRange_of_mem hm').mp hx))

theorem members_subset_of_limit_le (a b : Address) (hl : l ≤ l') :
    (a.keyRange b l').members ⊆ (a.keyRange b l).members := by
  apply members_subset_of_meet (self_mem_keyRange a b l) (self_mem_keyRange a b l')
  rw [keyRange_prox, keyRange_prox]
  omega

/-- Key ranges are nested or disjoint, and each of them is rebuilt from any two of its members, from its ends, and
from its two references in either order. -/
theorem keyRanges_laminar (a b a' b' : Address) (l l' : Nat) :
    let range := a.keyRange b l
    let range' := a'.keyRange b' l'
    (Disjoint range.members range'.members ∨ range.members ⊆ range'.members ∨ range'.members ⊆ range.members) ∧
      (¬Disjoint range.members range'.members → range.prox ≤ range'.prox → range'.members ⊆ range.members) ∧
      (∀ x ∈ range, ∀ y ∈ range, x.keyRange y range.prox = range) ∧
      range.start.proximity range.stop = range.prox ∧
      (∀ n, range.prox ≤ n → range.start.keyRange range.stop n = range) ∧
      a.keyRange b l = b.keyRange a l ∧
      (l ≤ l' → ∀ c ∈ a.keyRange b l', c ∈ a.keyRange b l) := by
  intro range range'
  have hmeet : ¬Disjoint range.members range'.members → range.prox ≤ range'.prox → range'.members ⊆ range.members := by
    intro hnot hprox
    obtain ⟨m, hm, hm'⟩ := Set.not_disjoint_iff.mp hnot
    exact members_subset_of_meet hm hm' hprox
  have hmeet' : ¬Disjoint range.members range'.members → range'.prox ≤ range.prox → range.members ⊆ range'.members := by
    intro hnot hprox
    obtain ⟨m, hm, hm'⟩ := Set.not_disjoint_iff.mp hnot
    exact members_subset_of_meet hm' hm hprox
  have hnested : Disjoint range.members range'.members ∨ range.members ⊆ range'.members ∨
      range'.members ⊆ range.members := by
    by_cases hdisjoint : Disjoint range.members range'.members
    · exact Or.inl hdisjoint
    · rcases Nat.le_total range.prox range'.prox with hle | hle
      · exact Or.inr (Or.inr (hmeet hdisjoint hle))
      · exact Or.inr (Or.inl (hmeet' hdisjoint hle))
  exact ⟨hnested, hmeet, fun x hx y hy => keyRange_of_mem hx hy, proximity_keyRange_ends a b l,
    fun n hn => keyRange_ends a b l hn, keyRange_comm a b l, fun hl c hc => members_subset_of_limit_le a b hl hc⟩

/-- The range of six shared bits around the zero address holds one of eight, is rebuilt from two of its members and
from its ends, and holds the range that a higher limit gives. -/
theorem zero_keyRanges_laminar :
    let range := zero.keyRange (zero.flipBit 6) 6
    let range' := (zero.flipBit 8).keyRange (zero.flipBit 12) 200
    let x := zero.flipBit 9
    let y := (zero.flipBit 7).flipBit 250
    range.prox = 6 ∧ range'.prox = 8 ∧ zero ∈ range ∧ zero ∈ range' ∧ range'.members ⊆ range.members ∧
      x ∈ range ∧ y ∈ range ∧ x.keyRange y 6 = range ∧ range.start.keyRange range.stop 77 = range ∧
      zero ∈ zero.keyRange (zero.flipBit 6) 100 := by
  intro range range' x y
  have hmember : zero ∈ zero.keyRange (zero.flipBit 6) 100 := by decide +kernel
  obtain ⟨-, hmeet, hrebuilt, -, hends, -, -⟩ := keyRanges_laminar zero (zero.flipBit 6) (zero.flipBit 8)
    (zero.flipBit 12) 6 200
  have hlimit := (keyRanges_laminar zero (zero.flipBit 6) zero zero 6 100).2.2.2.2.2.2 (by decide) zero hmember
  have hprox : range.prox = 6 := by decide +kernel
  have hprox' : range'.prox = 8 := by decide +kernel
  have hmem' : zero ∈ range' := by decide +kernel
  have hx : x ∈ range := by decide +kernel
  have hy : y ∈ range := by decide +kernel
  have hnot : ¬Disjoint range.members range'.members := Set.not_disjoint_iff.mpr ⟨zero, hlimit, hmem'⟩
  have hsubset := hmeet hnot (by rw [hprox, hprox']; decide)
  have hpair := hrebuilt x hx y hy
  rw [hprox] at hpair
  exact ⟨hprox, hprox', hlimit, hmem', hsubset, hx, hy, hpair, hends 77 (by rw [hprox]; decide), hmember⟩

end Kademlia.Address
