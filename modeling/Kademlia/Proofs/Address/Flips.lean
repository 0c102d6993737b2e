import Kademlia.Proofs.Proximity
import Mathlib.Algebra.Ring.Parity
import Mathlib.Data.List.Nodup

/-!
Bits inverted one after the other. It matters only which places occur an odd number of times, not in what order, and the
places in which two addresses differ are the way from one to the other.
-/
namespace Kademlia.Address
variable {a b : Address} {is js : List Nat}

def flipBits (a : Address) (is : List Nat) : Address := is.foldl flipBit a

def differences (a b : Address) : List Nat := (List.range 256).filter fun i => a.bit i ≠ b.bit i

theorem mem_differences {i : Nat} : i ∈ a.differences b ↔ i < 256 ∧ a.bit i ≠ b.bit i := by
  simp [differences]

theorem nodup_differences (a b : Address) : (a.differences b).Nodup := List.nodup_range.filter _

/-- Each time its place occurs, a bit is inverted. -/
theorem bit_flipBits (a : Address) (is : List Nat) {j : Nat} (hj : j < 256) :
    (a.flipBits is).bit j = (a.bit j ^^ decide (Odd (is.count j))) := by
  induction is generalizing a with
  | nil => simp [flipBits]
  | cons i is ih =>
    have hrest : (a.flipBits (i :: is)).bit j = ((a.flipBit i).bit j ^^ decide (Odd (is.count j))) := ih (a.flipBit i)
    rw [hrest, bit_flipBit a i hj, Bool.xor_assoc]
    congr 1
    by_cases hji : j = i
    · subst hji
      by_cases hodd : Odd (is.count j)
      · simp [hodd, Nat.odd_add_one]
      · simp [hodd, Nat.odd_add_one]
    · simp [hji, List.count_cons_of_ne (Ne.symm hji)]

theorem bit_flipBits_ne_iff {j : Nat} (hj : j < 256) : (a.flipBits is).bit j ≠ a.bit j ↔ Odd (is.count j) := by
  rw [bit_flipBits a is hj]
  by_cases hodd : Odd (is.count j)
  · simp [hodd]
  · simp [hodd]

/-- Where a sequence of inverted bits leads is known from the parities. -/
theorem flipBits_eq_iff : a.flipBits is = b ↔ ∀ j < 256, Odd (is.count j) ↔ a.bit j ≠ b.bit j := by
  constructor
  · rintro rfl j hj
    rw [← bit_flipBits_ne_iff hj]
    exact ne_comm
  · intro h
    apply eq_of_bit
    intro j hj
    rw [bit_flipBits a is hj]
    by_cases hodd : Odd (is.count j)
    · rw [decide_eq_true hodd, Bool.xor_true]
      exact (Bool.eq_not_of_ne ((h j hj).mp hodd).symm).symm
    · have hsame : a.bit j = b.bit j := not_ne_iff.mp (mt (h j hj).mpr hodd)
      rw [decide_eq_false hodd, Bool.xor_false, hsame]

theorem flipBits_congr (h : ∀ j < 256, Odd (is.count j) ↔ Odd (js.count j)) : a.flipBits is = a.flipBits js := by
  rw [flipBits_eq_iff]
  intro j hj
  rw [h j hj, ← bit_flipBits_ne_iff hj]
  exact ne_comm

/-- The first place with an odd number of occurrences is the first in which the addresses differ. -/
theorem proximity_flipBits (a : Address) (is : List Nat) :
    a.proximity (a.flipBits is) = ((List.range 256).find? fun j => Odd (is.count j)).getD 256 := by
  cases hfirst : (List.range 256).find? fun j => Odd (is.count j) with
  | none =>
    have heven := List.find?_range_eq_none.mp hfirst
    rw [Option.getD_none, proximity_eq_width_iff, eq_comm, flipBits_eq_iff]
    intro j hj
    simpa using heven j hj
  | some n =>
    obtain ⟨hodd, hn, heven⟩ := List.find?_range_eq_some.mp hfirst
    have hwidth : n < 256 := List.mem_range.mp hn
    apply proximity_eq_of_bit hwidth
    · intro i hi
      have hi' : ¬Odd (is.count i) := by simpa using heven i hi
      exact (not_ne_iff.mp (mt (bit_flipBits_ne_iff (by omega)).mp hi')).symm
    · exact ((bit_flipBits_ne_iff hwidth).mpr (of_decide_eq_true hodd)).symm

/-- Without repetitions a sequence leads from one address to another exactly if it goes through their differences. -/
theorem flipBits_eq_iff_mem (hnodup : is.Nodup) :
    a.flipBits is = b ↔ ∀ j < 256, j ∈ is ↔ a.bit j ≠ b.bit j := by
  rw [flipBits_eq_iff]
  refine forall₂_congr fun j _ => ?_
  rw [hnodup.count]
  by_cases hmem : j ∈ is
  · simp [hmem]
  · simp [hmem]

theorem perm_differences_iff :
    is.Perm (a.differences b) ↔ is.Nodup ∧ (∀ i ∈ is, i < 256) ∧ a.flipBits is = b := by
  constructor
  · intro h
    have hnodup : is.Nodup := h.nodup_iff.mpr (nodup_differences a b)
    refine ⟨hnodup, fun i hi => (mem_differences.mp (h.mem_iff.mp hi)).1, (flipBits_eq_iff_mem hnodup).mpr fun j hj => ?_⟩
    rw [h.mem_iff, mem_differences, and_iff_right hj]
  · rintro ⟨hnodup, hwithin, hto⟩
    rw [List.perm_ext_iff_of_nodup hnodup (nodup_differences a b)]
    intro i
    rw [mem_differences]
    constructor
    · intro hi
      exact ⟨hwithin i hi, ((flipBits_eq_iff_mem hnodup).mp hto i (hwithin i hi)).mp hi⟩
    · rintro ⟨hi, hne⟩
      exact ((flipBits_eq_iff_mem hnodup).mp hto i hi).mpr hne

/-- What comes of inverting the bits at a sequence of places, in which places may occur again and may lie beyond the last bit:
a bit is inverted if its place occurs an odd number of times, the first such place is the proximity, and neither the order nor
the places beyond matter. The ways without repetition to another address are the orders of the differences. -/
theorem flipBits_by_parity (a : Address) (is : List Nat) :
    (∀ j < 256, (a.flipBits is).bit j ≠ a.bit j ↔ Odd (is.count j)) ∧
      a.flipBits (is.filter (· < 256)) = a.flipBits is ∧
      (∀ js : List Nat, js.Perm is → a.flipBits js = a.flipBits is) ∧
      a.proximity (a.flipBits is) = ((List.range 256).find? fun j => Odd (is.count j)).getD 256 ∧
      ∀ b : Address, is.Perm (a.differences b) ↔ is.Nodup ∧ (∀ i ∈ is, i < 256) ∧ a.flipBits is = b := by
  refine ⟨fun j hj => bit_flipBits_ne_iff hj, ?_, ?_, proximity_flipBits a is, fun b => perm_differences_iff⟩
  · apply flipBits_congr
    intro j hj
    have hcount : (is.filter (· < 256)).count j = is.count j := List.count_filter (decide_eq_true hj)
    rw [hcount]
  · intro js hperm
    apply flipBits_congr
    intro j _
    rw [hperm.count_eq]

/-- Of seven places one lies beyond the last bit, bit 7 is inverted back, and bit 100 stays inverted after three times. To an
address that differs in bits 13 and 20 the way can be gone from either end. -/
theorem repeated_flipBits_by_parity :
    let r := ofLeading [0x12, 0x34]
    let is := [300, 100, 7, 8, 100, 7, 100]
    let o := (r.flipBit 13).flipBit 20
    (r.flipBits is).bit 100 ≠ r.bit 100 ∧ r.flipBits [300, 100, 100, 100, 8, 7, 7] = r.flipBits is ∧
      r.proximity (r.flipBits is) = 8 ∧ r.flipBits [20, 13] = o ∧ [20, 13].Perm (r.differences o) := by
  intro r is o
  obtain ⟨hbit, -, hperm, hprox, -⟩ := flipBits_by_parity r is
  have hodd : Odd (is.count 100) := by decide
  have hfirst : ((List.range 256).find? fun j => Odd (is.count j)) = some 8 := by decide
  have hways : [20, 13].Perm (r.differences o) := by decide +kernel
  have hback := ((flipBits_by_parity r [20, 13]).2.2.2.2 o).mp hways
  refine ⟨(hbit 100 (by decide)).mpr hodd, hperm [300, 100, 100, 100, 8, 7, 7] (by decide), ?_, hback.2.2, hways⟩
  rw [hprox, hfirst]
  rfl

end Kademlia.Address
