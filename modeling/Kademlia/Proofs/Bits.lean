import Kademlia.Address.Basic
import Mathlib.Data.Nat.Bitwise
import Mathlib.Tactic.Ring

/-!
Bits of bytes and of lists of bytes, the highest bit first, and the number that a list of bytes spells. Bits, numbers
and the order of bytes are three views of one thing: the main statements pass from one to another.
-/
namespace Kademlia

theorem byteBit_eq_testBit (b : UInt8) {i : Nat} (hi : i < 8) : byteBit b i = b.toNat.testBit (7 - i) := by
  rw [byteBit, BitVec.getMsbD_eq_getLsbD, decide_eq_true hi, Bool.true_and]
  rfl

@[simp] theorem byteBit_xor (x y : UInt8) (i : Nat) : byteBit (x ^^^ y) i = (byteBit x i ^^ byteBit y i) := by
  simp [byteBit]

@[simp] theorem byteBit_and (x y : UInt8) (i : Nat) : byteBit (x &&& y) i = (byteBit x i && byteBit y i) := by
  simp [byteBit]

@[simp] theorem byteBit_or (x y : UInt8) (i : Nat) : byteBit (x ||| y) i = (byteBit x i || byteBit y i) := by
  simp [byteBit]

@[simp] theorem byteBit_zero (i : Nat) : byteBit 0 i = false := by
  simp [byteBit]

theorem byteBit_not (x : UInt8) {i : Nat} (hi : i < 8) : byteBit (~~~x) i = !byteBit x i := by
  simp [byteBit, hi]

theorem eq_of_byteBit {x y : UInt8} (h : ∀ i < 8, byteBit x i = byteBit y i) : x = y :=
  UInt8.toBitVec_inj.mp (BitVec.eq_of_getMsbD_eq h)

theorem byteBit_bitMask : ∀ t < 8, ∀ i < 8, byteBit (Address.bitMask t) i = decide (i = t) := by
  decide

theorem bitOf_cons (b : UInt8) (bs : List UInt8) (i : Nat) :
    bitOf (b :: bs) i = if i < 8 then byteBit b i else bitOf bs (i - 8) := by
  by_cases hi : i < 8
  · simp [bitOf, hi, Nat.div_eq_of_lt hi, Nat.mod_eq_of_lt hi]
  · have hd : i / 8 = (i - 8) / 8 + 1 := by omega
    have hm : i % 8 = (i - 8) % 8 := by omega
    simp only [bitOf, hi, if_false, hm]
    rw [hd, List.getD_cons_succ]

theorem bitOf_append (xs ys : List UInt8) (i : Nat) :
    bitOf (xs ++ ys) i = if i < 8 * xs.length then bitOf xs i else bitOf ys (i - 8 * xs.length) := by
  by_cases hi : i < 8 * xs.length
  · simp only [bitOf, hi, if_true]
    rw [List.getD_append _ _ _ _ (by omega)]
  · have hd : i / 8 - xs.length = (i - 8 * xs.length) / 8 := by omega
    have hm : i % 8 = (i - 8 * xs.length) % 8 := by omega
    simp only [bitOf, hi, if_false, ← hm]
    rw [List.getD_append_right _ _ _ _ (by omega), hd]

theorem bitOf_take (bs : List UInt8) {n i : Nat} (hi : i < 8 * n) : bitOf (bs.take n) i = bitOf bs i := by
  have hlt : i / 8 < n := by omega
  simp only [bitOf, List.getD_eq_getElem?_getD, List.getElem?_take_of_lt hlt]

theorem bitOf_of_length_le {bs : List UInt8} {i : Nat} (hi : 8 * bs.length ≤ i) : bitOf bs i = false := by
  rw [bitOf, List.getD_eq_default _ _ (by omega), byteBit_zero]

/-- The first `n` bits of two lists agree when those of the first bytes do and the remaining ones of the tails. -/
theorem bitOf_cons_agree_iff (x y : UInt8) (xs ys : List UInt8) (n : Nat) :
    (∀ i < n, bitOf (x :: xs) i = bitOf (y :: ys) i) ↔
      (∀ i < min n 8, byteBit x i = byteBit y i) ∧ ∀ i < n - 8, bitOf xs i = bitOf ys i := by
  constructor
  · intro h
    constructor
    · intro i hi
      have hbit := h i (by omega)
      rwa [bitOf_cons, bitOf_cons, if_pos (by omega), if_pos (by omega)] at hbit
    · intro i hi
      have hbit := h (i + 8) (by omega)
      rwa [bitOf_cons, bitOf_cons, if_neg (by omega), if_neg (by omega), Nat.add_sub_cancel] at hbit
  · rintro ⟨hbyte, hrest⟩ i hi
    rw [bitOf_cons, bitOf_cons]
    by_cases h8 : i < 8
    · rw [if_pos h8, if_pos h8, hbyte i (by omega)]
    · rw [if_neg h8, if_neg h8, hrest (i - 8) (by omega)]

theorem eq_of_bitOf {xs ys : List UInt8} (hlen : xs.length = ys.length)
    (h : ∀ i < 8 * xs.length, bitOf xs i = bitOf ys i) : xs = ys := by
  induction xs generalizing ys with
  | nil => exact (List.length_eq_zero_iff.mp hlen.symm).symm
  | cons x xs ih =>
    cases ys with
    | nil => simp at hlen
    | cons y ys =>
      obtain ⟨hbyte, hrest⟩ := (bitOf_cons_agree_iff x y xs ys _).mp h
      rw [List.length_cons] at hbyte hrest
      have hx : x = y := eq_of_byteBit fun i hi => hbyte i (by omega)
      have hxs : xs = ys := ih (Nat.succ.inj hlen) fun i hi => hrest i (by omega)
      rw [hx, hxs]

theorem foldl_eq_numberOf (bs : List UInt8) (n : Nat) :
    bs.foldl (fun n b => 256 * n + b.toNat) n = 2 ^ (8 * bs.length) * n + numberOf bs := by
  induction bs generalizing n with
  | nil => simp [numberOf]
  | cons b bs ih =>
    have hb : numberOf (b :: bs) = 2 ^ (8 * bs.length) * (256 * 0 + b.toNat) + numberOf bs := ih _
    rw [List.foldl_cons, ih, hb, List.length_cons, Nat.mul_succ, Nat.pow_add]
    ring

theorem numberOf_cons (b : UInt8) (bs : List UInt8) :
    numberOf (b :: bs) = 2 ^ (8 * bs.length) * b.toNat + numberOf bs := by
  have h := foldl_eq_numberOf bs (256 * 0 + b.toNat)
  rw [Nat.mul_zero, Nat.zero_add] at h
  rw [← h, numberOf, List.foldl_cons, Nat.mul_zero, Nat.zero_add]

theorem numberOf_lt (bs : List UInt8) : numberOf bs < 2 ^ (8 * bs.length) := by
  induction bs with
  | nil => exact Nat.one_pos
  | cons b bs ih =>
    have hb : b.toNat + 1 ≤ 2 ^ 8 := b.toNat_lt
    calc
      numberOf (b :: bs) = 2 ^ (8 * bs.length) * b.toNat + numberOf bs := numberOf_cons b bs
      _ < 2 ^ (8 * bs.length) * (b.toNat + 1) := by rw [Nat.mul_succ]; omega
      _ ≤ 2 ^ (8 * bs.length) * 2 ^ 8 := Nat.mul_le_mul_left _ hb
      _ = 2 ^ (8 * (b :: bs).length) := by rw [← Nat.pow_add, List.length_cons, Nat.mul_succ]

/-- The bits of a list are those of its number, which counts them from the other end. -/
theorem testBit_numberOf (bs : List UInt8) {i : Nat} (hi : i < 8 * bs.length) :
    (numberOf bs).testBit (8 * bs.length - 1 - i) = bitOf bs i := by
  induction bs generalizing i with
  | nil => simp at hi
  | cons b bs ih =>
    rw [List.length_cons] at hi
    rw [numberOf_cons, Nat.testBit_two_pow_mul_add _ (numberOf_lt bs), bitOf_cons, List.length_cons]
    by_cases h8 : i < 8
    · rw [if_neg (by omega), if_pos h8, byteBit_eq_testBit b h8]
      congr 1
      omega
    · rw [if_pos (by omega), if_neg h8, ← ih (by omega)]
      congr 1
      omega

/-- The order of bytes is the order of the numbers they spell. -/
theorem lt_iff_numberOf_lt {xs ys : List UInt8} (hlen : xs.length = ys.length) :
    xs < ys ↔ numberOf xs < numberOf ys := by
  induction xs generalizing ys with
  | nil =>
    have hys : ys = [] := List.length_eq_zero_iff.mp hlen.symm
    simp [hys]
  | cons x xs ih =>
    cases ys with
    | nil => simp at hlen
    | cons y ys =>
      have htail : xs.length = ys.length := Nat.succ.inj hlen
      have hxs := numberOf_lt xs
      have hys := numberOf_lt ys
      rw [List.cons_lt_cons_iff, ih htail, numberOf_cons, numberOf_cons, UInt8.lt_iff_toNat_lt, ← UInt8.toNat_inj,
        htail]
      rw [htail] at hxs
      generalize 2 ^ (8 * ys.length) = p at hxs hys ⊢
      -- both tails spell less than `p`, so unequal first bytes decide the order of the numbers too
      rcases Nat.lt_trichotomy x.toNat y.toNat with hlt | heq | hgt
      · have hp : p * (x.toNat + 1) ≤ p * y.toNat := Nat.mul_le_mul_left p hlt
        rw [Nat.mul_succ] at hp
        constructor
        · intro _
          omega
        · intro _
          exact Or.inl hlt
      · simp [heq]
      · have hp : p * (y.toNat + 1) ≤ p * x.toNat := Nat.mul_le_mul_left p hgt
        rw [Nat.mul_succ] at hp
        constructor
        · omega
        · omega

def byteOfBits (f : Nat → Bool) : UInt8 := UInt8.ofNat (Nat.ofBits fun i : Fin 8 => f (7 - i))

theorem byteBit_byteOfBits (f : Nat → Bool) {i : Nat} (hi : i < 8) : byteBit (byteOfBits f) i = f i := by
  have hlt : Nat.ofBits (fun i : Fin 8 => f (7 - i)) < 2 ^ 8 := Nat.ofBits_lt_two_pow _
  have hflip : 7 - (7 - i) = i := by omega
  rw [byteBit_eq_testBit _ hi, byteOfBits, UInt8.toNat_ofNat', Nat.mod_eq_of_lt hlt,
    Nat.testBit_ofBits_lt _ _ (by omega), hflip]

def bytesOfBits (n : Nat) (f : Nat → Bool) : List UInt8 :=
  (List.range n).map fun j => byteOfBits fun i => f (8 * j + i)

theorem length_bytesOfBits (n : Nat) (f : Nat → Bool) : (bytesOfBits n f).length = n := by
  simp [bytesOfBits]

theorem bitOf_bytesOfBits {n : Nat} (f : Nat → Bool) {i : Nat} (hi : i < 8 * n) :
    bitOf (bytesOfBits n f) i = f i := by
  have hdiv : i / 8 < (bytesOfBits n f).length := by
    rw [length_bytesOfBits]
    omega
  have hsplit : 8 * (i / 8) + i % 8 = i := by omega
  rw [bitOf, List.getD_eq_getElem _ _ hdiv]
  simp only [bytesOfBits, List.getElem_map, List.getElem_range]
  rw [byteBit_byteOfBits _ (Nat.mod_lt i (by decide)), hsplit]

end Kademlia
