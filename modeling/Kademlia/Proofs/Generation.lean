import Kademlia.ByteSource.Words
import Kademlia.Generation
import Kademlia.Proofs.Proximity

/-!
Generated addresses bit by bit, for every source of bytes: what is kept of the reference, which bit is turned, and
which drawn bit stands in each of the other places. The proximity of a generated address to its reference and the
state of the source behind it follow.
-/
namespace Kademlia
variable {σ : Type} [ByteSource σ]

/-- The bytes drawn for an address that keeps the `pos` bytes before the boundary. -/
def drawnFrom (pos : Nat) (s : σ) : List UInt8 :=
  let first := ByteSource.nextByte s
  first.1 :: (ByteSource.fill (31 - pos) first.2).1

def sourceAfter (pos : Nat) (s : σ) : σ := (ByteSource.fill (31 - pos) (ByteSource.nextByte s).2).2

namespace Address
variable {r o : Address}

theorem byteBit_onesFrom : ∀ t < 8, ∀ i < 8, byteBit (onesFrom t) i = decide (t ≤ i) := by
  decide

theorem byteBit_onesBehind : ∀ t < 8, ∀ i < 8, byteBit (onesBehind t) i = decide (t < i) := by
  decide

/-- Under the mask of a capped limit the byte is kept before bit `t` and drawn from there on. -/
theorem byteBit_kept_then_drawn (kept b : UInt8) {t i : Nat} (ht : t < 8) (hi : i < 8) :
    byteBit ((kept &&& ~~~onesFrom t) ||| (onesFrom t &&& b)) i = if i < t then byteBit kept i else byteBit b i := by
  simp only [byteBit_or, byteBit_and, byteBit_not _ hi, byteBit_onesFrom t ht i hi]
  by_cases hit : i < t
  · simp [hit, Nat.not_le.mpr hit]
  · simp [hit, Nat.not_lt.mp hit]

/-- Under the mask of an uncapped limit bit `t` itself is turned. -/
theorem byteBit_kept_then_turned (kept b : UInt8) {t i : Nat} (ht : t < 8) (hi : i < 8) :
    byteBit (((kept &&& ~~~onesBehind t) ^^^ bitMask t) ||| (onesBehind t &&& b)) i =
      if i < t then byteBit kept i else if i = t then !byteBit kept i else byteBit b i := by
  simp only [byteBit_or, byteBit_xor, byteBit_and, byteBit_not _ hi, byteBit_onesBehind t ht i hi,
    byteBit_bitMask t ht i hi]
  rcases Nat.lt_trichotomy i t with hlt | heq | hgt
  · simp [hlt, Nat.lt_asymm hlt, Nat.ne_of_lt hlt]
  · simp [heq]
  · simp [hgt, Nat.lt_asymm hgt, Nat.ne_of_gt hgt]

theorem onesThrough_eq_not : ∀ t < 8, onesThrough t = ~~~onesBehind t := by
  decide

/-- The boundary byte of exact generation is that of an uncapped limit, written with the opposite mask. -/
theorem kept_then_turned_eq_forced (kept b : UInt8) {t : Nat} (ht : t < 8) :
    ((kept &&& ~~~onesBehind t) ^^^ bitMask t) ||| (onesBehind t &&& b) =
      ((kept &&& onesThrough t) ^^^ bitMask t) ||| (b &&& ~~~onesThrough t) := by
  rw [onesThrough_eq_not t ht, UInt8.not_not, UInt8.and_comm b]

theorem byteBit_forced_then_drawn (kept b : UInt8) {t i : Nat} (ht : t < 8) (hi : i < 8) :
    byteBit (((kept &&& onesThrough t) ^^^ bitMask t) ||| (b &&& ~~~onesThrough t)) i =
      if i < t then byteBit kept i else if i = t then !byteBit kept i else byteBit b i := by
  rw [← kept_then_turned_eq_forced kept b ht]
  exact byteBit_kept_then_turned kept b ht hi

theorem bit_refill (r : Address) {pos : Nat} (hpos : pos < 32) (boundary : UInt8 → UInt8) (s : σ) (i : Nat) :
    (r.refill pos hpos boundary s).1.bit i =
      if i < 8 * pos then r.bit i
      else if i < 8 * pos + 8 then byteBit (boundary (ByteSource.nextByte s).1) (i - 8 * pos)
      else bitOf (drawnFrom pos s) (i - 8 * pos) := by
  have hlen : (r.bytes.take pos).length = pos := by
    rw [List.length_take, r.length_bytes]
    omega
  rw [bit_eq_bitOf, refill, bitOf_append, hlen, bitOf_cons, drawnFrom, bitOf_cons]
  by_cases hlow : i < 8 * pos
  · rw [if_pos hlow, if_pos hlow, bitOf_take _ hlow]
    rfl
  · rw [if_neg hlow, if_neg hlow]
    by_cases hmid : i < 8 * pos + 8
    · have hj : i - 8 * pos < 8 := by omega
      rw [if_pos hj, if_pos hmid]
    · have hj : ¬i - 8 * pos < 8 := by omega
      rw [if_neg hj, if_neg hmid, if_neg hj]

theorem getElem?_refill_behind (r : Address) {pos : Nat} (hpos : pos < 32) (boundary : UInt8 → UInt8) (s : σ)
    (k : Nat) : (r.refill pos hpos boundary s).1.bytes[pos + 1 + k]? = (drawnFrom pos s)[k + 1]? := by
  have hlen : (r.bytes.take pos).length = pos := by
    rw [List.length_take, r.length_bytes]
    omega
  have hplace : pos + 1 + k - pos = k + 1 := by omega
  rw [refill, List.getElem?_append_right (by omega), hlen, hplace, drawnFrom, List.getElem?_cons_succ,
    List.getElem?_cons_succ]

/-- The byte at the boundary is kept before bit `n % 8`; what it holds from there on is left open. -/
theorem bit_refill_boundary (r : Address) {n : Nat} (hn : n < 256) {boundary : UInt8 → UInt8}
    {later : UInt8 → Nat → Bool}
    (hb : ∀ b, ∀ j < 8, byteBit (boundary b) j =
      if j < n % 8 then byteBit (r.bytes.getD (n / 8) 0) j else later b j) (s : σ) (i : Nat) :
    (r.refill (n / 8) (Nat.div_lt_of_lt_mul hn) boundary s).1.bit i =
      if i < n then r.bit i
      else if i < 8 * (n / 8) + 8 then later (ByteSource.nextByte s).1 (i - 8 * (n / 8))
      else bitOf (drawnFrom (n / 8) s) (i - 8 * (n / 8)) := by
  rw [bit_refill]
  by_cases hlow : i < 8 * (n / 8)
  · rw [if_pos hlow, if_pos (by omega)]
  · rw [if_neg hlow]
    by_cases hmid : i < 8 * (n / 8) + 8
    · have hj : i - 8 * (n / 8) < 8 := by omega
      have hsplit : 8 * (n / 8) + (i - 8 * (n / 8)) = i := by omega
      have hr := bit_eq_byteBit r (i := n / 8) hj
      rw [hsplit] at hr
      rw [if_pos hmid, if_pos hmid, hb _ _ hj, ← hr]
      by_cases hin : i < n
      · rw [if_pos hin, if_pos (by omega)]
      · rw [if_neg hin, if_neg (by omega)]
    · rw [if_neg hmid, if_neg hmid, if_neg (by omega)]

theorem bit_refill_drawn (r : Address) {n : Nat} (hn : n < 256) {boundary : UInt8 → UInt8}
    (hb : ∀ b, ∀ j < 8, byteBit (boundary b) j =
      if j < n % 8 then byteBit (r.bytes.getD (n / 8) 0) j else byteBit b j) (s : σ) (i : Nat) :
    (r.refill (n / 8) (Nat.div_lt_of_lt_mul hn) boundary s).1.bit i =
      if i < n then r.bit i else bitOf (drawnFrom (n / 8) s) (i - 8 * (n / 8)) := by
  rw [bit_refill_boundary r hn hb, drawnFrom, bitOf_cons]
  by_cases hin : i < n
  · rw [if_pos hin, if_pos hin]
  · rw [if_neg hin, if_neg hin]
    by_cases hmid : i < 8 * (n / 8) + 8
    · have hj : i - 8 * (n / 8) < 8 := by omega
      rw [if_pos hmid, if_pos hj]
    · rw [if_neg hmid]

theorem bit_refill_turned (r : Address) {n : Nat} (hn : n < 256) {boundary : UInt8 → UInt8}
    (hb : ∀ b, ∀ j < 8, byteBit (boundary b) j =
      if j < n % 8 then byteBit (r.bytes.getD (n / 8) 0) j
      else if j = n % 8 then !byteBit (r.bytes.getD (n / 8) 0) j else byteBit b j) (s : σ) (i : Nat) :
    (r.refill (n / 8) (Nat.div_lt_of_lt_mul hn) boundary s).1.bit i =
      if i < n then r.bit i
      else if i = n then !r.bit n
      else bitOf (drawnFrom (n / 8) s) (i - 8 * (n / 8)) := by
  rw [bit_refill_boundary r hn hb, drawnFrom, bitOf_cons]
  by_cases hin : i < n
  · rw [if_pos hin, if_pos hin]
  · rw [if_neg hin, if_neg hin]
    by_cases heq : i = n
    · have hplace : i - 8 * (n / 8) = n % 8 := by omega
      have hr := bit_eq_byteBit r (i := n / 8) (Nat.mod_lt n (by decide : 8 > 0))
      rw [Nat.div_add_mod] at hr
      rw [if_pos heq, if_pos (by omega), if_pos hplace, hr, hplace]
    · rw [if_neg heq]
      by_cases hmid : i < 8 * (n / 8) + 8
      · have hj : i - 8 * (n / 8) < 8 := by omega
        rw [if_pos hmid, if_neg (by omega), if_pos hj]
      · rw [if_neg hmid]

theorem bit_randomAt (r : Address) {p : Nat} (hp : p < 256) (s : σ) (i : Nat) :
    (r.randomAt p s).1.bit i =
      if i < p then r.bit i
      else if i = p then !r.bit p
      else bitOf (drawnFrom (p / 8) s) (i - 8 * (p / 8)) := by
  rw [randomAt, dif_pos hp]
  exact bit_refill_turned r hp (fun b j hj => byteBit_forced_then_drawn _ b (by omega) hj) s i

theorem randomAt_of_le (r : Address) {p : Nat} (hp : 256 ≤ p) (s : σ) : r.randomAt p s = (r, s) := by
  rw [randomAt, dif_neg (by omega)]

theorem randomAt_source (r : Address) {p : Nat} (hp : p < 256) (s : σ) :
    (r.randomAt p s).2 = sourceAfter (p / 8) s := by
  rw [randomAt, dif_pos hp]
  rfl

theorem getElem?_randomAt_behind (r : Address) {p : Nat} (hp : p < 256) (s : σ) (k : Nat) :
    (r.randomAt p s).1.bytes[p / 8 + 1 + k]? = (drawnFrom (p / 8) s)[k + 1]? := by
  rw [randomAt, dif_pos hp]
  exact getElem?_refill_behind r _ _ s k

theorem bit_commonBits_capped {limit : Nat} (hl : limit ≤ r.proximity o) (hw : limit < 256) (s : σ) (i : Nat) :
    (r.commonBits o limit s).1.bit i =
      if i < limit then r.bit i else bitOf (drawnFrom (limit / 8) s) (i - 8 * (limit / 8)) := by
  simp only [commonBits, if_pos hl, dif_pos hw]
  exact bit_refill_drawn r hw (fun b j hj => byteBit_kept_then_drawn _ b (by omega) hj) s i

theorem bit_commonBits_uncapped {limit : Nat} (hl : r.proximity o < limit) (hw : r.proximity o < 256) (s : σ)
    (i : Nat) :
    (r.commonBits o limit s).1.bit i =
      if i < r.proximity o then r.bit i
      else if i = r.proximity o then !r.bit (r.proximity o)
      else bitOf (drawnFrom (r.proximity o / 8) s) (i - 8 * (r.proximity o / 8)) := by
  simp only [commonBits, if_neg (Nat.not_le.mpr hl), dif_pos hw]
  exact bit_refill_turned r hw (fun b j hj => byteBit_kept_then_turned _ b (by omega) hj) s i

theorem commonBits_eq_self {limit : Nat} (hw : 256 ≤ min limit (r.proximity o)) (s : σ) :
    r.commonBits o limit s = (r, s) := by
  have hshared : ¬(if limit ≤ r.proximity o then limit else r.proximity o) < 256 := by
    split <;> omega
  simp only [commonBits, dif_neg hshared]

/-- Either way of keeping common bits keeps bits of the other address, up to the limit or through the first bit in which it
differs from the reference, and draws those behind them. -/
theorem bit_commonBits (r o : Address) (limit : Nat) (s : σ) {i : Nat} (hi : i < 256) :
    (r.commonBits o limit s).1.bit i =
      if i < min limit (r.proximity o + 1) then o.bit i
      else bitOf (drawnFrom (min limit (r.proximity o) / 8) s) (i - 8 * (min limit (r.proximity o) / 8)) := by
  by_cases hw : min limit (r.proximity o) < 256
  · by_cases hl : limit ≤ r.proximity o
    · rw [Nat.min_eq_left hl] at hw ⊢
      rw [Nat.min_eq_left (Nat.le_succ_of_le hl), bit_commonBits_capped hl hw]
      exact ite_congr rfl (fun hin => bit_eq_of_lt_proximity (Nat.lt_of_lt_of_le hin hl)) fun _ => rfl
    · have hlt : r.proximity o < limit := Nat.not_le.mp hl
      rw [Nat.min_eq_right (Nat.le_of_lt hlt)] at hw ⊢
      rw [Nat.min_eq_right hlt, bit_commonBits_uncapped hlt hw]
      by_cases hin : i < r.proximity o
      · rw [if_pos hin, if_pos (Nat.lt_succ_of_lt hin), bit_eq_of_lt_proximity hin]
      · by_cases heq : i = r.proximity o
        · rw [if_neg hin, if_pos heq, if_pos (by omega), heq]
          exact (Bool.eq_not_of_ne (bit_proximity_ne hw).symm).symm
        · rw [if_neg hin, if_neg heq, if_neg (by omega)]
  · -- the two addresses are the same one, which is the result
    have hprox := proximity_le r o
    have hsame : r.bit i = o.bit i := bit_eq_of_lt_proximity (by omega)
    rw [commonBits_eq_self (Nat.not_lt.mp hw), if_pos (by omega), hsame]

/-- Either way of keeping common bits makes one byte at the boundary and draws those behind it. -/
theorem exists_refill_commonBits {limit n : Nat} (hn : min limit (r.proximity o) = n) (hw : n < 256) (s : σ) :
    ∃ boundary, r.commonBits o limit s = r.refill (n / 8) (Nat.div_lt_of_lt_mul hw) boundary s := by
  by_cases hl : limit ≤ r.proximity o
  · have hlimit : limit = n := by omega
    subst hlimit
    simp only [commonBits, if_pos hl, dif_pos hw]
    exact ⟨_, rfl⟩
  · have hprox : r.proximity o = n := by omega
    subst hprox
    simp only [commonBits, if_neg hl, dif_pos hw]
    exact ⟨_, rfl⟩

theorem commonBits_source {limit : Nat} (hw : min limit (r.proximity o) < 256) (s : σ) :
    (r.commonBits o limit s).2 = sourceAfter (min limit (r.proximity o) / 8) s := by
  obtain ⟨boundary, h⟩ := exists_refill_commonBits rfl hw s
  rw [h]
  rfl

theorem getElem?_commonBits_behind {limit : Nat} (hw : min limit (r.proximity o) < 256) (s : σ) (k : Nat) :
    (r.commonBits o limit s).1.bytes[min limit (r.proximity o) / 8 + 1 + k]? =
      (drawnFrom (min limit (r.proximity o) / 8) s)[k + 1]? := by
  obtain ⟨boundary, h⟩ := exists_refill_commonBits rfl hw s
  rw [h]
  exact getElem?_refill_behind r _ _ s k

/-- Generation at a wanted proximity meets it, whatever the source yields. -/
theorem proximity_randomAt (r : Address) (p : Nat) (s : σ) : r.proximity (r.randomAt p s).1 = min p 256 := by
  by_cases hp : p < 256
  · rw [Nat.min_eq_left (by omega)]
    apply proximity_eq_of_bit hp
    · intro i hi
      rw [bit_randomAt r hp, if_pos hi]
    · rw [bit_randomAt r hp, if_neg (by omega), if_pos rfl]
      simp
  · rw [randomAt_of_le r (by omega), proximity_self, Nat.min_eq_right (by omega)]

/-- All bits that are kept are shared with the other address. -/
theorem le_proximity_other_commonBits (r o : Address) (limit : Nat) (s : σ) :
    min 256 (min limit (r.proximity o + 1)) ≤ o.proximity (r.commonBits o limit s).1 := by
  refine le_proximity_iff.mpr ⟨Nat.min_le_left _ _, fun i hi => ?_⟩
  rw [bit_commonBits r o limit s (by omega), if_pos (by omega)]

theorem le_proximity_commonBits {limit : Nat} (hl : limit ≤ r.proximity o) (s : σ) :
    limit ≤ r.proximity (r.commonBits o limit s).1 := by
  have hprox := proximity_le r o
  have hother := le_proximity_other_commonBits r o limit s
  have hmin := min_proximity_le r o (r.commonBits o limit s).1
  omega

/-- Where the limit is not reached, the address is as far from the reference as the other one. -/
theorem proximity_commonBits {limit : Nat} (hl : r.proximity o < limit) (s : σ) :
    r.proximity (r.commonBits o limit s).1 = r.proximity o := by
  have hprox := proximity_le r o
  by_cases hw : r.proximity o < 256
  · apply proximity_eq_of_bit hw
    · intro i hi
      rw [bit_commonBits_uncapped hl hw, if_pos hi]
    · rw [bit_commonBits_uncapped hl hw, if_neg (Nat.lt_irrefl _), if_pos rfl]
      exact (Bool.not_ne_self _).symm
  · rw [commonBits_eq_self (by omega), proximity_self]
    omega

theorem min_le_proximity_commonBits (r o : Address) (limit : Nat) (s : σ) :
    min limit (r.proximity o) ≤ r.proximity (r.commonBits o limit s).1 := by
  rcases Nat.lt_or_ge (r.proximity o) limit with hl | hl
  · rw [proximity_commonBits hl]
    exact Nat.min_le_right _ _
  · exact Nat.le_trans (Nat.min_le_left _ _) (le_proximity_commonBits hl s)

/-- It shares more bits with the other one than the reference does. -/
theorem lt_proximity_commonBits {limit : Nat} (hl : r.proximity o < limit) (hw : r.proximity o < 256) (s : σ) :
    r.proximity o < o.proximity (r.commonBits o limit s).1 := by
  have hother := le_proximity_other_commonBits r o limit s
  omega

/-- A limit that two addresses do not reach leaves exact generation at their proximity: from every source the same bytes
are drawn in the same way, and come to the same address. -/
theorem commonBits_eq_draw {limit : Nat} (hl : r.proximity o < limit) (s : σ) :
    r.commonBits o limit s = r.draw (some (r.proximity o)) s := by
  by_cases hw : r.proximity o < 256
  · have hplace : r.proximity o % 8 < 8 := Nat.mod_lt _ (by decide)
    simp only [commonBits, draw, randomAt, if_neg (Nat.not_le.mpr hl), dif_pos hw,
      kept_then_turned_eq_forced _ _ hplace]
  · rw [commonBits_eq_self (by omega), draw, randomAt_of_le r (by omega)]

/-- With words for a source, of which a single byte takes a whole one: at proximity 5, and for an address beside itself. -/
theorem words_commonBits_eq_draw :
    let words := WordStream.cycling [0x04030201, 0x08070605]
    zero.commonBits (zero.flipBit 5) 18446744073709551615 words = zero.draw (some 5) words ∧
      zero.commonBits zero 257 words = zero.draw (some 256) words := by
  intro words
  have hnear : zero.proximity (zero.flipBit 5) = 5 := by decide +kernel
  have hself : zero.proximity zero = 256 := proximity_self zero
  have hlarge : zero.proximity (zero.flipBit 5) < 18446744073709551615 := by omega
  have hbeyond : zero.proximity zero < 257 := by omega
  constructor
  · rw [← hnear]
    exact commonBits_eq_draw hlarge words
  · rw [← hself]
    exact commonBits_eq_draw hbeyond words

end Address
end Kademlia
