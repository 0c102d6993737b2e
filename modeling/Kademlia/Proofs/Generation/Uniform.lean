import Kademlia.Proofs.ByteSource.Script
import Kademlia.Proofs.Space.Bins
import Mathlib.Data.Fintype.BigOperators
import Mathlib.Data.Set.Card

/-!
Generation without bias. Over all scripts of just the length that is read, every address that can come out does so
equally often: of the drawn bits the first few are dropped, and each of the others has a place of its own.
-/
namespace Kademlia

/-- The lists of `n` bytes with the given bits from bit `k` on. -/
def agreeing (n k : Nat) (f : Nat → Bool) : Set (List UInt8) :=
  {bs | bs.length = n ∧ ∀ i, k ≤ i → i < 8 * n → bitOf bs i = f i}

theorem leading_bits_bijective {n k : Nat} (hk : k ≤ 8 * n) (f : Nat → Bool) :
    Function.Bijective fun (bs : agreeing n k f) (i : Fin k) => bitOf bs.1 i := by
  constructor
  · rintro ⟨xs, hxlen, hxs⟩ ⟨ys, hylen, hys⟩ h
    apply Subtype.ext
    apply eq_of_bitOf (hxlen.trans hylen.symm)
    intro i hi
    rw [hxlen] at hi
    by_cases hik : i < k
    · exact congrFun h ⟨i, hik⟩
    · exact (hxs i (Nat.not_lt.mp hik) hi).trans (hys i (Nat.not_lt.mp hik) hi).symm
  · intro g
    let bits : Nat → Bool := fun i => if h : i < k then g ⟨i, h⟩ else f i
    have hmem : bytesOfBits n bits ∈ agreeing n k f := by
      refine ⟨length_bytesOfBits n bits, fun i hki hi => ?_⟩
      rw [bitOf_bytesOfBits bits hi]
      exact dif_neg (Nat.not_lt.mpr hki)
    refine ⟨⟨bytesOfBits n bits, hmem⟩, funext fun i => ?_⟩
    exact (bitOf_bytesOfBits bits (Nat.lt_of_lt_of_le i.isLt hk)).trans (dif_pos i.isLt)

theorem ncard_agreeing {n k : Nat} (hk : k ≤ 8 * n) (f : Nat → Bool) : (agreeing n k f).ncard = 2 ^ k := by
  rw [← Nat.card_coe_set_eq, Nat.card_eq_of_bijective _ (leading_bits_bijective hk f), Nat.card_eq_fintype_card,
    Fintype.card_fun, Fintype.card_bool, Fintype.card_fin]

namespace Script

/-- The scripts of `n` bytes from which a draw yields the address. -/
def yielding (n : Nat) (draw : Script → Address) (a : Address) : Set (List UInt8) :=
  {bs | bs.length = n ∧ draw (ofBytes bs) = a}

/-- Over all scripts of `n` bytes a draw yields each of the targets equally often, and nothing else. -/
structure Uniform (n : Nat) (draw : Script → Address) (targets : Set Address) (count : Nat) : Prop where
  draw_mem : ∀ bs, bs.length = n → draw (ofBytes bs) ∈ targets
  ncard_yielding : ∀ a ∈ targets, (yielding n draw a).ncard = count

/-- A script yields `a` when its bits behind the dropped ones are those of `a` from bit `e` on. -/
theorem yielding_eq_agreeing {pos e : Nat} (hpos : 8 * pos ≤ e) {draw : Script → Address} {a : Address}
    (hbit : ∀ bs, bs.length = 32 - pos → ∀ i < 256,
      (draw (ofBytes bs)).bit i = if i < e then a.bit i else bitOf bs (i - 8 * pos)) :
    yielding (32 - pos) draw a = agreeing (32 - pos) (e - 8 * pos) fun j => a.bit (8 * pos + j) := by
  ext bs
  refine and_congr_right fun hlen => ?_
  constructor
  · rintro rfl j hj hlt
    have hplace := hbit bs hlen (8 * pos + j) (by omega)
    rw [if_neg (by omega), Nat.add_sub_cancel_left] at hplace
    exact hplace.symm
  · intro h
    apply Address.eq_of_bit
    intro i hi
    rw [hbit bs hlen i hi]
    by_cases hie : i < e
    · rw [if_pos hie]
    · have hplace : bitOf bs (i - 8 * pos) = a.bit (8 * pos + (i - 8 * pos)) := h _ (by omega) (by omega)
      rw [if_neg hie, hplace, Nat.add_sub_cancel' (by omega)]

/-- A draw that keeps the first `e` bits of an address and takes the others from the script, each from a place of its
own, is uniform over the addresses that begin alike. -/
theorem uniform_of_bit {pos e : Nat} (hpos : 8 * pos ≤ e) (he : e ≤ 256) {draw : Script → Address} {r : Address}
    (hbit : ∀ bs, bs.length = 32 - pos → ∀ i < 256,
      (draw (ofBytes bs)).bit i = if i < e then r.bit i else bitOf bs (i - 8 * pos)) :
    Uniform (32 - pos) draw {a | e ≤ r.proximity a} (2 ^ (e - 8 * pos)) := by
  constructor
  · intro bs hlen
    refine Address.le_proximity_iff.mpr ⟨he, fun i hi => ?_⟩
    rw [hbit bs hlen i (by omega), if_pos hi]
  · intro a ha
    have hkept : ∀ i < e, r.bit i = a.bit i := (Address.le_proximity_iff.mp ha).2
    rw [yielding_eq_agreeing hpos, ncard_agreeing (by omega)]
    intro bs hlen i hi
    rw [hbit bs hlen i hi]
    exact ite_congr rfl (hkept i) fun _ => rfl

end Script

namespace Address

theorem randomAt_uniform (r : Address) {p : Nat} (hp : p < 256) :
    Script.Uniform (32 - p / 8) (fun s => (r.randomAt p s).1) {a | r.proximity a = p} (2 ^ (p % 8 + 1)) := by
  have htargets : {a | r.proximity a = p} = {a | p + 1 ≤ (r.flipBit p).proximity a} :=
    Set.ext fun _ => proximity_eq_iff_flipBit hp
  have hfree : p % 8 + 1 = p + 1 - 8 * (p / 8) := by omega
  rw [htargets, hfree]
  refine Script.uniform_of_bit (by omega) hp fun bs hlen i hi => ?_
  rw [bit_randomAt r hp, drawnFrom_ofBytes (by omega) hlen, bit_flipBit r p hi]
  rcases Nat.lt_trichotomy i p with hlt | rfl | hgt
  · rw [if_pos hlt, if_pos (by omega), decide_eq_false (by omega), Bool.xor_false]
  · rw [if_neg (Nat.lt_irrefl i), if_pos rfl, if_pos (Nat.lt_succ_self i), decide_eq_true rfl, Bool.xor_true]
  · rw [if_neg (by omega), if_neg (by omega), if_neg (by omega)]

theorem random_bytes {bs : List UInt8} (hlen : bs.length = 32) : (random (Script.ofBytes bs)).1.bytes = bs := by
  have hfill := Script.fill_ofBytes bs
  rwa [hlen] at hfill

/-- An address that nothing is asked of is the script, and so every address comes out once. -/
theorem random_bijOn : Set.BijOn (fun bs => (random (Script.ofBytes bs)).1) {bs | bs.length = 32} Set.univ := by
  refine ⟨fun _ _ => Set.mem_univ _, ?_, ?_⟩
  · intro xs hxs ys hys h
    rw [← random_bytes hxs, ← random_bytes hys]
    exact congrArg bytes h
  · intro a _
    exact ⟨a.bytes, a.length_bytes, ext_bytes (random_bytes a.length_bytes)⟩

end Address

namespace Space

theorem refreshTarget_uniform (s : Space Script) (hw : s.config.maxProx < 256) {bin : Nat}
    (hbin : s.config.maxProx ≤ bin) :
    Script.Uniform (32 - s.config.maxProx / 8) (fun source => ({ s with source }.refreshTarget bin).address)
      {a | s.config.maxProx ≤ s.home.proximity a} (2 ^ (s.config.maxProx % 8)) := by
  have hfree : s.config.maxProx % 8 = s.config.maxProx - 8 * (s.config.maxProx / 8) := by omega
  rw [hfree]
  refine Script.uniform_of_bit (by omega) s.maxProx_le fun bs hlen i hi => ?_
  simp only [refreshTarget, if_neg (Nat.not_lt.mpr hbin), outcome]
  rw [Address.bit_commonBits_capped s.maxProx_le_proximity_home hw, drawnFrom_ofBytes (by omega) hlen]

/-- No draw favours an address: at a wanted proximity, without one, and in the neighbourhood of a space all addresses
that can come out do so for equally many scripts. -/
theorem generation_uniform (r : Address) (s : Space Script) :
    (∀ p < 256, Script.Uniform (32 - p / 8) (fun source => (r.draw (some p) source).1) {a | r.proximity a = p}
        (2 ^ (p % 8 + 1))) ∧
      Set.BijOn (fun bs => (r.draw none (Script.ofBytes bs)).1) {bs | bs.length = 32} Set.univ ∧
      (s.config.maxProx < 256 → ∀ bin, s.config.maxProx ≤ bin →
        Script.Uniform (32 - s.config.maxProx / 8) (fun source => ({ s with source }.refreshTarget bin).address)
          {a | s.config.maxProx ≤ s.home.proximity a} (2 ^ (s.config.maxProx % 8))) :=
  ⟨fun _ hp => r.randomAt_uniform hp, Address.random_bijOn, fun hw _ hbin => s.refreshTarget_uniform hw hbin⟩

/-- Around the zero address: 64 scripts for each address at proximity 13, 4 for each of a neighbourhood of depth 10. -/
theorem zero_generation_uniform :
    let s : Space Script := ⟨Address.zero, Config.testing.withMaxProx 10, Script.empty, rfl⟩
    let near := (Address.zero.flipBit 13).flipBit 200
    (Script.yielding 31 (fun source => (Address.zero.draw (some 13) source).1) near).ncard = 64 ∧
      (Script.yielding 31 (fun source => ({ s with source }.refreshTarget 12).address) near).ncard = 4 := by
  intro s near
  obtain ⟨hprox, -, hrefresh⟩ := generation_uniform Address.zero s
  have hnear : Address.zero.proximity near = 13 := by decide +kernel
  have hdeep : s.config.maxProx ≤ s.home.proximity near := by decide +kernel
  have hdepth : s.config.maxProx = 10 := rfl
  have hcount := (hrefresh (by decide) 12 (by decide)).ncard_yielding near hdeep
  rw [hdepth] at hcount
  exact ⟨(hprox 13 (by decide)).ncard_yielding near hnear, hcount⟩

end Space
end Kademlia
