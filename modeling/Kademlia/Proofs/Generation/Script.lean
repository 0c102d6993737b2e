import Kademlia.Proofs.ByteSource.Bisimulation
import Kademlia.Proofs.ByteSource.Script

/-!
Addresses drawn from a script, every bit of them: what is kept of the reference, the bit that is turned, and which bit
of which byte of the script stands in each of the other places.
-/
namespace Kademlia

namespace Script
variable {s : Script}

/-- Bit `i` of an address whose bytes from `pos` on are those that the script hands out next; none if it has no bytes. -/
def bitFrom? (s : Script) (pos i : Nat) : Option Bool :=
  s.bytes[(s.cursor + (i / 8 - pos)) % s.bytes.length]?.map fun b => byteBit b (i % 8)

theorem getElem?_mod_eq_byteAt (hs : s.bytes ≠ []) (i : Nat) :
    s.bytes[i % s.bytes.length]? = some (byteAt s.bytes i) := by
  have hlt : i % s.bytes.length < s.bytes.length := Nat.mod_lt i (List.length_pos_iff.mpr hs)
  rw [byteAt, List.getD_eq_getElem _ _ hlt, List.getElem?_eq_getElem hlt]

theorem getElem?_fill (hs : s.bytes ≠ []) {n j : Nat} (hj : j < n) :
    (ByteSource.fill n s).1[j]? = s.bytes[(s.cursor + j) % s.bytes.length]? := by
  rw [getElem?_mod_eq_byteAt hs, fill_eq, List.getElem?_map, List.getElem?_range' hj, Option.map_some, Nat.one_mul]

/-- The bits drawn for an address are those of the script, each in its place within a byte. -/
theorem bitFrom?_eq_drawnFrom (hs : s.bytes ≠ []) {pos i : Nat} (hpos : 8 * pos ≤ i) (hi : i < 256) :
    s.bitFrom? pos i = some (bitOf (drawnFrom pos s) (i - 8 * pos)) := by
  have hdiv : (i - 8 * pos) / 8 = i / 8 - pos := by omega
  have hmod : (i - 8 * pos) % 8 = i % 8 := by omega
  have hbyte := getElem?_fill hs (n := 32 - pos) (j := i / 8 - pos) (by omega)
  rw [bitFrom?, ← hbyte, drawnFrom_eq_fill (by omega), bitOf, hdiv, hmod, List.getD_eq_getElem?_getD, hbyte,
    getElem?_mod_eq_byteAt hs]
  rfl

end Script

namespace Address

/-- A script without bytes is drawn from as one of a single zero. -/
theorem draw_empty_script (r : Address) (wanted : Option Nat) (k : Nat) :
    (r.draw wanted (Script.mk [] k)).1 = (r.draw wanted (Script.mk [0] k)).1 ∧
      (r.draw wanted (Script.mk [] k)).2 = ⟨[], (r.draw wanted (Script.mk [0] k)).2.cursor⟩ := by
  have hstart : Script.EmptyBesideZero ⟨[], k⟩ ⟨[0], k⟩ := ⟨rfl, rfl, rfl⟩
  obtain ⟨haddress, hbytes, -, hcursor⟩ := Script.emptyBesideZero_bisimulation.draw hstart r wanted
  refine ⟨haddress, ?_⟩
  rw [← hcursor, Script.mk.injEq]
  exact ⟨hbytes, rfl⟩

/-- Every bit of an address drawn from a script. Before the wanted proximity it is the reference's, there it is turned,
and behind it stand the bits of the script, whose first byte is drawn for the byte with the turned bit. -/
theorem draw_script_bits (r : Address) :
    (∀ s : Script, s.bytes ≠ [] →
      (∀ p < 256,
        (∀ i < p, (r.draw (some p) s).1.bit i = r.bit i) ∧
        (r.draw (some p) s).1.bit p = !r.bit p ∧
        (∀ i, p < i → i < 256 → some ((r.draw (some p) s).1.bit i) = s.bitFrom? (p / 8) i) ∧
        (r.draw (some p) s).2 = { s with cursor := s.cursor + 32 - p / 8 }) ∧
      (∀ j < 32, (r.draw none s).1.bytes[j]? = s.bytes[(s.cursor + j) % s.bytes.length]?) ∧
      (r.draw none s).2 = { s with cursor := s.cursor + 32 }) ∧
    (∀ (s : Script) (p : Nat), 256 ≤ p → r.draw (some p) s = (r, s)) ∧
    ∀ (wanted : Option Nat) (k : Nat),
      (r.draw wanted (Script.mk [] k)).1 = (r.draw wanted (Script.mk [0] k)).1 ∧
      (r.draw wanted (Script.mk [] k)).2 = ⟨[], (r.draw wanted (Script.mk [0] k)).2.cursor⟩ := by
  refine ⟨fun s hs => ⟨fun p hp => ?exact, fun j hj => Script.getElem?_fill hs hj, ?uniform⟩,
    fun s p hp => r.randomAt_of_le hp s, r.draw_empty_script⟩
  case exact =>
    have hbit := bit_randomAt r hp s
    have hcursor : s.cursor + 32 - p / 8 = s.cursor + (32 - p / 8) := by omega
    refine ⟨fun i hi => ?_, ?_, fun i hpi hi => ?_, ?_⟩
    · rw [draw, hbit, if_pos hi]
    · rw [draw, hbit, if_neg (Nat.lt_irrefl p), if_pos rfl]
    · rw [draw, hbit, if_neg (by omega), if_neg (by omega)]
      exact (Script.bitFrom?_eq_drawnFrom hs (by omega) hi).symm
    · rw [draw, randomAt_script, if_pos hp, hcursor]
  case uniform => exact congrArg Prod.snd (Script.fill_eq 32 s)

/-- A script of three bytes that is at its eighth: the second byte of the address, in which bit 13 is turned, takes its
last two bits from the middle one. -/
theorem cycling_draw_script_bits :
    let s : Script := ⟨[0xa5, 0x3d, 0x0f], 7⟩
    let r := ofLeading [0x12, 0x34]
    let x := (r.draw (some 13) s).1
    x.bit 11 = true ∧ x.bit 13 = false ∧ x.bit 15 = true ∧ x.bit 255 = true ∧ (r.draw (some 13) s).2.cursor = 38 ∧
      (r.draw none s).1.bytes[31]? = some 0x0f := by
  intro s r x
  obtain ⟨hdraws, -⟩ := r.draw_script_bits
  obtain ⟨hbits, hbytes, -⟩ := hdraws s (by decide)
  obtain ⟨hkept, hturned, hdrawn, hsource⟩ := hbits 13 (by decide)
  have h11 : r.bit 11 = true := by decide +kernel
  have h13 : r.bit 13 = true := by decide +kernel
  have h15 : s.bitFrom? (13 / 8) 15 = some true := by decide +kernel
  have h255 : s.bitFrom? (13 / 8) 255 = some true := by decide +kernel
  have hlast : s.bytes[(s.cursor + 31) % s.bytes.length]? = some 0x0f := by decide +kernel
  refine ⟨(hkept 11 (by decide)).trans h11, ?_, ?_, ?_, congrArg Script.cursor hsource, ?_⟩
  · rw [hturned, h13, Bool.not_true]
  · exact Option.some.inj ((hdrawn 15 (by decide) (by decide)).trans h15)
  · exact Option.some.inj ((hdrawn 255 (by decide) (by decide)).trans h255)
  · exact (hbytes 31 (by decide)).trans hlast

section
variable {r o : Address} {limit : Nat} {s : Script} (hs : s.bytes ≠ [])
include hs

theorem bit_commonBits_capped_script (hl : limit ≤ r.proximity o) (hw : limit < 256) {i : Nat} (hli : limit ≤ i)
    (hi : i < 256) : some ((r.commonBits o limit s).1.bit i) = s.bitFrom? (limit / 8) i := by
  rw [bit_commonBits_capped hl hw, if_neg (Nat.not_lt.mpr hli)]
  exact (Script.bitFrom?_eq_drawnFrom hs (by omega) hi).symm

theorem bit_commonBits_uncapped_script (hl : r.proximity o < limit) (hw : r.proximity o < 256) {i : Nat}
    (hpi : r.proximity o < i) (hi : i < 256) :
    some ((r.commonBits o limit s).1.bit i) = s.bitFrom? (r.proximity o / 8) i := by
  rw [bit_commonBits_uncapped hl hw, if_neg (Nat.not_lt_of_lt hpi), if_neg (Nat.ne_of_gt hpi)]
  exact (Script.bitFrom?_eq_drawnFrom hs (by omega) hi).symm

end

/-- Every bit of an address with the leading bits of two others. Up to the limit, or to the first bit in which the two
differ, it is the reference's; if this bit comes before the limit, it is the other's; the rest is the script. -/
theorem commonBits_script_bits (r o : Address) (limit : Nat) (s : Script) (hs : s.bytes ≠ []) :
    let actual := r.proximity o
    let e := min limit actual
    let x := (r.commonBits o limit s).1
    (e = 256 → r.commonBits o limit s = (r, s)) ∧
    (e ≠ 256 →
      (r.commonBits o limit s).2 = { s with cursor := s.cursor + 32 - e / 8 } ∧
      (∀ i < e, x.bit i = r.bit i) ∧
      (limit ≤ actual → ∀ i, e ≤ i → i < 256 → some (x.bit i) = s.bitFrom? (e / 8) i) ∧
      (actual < limit →
        x.bit e = o.bit e ∧ o.bit e = (!r.bit e) ∧
        (∀ i, e < i → i < 256 → some (x.bit i) = s.bitFrom? (e / 8) i) ∧
        r.proximity x = actual ∧ actual < o.proximity x)) := by
  intro actual e x
  have hprox : actual ≤ 256 := proximity_le r o
  refine ⟨fun hw => commonBits_eq_self (Nat.le_of_eq hw.symm) s, fun hw => ⟨?_, fun i hi => ?_, fun hl => ?_, fun hl => ?_⟩⟩
  · have hcursor : s.cursor + 32 - e / 8 = s.cursor + (32 - e / 8) := by omega
    rw [hcursor]
    exact commonBits_script r o limit s
  · exact (bit_eq_of_lt_proximity (lt_of_lt_of_le hi (min_le_proximity_commonBits r o limit s))).symm
  · have he : e = limit := Nat.min_eq_left hl
    rw [he] at hw ⊢
    exact fun i hei hi => bit_commonBits_capped_script hs hl (by omega) hei hi
  · have he : e = actual := Nat.min_eq_right (Nat.le_of_lt hl)
    have hlt : actual < 256 := by omega
    have hnear : actual < o.proximity x := lt_proximity_commonBits hl hlt s
    rw [he]
    refine ⟨(bit_eq_of_lt_proximity hnear).symm, Bool.eq_not_of_ne (bit_proximity_ne hlt).symm, fun i hei hi => ?_,
      proximity_commonBits hl s, hnear⟩
    exact bit_commonBits_uncapped_script hs hl hlt hei hi

/-- Two addresses that differ in bit 13 alone: with a limit of 13 this bit is the script's, with 14 it is the other one's.
Both times the last bit is that of the script's 38th byte. -/
theorem cycling_commonBits_script_bits :
    let s : Script := ⟨[0xa5, 0x3d, 0x0f], 7⟩
    let r := ofLeading [0x12, 0x34]
    let o := r.flipBit 13
    let capped := r.commonBits o 13 s
    let free := r.commonBits o 14 s
    capped.1.bit 13 = true ∧ capped.1.bit 255 = true ∧ capped.2.cursor = 38 ∧
      free.1.bit 13 = false ∧ free.1.bit 255 = true ∧ free.2.cursor = 38 ∧
      r.proximity free.1 = 13 ∧ 13 < o.proximity free.1 := by
  intro s r o capped free
  have hprox : r.proximity o = 13 := by decide +kernel
  have h13 : s.bitFrom? (13 / 8) 13 = some true := by decide +kernel
  have h255 : s.bitFrom? (13 / 8) 255 = some true := by decide +kernel
  have hother : o.bit 13 = false := by decide +kernel
  have hcapped := (commonBits_script_bits r o 13 s (by decide)).2
  have hfree := (commonBits_script_bits r o 14 s (by decide)).2
  simp only [hprox] at hcapped hfree
  obtain ⟨hcursor, -, hdrawn, -⟩ := hcapped (by decide)
  obtain ⟨hcursor', -, -, hturned⟩ := hfree (by decide)
  obtain ⟨hbit, -, hdrawn', hfar, hnear⟩ := hturned (by decide)
  refine ⟨?_, ?_, congrArg Script.cursor hcursor, hbit.trans hother, ?_, congrArg Script.cursor hcursor', hfar, hnear⟩
  · exact Option.some.inj ((hdrawn (by decide) 13 (by decide) (by decide)).trans h13)
  · exact Option.some.inj ((hdrawn (by decide) 255 (by decide) (by decide)).trans h255)
  · exact Option.some.inj ((hdrawn' 255 (by decide) (by decide)).trans h255)

end Address
end Kademlia
