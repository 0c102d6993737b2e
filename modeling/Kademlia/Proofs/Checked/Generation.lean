import Kademlia.KeyRange
import Kademlia.Proofs.ByteSource.Recording
import Kademlia.Proofs.Checked.Operations

/-!
Generation and ranges, step by step over operations that can stop the program. No step ever does: whatever the addresses,
limits and places are, the result is there, and it is that of the functions that have no way to fail. The source is asked
for one byte at the boundary and then for just the bytes behind it.
-/
namespace Kademlia.Checked
variable {σ : Type} [ByteSource σ]

/-- The scan for the first byte in which two addresses differ, `i` being the place of the next bytes. -/
def proximityFrom (i : Nat) : List UInt8 → List UInt8 → Option Nat
  | x :: xs, y :: ys =>
    if x ^^^ y ≠ 0 then do
      let before ← mul i 8
      add before (leadingZeros (x ^^^ y))
    else do
      let next ← add i 1
      proximityFrom next xs ys
  | _, _ => some 256

def proximity (a b : Address) : Option Nat := proximityFrom 0 a.bytes b.bytes

def refill (bytes : List UInt8) (pos : Nat) (boundary : UInt8 → UInt8) (s : σ) : Option (Address × σ) := do
  let drawn := ByteSource.nextByte s
  let out ← write bytes pos (boundary drawn.1)
  let start ← add pos 1
  let behind ← sliceFrom out start
  let filled := ByteSource.fill behind.length drawn.2
  let before ← sliceTo out start
  let a ← Address.ofBytes? (before ++ filled.1)
  return (a, filled.2)

def randomAt (r : Address) (prox : Nat) (s : σ) : Option (Address × σ) :=
  if 256 ≤ prox then some (r, s)
  else do
    let below ← sub 7 (prox % 8)
    let forced ← shiftLeft 0xff below
    let flip ← shiftRight 0x80 (prox % 8)
    let kept ← r.bytes[prox / 8]?
    refill r.bytes (prox / 8) (fun b => ((kept &&& forced) ^^^ flip) ||| (b &&& ~~~forced)) s

def draw (r : Address) : Option Nat → σ → Option (Address × σ)
  | some prox, s => randomAt r prox s
  | none, s => do
    let filled := ByteSource.fill 32 s
    let a ← Address.ofBytes? filled.1
    return (a, filled.2)

def commonBits (r other : Address) (limit : Nat) (s : σ) : Option (Address × σ) := do
  let actual ← proximity r other
  let shared := if limit ≤ actual then limit else actual
  if 256 ≤ shared then return (r, s)
  let drawn ← shiftRight (if limit ≤ actual then 0xff else 0x7f) (shared % 8)
  let byte ← r.bytes[shared / 8]?
  let kept ← if limit ≤ actual then some (byte &&& ~~~drawn)
    else do
      let flip ← shiftRight 0x80 (shared % 8)
      some ((byte &&& ~~~drawn) ^^^ flip)
  refill r.bytes (shared / 8) (fun b => kept ||| (drawn &&& b)) s

def commonBitsFilled (r other : Address) (limit : Nat) (byte : UInt8) : Option Address := do
  let filled ← commonBits r other limit (Constant.mk byte)
  return filled.1

def keyRange (one other : Address) (limit : Nat) : Option KeyRange := do
  let actual ← proximity one other
  let prox := min (min actual limit) 256
  let start ← commonBitsFilled one other prox 0x00
  let stop ← commonBitsFilled one other prox 0xff
  return ⟨start, stop, prox⟩

def bit (a : Address) (i : Nat) : Option Bool :=
  match a.bytes[i / 8]? with
  | some byte => do
    let below ← sub 7 (i % 8)
    let shifted ← shiftRight byte below
    return shifted &&& 1 == 1
  | none => some false

def flipBit (a : Address) (i : Nat) : Option Address :=
  match a.bytes[i / 8]? with
  | some byte => do
    let flip ← shiftRight 0x80 (i % 8)
    let out ← write a.bytes (i / 8) (byte ^^^ flip)
    Address.ofBytes? out
  | none => some a

def ofLeading (leading : List UInt8) : Option Address := do
  let zeros := List.replicate 32 0
  let len := min leading.length 32
  let target ← sliceTo zeros len
  let source ← sliceTo leading len
  let copied ← copy target source
  let rest ← sliceFrom zeros len
  Address.ofBytes? (copied ++ rest)

/-- The scan ends at the 32nd byte, so that neither its place nor the bits before it grow large. -/
theorem proximityFrom_eq {i : Nat} {xs ys : List UInt8} (hlen : xs.length = ys.length) (hi : i + xs.length = 32) :
    proximityFrom i xs ys = some (8 * i + sharedBits xs ys) := by
  induction xs generalizing i ys with
  | nil =>
    have hbits : 8 * i = 256 := by
      rw [List.length_nil] at hi
      omega
    simp [proximityFrom, sharedBits, hbits]
  | cons x xs ih =>
    cases ys with
    | nil => simp at hlen
    | cons y ys =>
      rw [List.length_cons] at hi
      by_cases hxy : x = y
      · have hnext : add i 1 = some (i + 1) := require_of (by omega) _
        have hrest := ih (i := i + 1) (Nat.succ.inj hlen) (by omega)
        simp [proximityFrom, sharedBits, hxy, hnext, hrest, Nat.mul_add, Nat.add_assoc]
      · have hne : x ^^^ y ≠ 0 := fun h => hxy (UInt8.xor_eq_zero_iff.mp h)
        have hzeros := leadingZeros_lt hne
        have hbefore : mul i 8 = some (i * 8) := require_of (by omega) _
        have hsum : add (i * 8) (leadingZeros (x ^^^ y)) = some (i * 8 + leadingZeros (x ^^^ y)) :=
          require_of (by omega) _
        simp [proximityFrom, sharedBits, hxy, hne, hbefore, hsum, Nat.mul_comm]

theorem proximity_eq (a b : Address) : proximity a b = some (a.proximity b) := by
  have h := proximityFrom_eq (i := 0) (a.length_bytes.trans b.length_bytes.symm) (by rw [Nat.zero_add, a.length_bytes])
  rwa [Nat.mul_zero, Nat.zero_add] at h

/-- The byte at the boundary is within the array, and what is behind it is as long as the source is asked to fill. -/
theorem refill_eq (r : Address) {pos : Nat} (hpos : pos < 32) (boundary : UInt8 → UInt8) (s : σ) :
    refill r.bytes pos boundary s = some (r.refill pos hpos boundary s) := by
  have hlen : r.bytes.length = 32 := r.length_bytes
  have hfront : pos + 1 = (r.bytes.take pos).length + 1 := by
    rw [List.length_take, hlen]
    omega
  have hplace : pos < r.bytes.length := by
    rw [hlen]
    exact hpos
  have hwrite := write_eq hplace (boundary (ByteSource.nextByte s).1)
  have hstart : add pos 1 = some (pos + 1) := require_of (by omega) _
  have hcount : (r.bytes.drop (pos + 1)).length = 31 - pos := by
    rw [List.length_drop, hlen]
    omega
  have hbytes : (r.bytes.take pos ++ [boundary (ByteSource.nextByte s).1] ++
      (ByteSource.fill (31 - pos) (ByteSource.nextByte s).2).1).length = 32 := by
    simp [ByteSource.length_fill, hlen]
    omega
  simp only [refill, hwrite, hstart, sliceFrom_append hfront, sliceTo_append hfront, hcount, Address.ofBytes?_of_length hbytes,
    Option.bind_eq_bind, Option.bind_some]
  simp [Address.refill]

theorem randomAt_eq (r : Address) (prox : Nat) (s : σ) : randomAt r prox s = some (r.randomAt prox s) := by
  by_cases hp : prox < 256
  · have hbelow : sub 7 (prox % 8) = some (7 - prox % 8) := require_of (by omega) _
    have hforced : shiftLeft 0xff (7 - prox % 8) = some (Address.onesThrough (prox % 8)) := require_of (by omega) _
    have hflip : shiftRight 0x80 (prox % 8) = some (Address.bitMask (prox % 8)) := require_of (by omega) _
    have hkept := r.getElem?_bytes (i := prox / 8) (by omega)
    simp only [randomAt, Address.randomAt, if_neg (Nat.not_le.mpr hp), dif_pos hp, hbelow, hforced, hflip, hkept,
      Option.bind_eq_bind, Option.bind_some]
    exact refill_eq r _ _ s
  · simp only [randomAt, Address.randomAt, if_pos (Nat.not_lt.mp hp), dif_neg hp]

theorem draw_eq (r : Address) (wanted : Option Nat) (s : σ) : draw r wanted s = some (r.draw wanted s) := by
  cases wanted with
  | some prox => exact randomAt_eq r prox s
  | none =>
    have hbytes := Address.ofBytes?_of_length (ByteSource.length_fill 32 s)
    simp only [draw, hbytes, Option.bind_eq_bind, Option.bind_some]
    rfl

theorem commonBits_eq (r o : Address) (limit : Nat) (s : σ) : commonBits r o limit s = some (r.commonBits o limit s) := by
  simp only [commonBits, proximity_eq, Option.bind_eq_bind, Option.bind_some]
  by_cases hl : limit ≤ r.proximity o
  · simp only [Address.commonBits, if_pos hl]
    by_cases hw : limit < 256
    · have hdrawn : shiftRight 0xff (limit % 8) = some (Address.onesFrom (limit % 8)) := require_of (by omega) _
      have hbyte := r.getElem?_bytes (i := limit / 8) (by omega)
      simp only [if_neg (Nat.not_le.mpr hw), dif_pos hw, hdrawn, hbyte, Option.bind_some]
      exact refill_eq r _ _ s
    · simp only [if_pos (Nat.not_lt.mp hw), dif_neg hw]
      rfl
  · simp only [Address.commonBits, if_neg hl]
    by_cases hw : r.proximity o < 256
    · have hdrawn : shiftRight 0x7f (r.proximity o % 8) = some (Address.onesBehind (r.proximity o % 8)) := require_of (by omega) _
      have hflip : shiftRight 0x80 (r.proximity o % 8) = some (Address.bitMask (r.proximity o % 8)) := require_of (by omega) _
      have hbyte := r.getElem?_bytes (i := r.proximity o / 8) (by omega)
      simp only [if_neg (Nat.not_le.mpr hw), dif_pos hw, hdrawn, hflip, hbyte, Option.bind_some]
      exact refill_eq r _ _ s
    · simp only [if_pos (Nat.not_lt.mp hw), dif_neg hw]
      rfl

theorem commonBitsFilled_eq (r o : Address) (limit : Nat) (byte : UInt8) :
    commonBitsFilled r o limit byte = some (r.commonBitsFilled o limit byte) := by
  simp only [commonBitsFilled, commonBits_eq, Option.bind_eq_bind, Option.bind_some]
  rfl

theorem keyRange_eq (one other : Address) (limit : Nat) :
    keyRange one other limit = some (one.keyRange other limit) := by
  simp only [keyRange, proximity_eq, commonBitsFilled_eq, Option.bind_eq_bind, Option.bind_some]
  rfl

theorem bit_eq (a : Address) (i : Nat) : bit a i = some (a.bit i) := by
  by_cases hi : i / 8 < 32
  · have hplace : i % 8 < 8 := Nat.mod_lt i (by decide)
    have hbelow : sub 7 (i % 8) = some (7 - i % 8) := require_of (by omega) _
    have hshift : shiftRight (a.bytes.getD (i / 8) 0) (7 - i % 8) = some (a.bytes.getD (i / 8) 0 >>> (7 - i % 8).toUInt8) :=
      require_of (by omega) _
    simp only [bit, a.getElem?_bytes hi, hbelow, hshift, Option.bind_eq_bind, Option.bind_some]
    rw [shiftRight_and_one _ (by omega), ← byteBit_eq_testBit _ hplace]
    rfl
  · have hnone : a.bytes[i / 8]? = none := by
      rw [List.getElem?_eq_none_iff, a.length_bytes]
      omega
    simp only [bit, hnone]
    rw [Address.bit_of_le (by omega)]

theorem flipBit_eq (a : Address) (i : Nat) : flipBit a i = some (a.flipBit i) := by
  by_cases hi : i / 8 < a.bytes.length
  · have hflip : shiftRight 0x80 (i % 8) = some (Address.bitMask (i % 8)) := require_of (by omega) _
    have hwrite : write a.bytes (i / 8) (a.bytes[i / 8] ^^^ Address.bitMask (i % 8)) = some (a.flipBit i).bytes := by
      have hmodify : (a.flipBit i).bytes = a.bytes.modify (i / 8) (· ^^^ Address.bitMask (i % 8)) := rfl
      rw [write_eq hi, hmodify, List.modify_eq_take_cons_drop hi]
    simp only [flipBit, List.getElem?_eq_getElem hi, hflip, hwrite, Address.ofBytes?_bytes, Option.bind_eq_bind,
      Option.bind_some]
  · have hnone : a.bytes[i / 8]? = none := List.getElem?_eq_none_iff.mpr (Nat.not_lt.mp hi)
    have hsame : a.flipBit i = a := Address.ext_bytes (List.modify_eq_self (Nat.not_lt.mp hi))
    simp only [flipBit, hnone, hsame]

/-- A short list followed by the zeros that it leaves, or the beginning of a long one. -/
theorem take_append_drop_replicate (bs : List UInt8) (n : Nat) (b : UInt8) :
    bs.take (min bs.length n) ++ (List.replicate n b).drop (min bs.length n) = (bs ++ List.replicate n b).take n := by
  rw [List.take_append, List.drop_replicate, List.take_replicate]
  cases Nat.le_total bs.length n with
  | inl h => rw [Nat.min_eq_left h, Nat.min_eq_left (Nat.sub_le n _), List.take_length, List.take_of_length_le h]
  | inr h => rw [Nat.min_eq_right h, Nat.sub_self, Nat.sub_eq_zero_of_le h, Nat.zero_min]

theorem ofLeading_eq (leading : List UInt8) : ofLeading leading = some (Address.ofLeading leading) := by
  have hzeros : min leading.length 32 ≤ (List.replicate 32 (0 : UInt8)).length := by
    rw [List.length_replicate]
    omega
  have hcopied : (leading.take (min leading.length 32)).length =
      ((List.replicate 32 (0 : UInt8)).take (min leading.length 32)).length := by
    rw [List.length_take, List.length_take, List.length_replicate]
    omega
  simp only [ofLeading, sliceTo, sliceFrom, copy, require_of hzeros, require_of (Nat.min_le_left leading.length 32),
    require_of hcopied, take_append_drop_replicate, Option.bind_eq_bind, Option.bind_some]
  exact Address.ofBytes?_bytes (Address.ofLeading leading)

/-- Nothing fails that generates addresses or ranges, or reads or inverts a bit, and all results are those of the functions
that cannot fail. A source that is asked for the byte at the boundary is then asked for just the bytes behind it. -/
theorem generation_never_fails {σ : Type} [ByteSource σ] :
    (∀ (r : Address) (wanted : Option Nat) (s : σ), draw r wanted s = some (r.draw wanted s)) ∧
      (∀ (r o : Address) (limit : Nat) (s : σ), commonBits r o limit s = some (r.commonBits o limit s)) ∧
      (∀ (r o : Address) (limit : Nat) (byte : UInt8),
        commonBitsFilled r o limit byte = some (r.commonBitsFilled o limit byte)) ∧
      (∀ (one other : Address) (limit : Nat), keyRange one other limit = some (one.keyRange other limit)) ∧
      (∀ (a : Address) (i : Nat), bit a i = some (a.bit i)) ∧
      (∀ (a : Address) (i : Nat), flipBit a i = some (a.flipBit i)) ∧
      (∀ leading : List UInt8, ofLeading leading = some (Address.ofLeading leading)) ∧
      (∀ (r : Address) (p : Nat) (s : Recording σ),
        (draw r (some p) s).map (·.2.calls) = some (s.calls ++ Recording.boundaryCalls p)) ∧
      ∀ (r o : Address) (limit : Nat) (s : Recording σ), (commonBits r o limit s).map (·.2.calls) =
        some (s.calls ++ Recording.boundaryCalls (min limit (r.proximity o))) := by
  refine ⟨draw_eq, commonBits_eq, commonBitsFilled_eq, keyRange_eq, bit_eq, flipBit_eq, ofLeading_eq, ?_, ?_⟩
  · intro r p s
    rw [draw_eq, Option.map_some, ← r.calls_randomAt p s]
    rfl
  · intro r o limit s
    rw [commonBits_eq, Option.map_some, r.calls_commonBits o limit s]

end Kademlia.Checked
