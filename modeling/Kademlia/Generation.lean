import Kademlia.Proximity
import Kademlia.ByteSource.Constant

/-!
Generation of addresses at a given closeness to a reference, and ranges of addresses with a common beginning. A mask is
named for the bits that are set in it, counted from the highest.
-/
namespace Kademlia
variable {σ : Type} [ByteSource σ]

namespace Address

def refill (r : Address) (pos : Nat) (hpos : pos < 32) (boundary : UInt8 → UInt8) (s : σ) : Address × σ :=
  let drawn := ByteSource.nextByte s
  let rest := ByteSource.fill (31 - pos) drawn.2
  (⟨r.bytes.take pos ++ boundary drawn.1 :: rest.1, by
      simp [rest, ByteSource.length_fill, r.length_bytes]; omega⟩, rest.2)

def onesFrom (t : Nat) : UInt8 := 0xff >>> t.toUInt8

def onesBehind (t : Nat) : UInt8 := 0x7f >>> t.toUInt8

def onesThrough (t : Nat) : UInt8 := 0xff <<< (7 - t).toUInt8

def random (s : σ) : Address × σ :=
  let drawn := ByteSource.fill 32 s
  (⟨drawn.1, ByteSource.length_fill 32 s⟩, drawn.2)

/-- An address that shares exactly `prox` leading bits with the reference: bit `prox` is inverted, the bits behind it
are drawn. At 256 and more it is the reference. -/
def randomAt (r : Address) (prox : Nat) (s : σ) : Address × σ :=
  if h : prox < 256 then
    let kept := r.bytes.getD (prox / 8) 0
    let forced := onesThrough (prox % 8)
    r.refill (prox / 8) (by omega) (fun b => ((kept &&& forced) ^^^ bitMask (prox % 8)) ||| (b &&& ~~~forced)) s
  else (r, s)

def draw (r : Address) : Option Nat → σ → Address × σ
  | some prox, s => r.randomAt prox s
  | none, s => random s

/-- An address that shares the leading bits of the reference and the other address, at most `limit` of them. If the
limit is not the reason to stop, the first bit in which the two differ is that of the other address. All bits behind
are drawn. -/
def commonBits (r other : Address) (limit : Nat) (s : σ) : Address × σ :=
  let actual := r.proximity other
  let shared := if limit ≤ actual then limit else actual
  if h : shared < 256 then
    let kept := r.bytes.getD (shared / 8) 0
    if limit ≤ actual then
      let drawn := onesFrom (shared % 8)
      r.refill (shared / 8) (by omega) (fun b => (kept &&& ~~~drawn) ||| (drawn &&& b)) s
    else
      let drawn := onesBehind (shared % 8)
      r.refill (shared / 8) (by omega) (fun b => ((kept &&& ~~~drawn) ^^^ bitMask (shared % 8)) ||| (drawn &&& b)) s
  else (r, s)

def commonBitsFilled (r other : Address) (limit : Nat) (byte : UInt8) : Address :=
  (r.commonBits other limit (Constant.mk byte)).1

end Address
end Kademlia
