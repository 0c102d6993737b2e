/-!
Sources of the bytes that fill up generated addresses.
-/
namespace Kademlia
variable {σ : Type}

def drawEach (next : σ → UInt8 × σ) : Nat → σ → List UInt8 × σ
  | 0, s => ([], s)
  | n + 1, s =>
    let (b, s) := next s
    let (bs, s) := drawEach next n s
    (b :: bs, s)

theorem length_drawEach (next : σ → UInt8 × σ) (n : Nat) (s : σ) :
    (drawEach next n s).1.length = n := by
  induction n generalizing s with
  | zero => rfl
  | succ n ih => simpa [drawEach] using ih _

theorem drawEach_add (next : σ → UInt8 × σ) (m n : Nat) (s : σ) :
    drawEach next (m + n) s =
      ((drawEach next m s).1 ++ (drawEach next n (drawEach next m s).2).1,
        (drawEach next n (drawEach next m s).2).2) := by
  induction m generalizing s with
  | zero => simp [drawEach]
  | succ m ih => rw [Nat.succ_add]; simp [drawEach, ih]

/-- A state from which bytes are drawn, one at a time or several at once. This is what is assumed of every source: to fill
`n` places means to hand over exactly `n` bytes, which depend on nothing but `n` and the state of the source. What the
places held before is neither looked at nor left in any of them. A source that does not say how it fills draws the bytes
one after the other. -/
class ByteSource (σ : Type) where
  nextByte : σ → UInt8 × σ
  fill : Nat → σ → List UInt8 × σ := drawEach nextByte
  length_fill : ∀ n s, (fill n s).1.length = n := by exact length_drawEach _

end Kademlia
