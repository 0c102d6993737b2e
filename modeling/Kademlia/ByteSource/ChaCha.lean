import Kademlia.ByteSource.Words

/-!
The repeatable source: a ChaCha keystream of 12 rounds under a key that is spread out from a 64-bit seed.
-/
namespace Kademlia.ChaCha

structure Row where
  w₀ : UInt32
  w₁ : UInt32
  w₂ : UInt32
  w₃ : UInt32

namespace Row

def zip (f : UInt32 → UInt32 → UInt32) (x y : Row) : Row :=
  ⟨f x.w₀ y.w₀, f x.w₁ y.w₁, f x.w₂ y.w₂, f x.w₃ y.w₃⟩

def turn (x : Row) : Row := ⟨x.w₁, x.w₂, x.w₃, x.w₀⟩

def toList (x : Row) : List UInt32 := [x.w₀, x.w₁, x.w₂, x.w₃]

end Row

structure Block where
  r₀ : Row
  r₁ : Row
  r₂ : Row
  r₃ : Row

def rotateLeft (x k : UInt32) : UInt32 := x <<< k ||| x >>> (32 - k)

def mix (k x y : UInt32) : UInt32 := rotateLeft (x ^^^ y) k

namespace Block

def quarters (b : Block) : Block :=
  let a := b.r₀.zip (· + ·) b.r₁
  let d := b.r₃.zip (mix 16) a
  let c := b.r₂.zip (· + ·) d
  let b := b.r₁.zip (mix 12) c
  let a := a.zip (· + ·) b
  let d := d.zip (mix 8) a
  let c := c.zip (· + ·) d
  let b := b.zip (mix 7) c
  ⟨a, b, c, d⟩

def diagonals (b : Block) : Block := ⟨b.r₀, b.r₁.turn, b.r₂.turn.turn, b.r₃.turn.turn.turn⟩

def undiagonals (b : Block) : Block := ⟨b.r₀, b.r₁.turn.turn.turn, b.r₂.turn.turn, b.r₃.turn⟩

def doubleRound (b : Block) : Block := b.quarters.diagonals.quarters.undiagonals

def rounds : Nat → Block → Block
  | 0, b => b
  | n + 1, b => rounds n b.doubleRound

def add (x y : Block) : Block :=
  ⟨x.r₀.zip (· + ·) y.r₀, x.r₁.zip (· + ·) y.r₁, x.r₂.zip (· + ·) y.r₂, x.r₃.zip (· + ·) y.r₃⟩

def toList (b : Block) : List UInt32 := b.r₀.toList ++ b.r₁.toList ++ b.r₂.toList ++ b.r₃.toList

end Block

/-- The constant words, which spell the text "expand 32-byte k". -/
def constants : Row := ⟨0x61707865, 0x3320646e, 0x79622d32, 0x6b206574⟩

structure Key where
  low : Row
  high : Row

/-- The block of the given number before the rounds, with the number in its lower half row and no nonce. -/
def initial (key : Key) (counter : Nat) : Block :=
  ⟨constants, key.low, key.high, ⟨counter.toUInt32, (counter / Nat.pow 2 32).toUInt32, 0, 0⟩⟩

def block (key : Key) (counter : Nat) : Block :=
  let start := initial key counter
  (start.rounds 6).add start

def word (key : Key) (i : Nat) : UInt32 := (block key (i / 16)).toList.getD (i % 16) 0

/-- One step of the generator that spreads a seed over a key: the word it yields and its next state. -/
def spread (state : UInt64) : UInt32 × UInt64 :=
  let state := state * 6364136223846793005 + 11634580027462260723
  let x := (((state >>> 18) ^^^ state) >>> 27).toUInt32
  let k := (state >>> 59).toUInt32
  (x >>> k ||| x <<< ((32 - k) % 32), state)

def Row.ofSeed (state : UInt64) : Row × UInt64 :=
  let (w₀, state) := spread state
  let (w₁, state) := spread state
  let (w₂, state) := spread state
  let (w₃, state) := spread state
  (⟨w₀, w₁, w₂, w₃⟩, state)

def Key.ofSeed (seed : UInt64) : Key :=
  let (low, state) := Row.ofSeed seed
  let (high, _) := Row.ofSeed state
  ⟨low, high⟩

end Kademlia.ChaCha

namespace Kademlia

def WordStream.seeded (seed : UInt64) : WordStream := ⟨ChaCha.word (ChaCha.Key.ofSeed seed), 0⟩

end Kademlia
