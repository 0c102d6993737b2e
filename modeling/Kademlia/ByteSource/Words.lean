import Kademlia.ByteSource.Basic

/-!
A source over a stream of 32-bit words. A single byte takes a whole word and is its lowest byte; several bytes take
as many words as they need, lowest byte first, and what is left of the last word is dropped.
-/
namespace Kademlia

structure WordStream where
  word : Nat → UInt32
  /-- The number of words taken so far. -/
  position : Nat

namespace WordStream

/-- Byte `i` of a word, the lowest byte being the first. -/
def byteOf (w : UInt32) (i : Nat) : UInt8 := (w >>> (8 * i).toUInt32).toUInt8

def cycling (ws : List UInt32) : WordStream := ⟨fun i => ws.getD (i % ws.length) 0, 0⟩

def advance (s : WordStream) (n : Nat) : WordStream := { s with position := s.position + n }

def nextWord (s : WordStream) : UInt32 × WordStream := (s.word s.position, s.advance 1)

/-- The next two words as one number, the first of them being its low half. -/
def nextPair (s : WordStream) : UInt64 × WordStream :=
  let (low, s) := s.nextWord
  let (high, s) := s.nextWord
  (low.toUInt64 ||| high.toUInt64 <<< 32, s)

def byteFrom (s : WordStream) (k : Nat) : UInt8 := byteOf (s.word (s.position + k / 4)) (k % 4)

instance : ByteSource WordStream where
  nextByte s := (byteOf (s.word s.position) 0, s.advance 1)
  fill n s := ((List.range n).map s.byteFrom, s.advance ((n + 3) / 4))
  length_fill _ _ := by simp

end WordStream
end Kademlia
