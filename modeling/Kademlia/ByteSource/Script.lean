import Kademlia.ByteSource.Basic

/-!
A source that hands out given bytes in order and starts over after the last of them.
-/
namespace Kademlia

structure Script where
  bytes : List UInt8
  /-- The number of bytes handed out so far. -/
  cursor : Nat
  deriving DecidableEq

namespace Script

def ofBytes (bs : List UInt8) : Script := ⟨bs, 0⟩

def empty : Script := ofBytes []

def repeating (b : UInt8) : Script := ofBytes [b]

/-- Byte `i` of the endless repetition of the script, zero if there is nothing to repeat. -/
def byteAt (bs : List UInt8) (i : Nat) : UInt8 := bs.getD (i % bs.length) 0

def next (s : Script) : UInt8 × Script := (byteAt s.bytes s.cursor, { s with cursor := s.cursor + 1 })

instance : ByteSource Script where
  nextByte := next

theorem nextByte_eq (s : Script) :
    ByteSource.nextByte s = (byteAt s.bytes s.cursor, { s with cursor := s.cursor + 1 }) := rfl

theorem fill_eq (n : Nat) (s : Script) :
    ByteSource.fill n s =
      ((List.range' s.cursor n).map (byteAt s.bytes), { s with cursor := s.cursor + n }) := by
  change drawEach next n s = _
  induction n generalizing s with
  | zero => rfl
  | succ n ih => simp [drawEach, ih, next, List.range'_succ, Nat.add_comm, Nat.add_left_comm]

end Script
end Kademlia
