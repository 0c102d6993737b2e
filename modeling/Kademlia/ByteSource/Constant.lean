import Kademlia.ByteSource.Basic

/-!
Sources without a script: one that hands out a single byte for ever, and one that counts.
-/
namespace Kademlia

structure Constant where
  byte : UInt8
  deriving DecidableEq

instance : ByteSource Constant where
  nextByte s := (s.byte, s)
  fill n s := (List.replicate n s.byte, s)
  length_fill _ _ := List.length_replicate

theorem Constant.drawEach_eq_fill (n : Nat) (s : Constant) :
    drawEach ByteSource.nextByte n s = ByteSource.fill n s := by
  induction n with
  | zero => rfl
  | succ n ih => rw [drawEach]; simp [ByteSource.nextByte, ByteSource.fill, List.replicate_succ] at ih ⊢; simp [ih]

structure Counter where
  upcoming : UInt8
  deriving DecidableEq

instance : ByteSource Counter where
  nextByte s := (s.upcoming, ⟨s.upcoming + 1⟩)

end Kademlia
