import Kademlia.ByteSource.Words
import Kademlia.Proofs.Generation

/-!
How generation reads on in a stream of words: one word for the byte at the boundary, and behind it the bytes of as many
words as there must be begun.
-/
namespace Kademlia.WordStream

theorem toNat_byteOf (w : UInt32) {i : Nat} (hi : i < 4) : (byteOf w i).toNat = w.toNat / 256 ^ i % 256 := by
  have hshift : (8 * i).toUInt32.toNat % 32 = 8 * i := by
    simp
    omega
  have hbase : 2 ^ (8 * i) = 256 ^ i := Nat.pow_mul 2 8 i
  rw [byteOf, UInt32.toNat_toUInt8, UInt32.toNat_shiftRight, hshift, Nat.shiftRight_eq_div_pow, hbase]

theorem byteBit_byteOf_zero (w : UInt32) {i : Nat} (hi : i < 8) :
    byteBit (byteOf w 0) i = w.toNat.testBit (7 - i) := by
  have hlow : (byteOf w 0).toNat = w.toNat % 2 ^ 8 := by simpa using toNat_byteOf w (i := 0) (by decide)
  have hwithin : 7 - i < 8 := by omega
  rw [byteBit_eq_testBit _ hi, hlow, Nat.testBit_mod_two_pow, decide_eq_true hwithin, Bool.true_and]

theorem advance_advance (s : WordStream) (m n : Nat) : (s.advance m).advance n = s.advance (m + n) := by
  simp [advance, Nat.add_assoc]

/-- The words that are begun are as many as a fourth of the bytes, rounded up. -/
theorem fill_source (n : Nat) (s : WordStream) : (ByteSource.fill n s).2 = s.advance ((n + 3) / 4) := rfl

theorem getElem?_fill {n k : Nat} (hk : k < n) (s : WordStream) :
    (ByteSource.fill n s).1[k]? = some (byteOf (s.word (s.position + k / 4)) (k % 4)) := by
  simp [ByteSource.fill, byteFrom, hk]

theorem sourceAfter_words (pos : Nat) (s : WordStream) : sourceAfter pos s = s.advance (1 + (31 - pos + 3) / 4) := by
  rw [sourceAfter, fill_source, ← advance_advance]
  rfl

theorem bitOf_drawnFrom_boundary (pos : Nat) (s : WordStream) {i : Nat} (hi : i < 8) :
    bitOf (drawnFrom pos s) i = (s.word s.position).toNat.testBit (7 - i) := by
  rw [drawnFrom, bitOf_cons, if_pos hi]
  exact byteBit_byteOf_zero _ hi

theorem getElem?_drawnFrom_behind {pos k : Nat} (hk : k < 31 - pos) (s : WordStream) :
    (drawnFrom pos s)[k + 1]? = some (byteOf (s.word (s.position + (1 + k / 4))) (k % 4)) := by
  rw [drawnFrom, List.getElem?_cons_succ, getElem?_fill hk, ← Nat.add_assoc]
  rfl

end Kademlia.WordStream
