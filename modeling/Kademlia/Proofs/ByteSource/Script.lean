import Kademlia.ByteSource.Script
import Kademlia.Proofs.Generation

/-!
How far generation reads on in a script: one byte for the boundary and one for each byte behind it.
-/
namespace Kademlia

theorem sourceAfter_script {pos : Nat} (hpos : pos < 32) (s : Script) :
    sourceAfter pos s = { s with cursor := s.cursor + (32 - pos) } := by
  have hcursor : s.cursor + 1 + (31 - pos) = s.cursor + (32 - pos) := by omega
  rw [sourceAfter, Script.nextByte_eq, Script.fill_eq, hcursor]

theorem Script.fill_ofBytes (bs : List UInt8) : (ByteSource.fill bs.length (ofBytes bs)).1 = bs := by
  rw [fill_eq]
  apply List.ext_getElem
  · simp
  · intro i _ hi
    simp [ofBytes, byteAt, Nat.mod_eq_of_lt hi, hi]

theorem drawnFrom_eq_fill {pos : Nat} (hpos : pos < 32) (s : Script) :
    drawnFrom pos s = (ByteSource.fill (32 - pos) s).1 := by
  have hsucc : 32 - pos = (31 - pos) + 1 := by omega
  rw [hsucc]
  rfl

/-- What is drawn from a fresh script of just the needed length is the script itself. -/
theorem drawnFrom_ofBytes {pos : Nat} (hpos : pos < 32) {bs : List UInt8} (hlen : bs.length = 32 - pos) :
    drawnFrom pos (Script.ofBytes bs) = bs := by
  rw [drawnFrom_eq_fill hpos, ← hlen, Script.fill_ofBytes]

namespace Address

theorem randomAt_script (r : Address) (p : Nat) (s : Script) :
    (r.randomAt p s).2 = { s with cursor := s.cursor + if p < 256 then 32 - p / 8 else 0 } := by
  by_cases hp : p < 256
  · rw [randomAt_source r hp, sourceAfter_script (Nat.div_lt_of_lt_mul hp), if_pos hp]
  · rw [randomAt_of_le r (Nat.not_lt.mp hp), if_neg hp]
    rfl

/-- At full proximity nothing is read, which the same formula says. -/
theorem commonBits_script (r o : Address) (limit : Nat) (s : Script) :
    (r.commonBits o limit s).2 = { s with cursor := s.cursor + (32 - min limit (r.proximity o) / 8) } := by
  have hprox := proximity_le r o
  by_cases hw : min limit (r.proximity o) < 256
  · rw [commonBits_source hw, sourceAfter_script (Nat.div_lt_of_lt_mul hw)]
  · have hzero : 32 - min limit (r.proximity o) / 8 = 0 := by omega
    rw [commonBits_eq_self (Nat.not_lt.mp hw), hzero]
    rfl

end Address
end Kademlia
