import Kademlia.Proofs.Generation

/-!
A source that keeps a record of what is asked of it, and what generation asks: one byte for the boundary, and then all bytes
behind it at once.
-/
namespace Kademlia

inductive Call where
  | nextByte
  | fill (n : Nat)
  deriving DecidableEq

/-- Another source, with all that was asked of it, the first call first. -/
structure Recording (σ : Type) where
  source : σ
  calls : List Call

variable {σ : Type} [ByteSource σ]

namespace Recording

instance : ByteSource (Recording σ) where
  nextByte s :=
    let drawn := ByteSource.nextByte s.source
    (drawn.1, ⟨drawn.2, s.calls ++ [.nextByte]⟩)
  fill n s :=
    let drawn := ByteSource.fill n s.source
    (drawn.1, ⟨drawn.2, s.calls ++ [.fill n]⟩)
  length_fill n s := ByteSource.length_fill n s.source

/-- The calls for an address whose bit `e` stands in the first byte that is not kept. -/
def boundaryCalls (e : Nat) : List Call := if e < 256 then [.nextByte, .fill (31 - e / 8)] else []

theorem calls_sourceAfter (pos : Nat) (s : Recording σ) :
    (sourceAfter pos s).calls = s.calls ++ [.nextByte, .fill (31 - pos)] := by
  simp [sourceAfter, ByteSource.nextByte, ByteSource.fill]

end Recording

namespace Address

theorem calls_randomAt (r : Address) (p : Nat) (s : Recording σ) :
    (r.randomAt p s).2.calls = s.calls ++ Recording.boundaryCalls p := by
  by_cases hp : p < 256
  · rw [randomAt_source r hp, Recording.calls_sourceAfter, Recording.boundaryCalls, if_pos hp]
  · rw [randomAt_of_le r (Nat.not_lt.mp hp), Recording.boundaryCalls, if_neg hp, List.append_nil]

theorem calls_commonBits (r o : Address) (limit : Nat) (s : Recording σ) :
    (r.commonBits o limit s).2.calls = s.calls ++ Recording.boundaryCalls (min limit (r.proximity o)) := by
  by_cases hw : min limit (r.proximity o) < 256
  · rw [commonBits_source hw, Recording.calls_sourceAfter, Recording.boundaryCalls, if_pos hw]
  · rw [commonBits_eq_self (Nat.not_lt.mp hw), Recording.boundaryCalls, if_neg hw, List.append_nil]

end Address
end Kademlia
