import Kademlia.ByteSource.Script
import Kademlia.Generation

/-!
Sources that cannot be told apart. When the states of two sources are related in such a way that both hand out the same
bytes, one by one and several at once, then addresses drawn from them are the same too.
-/
namespace Kademlia
variable {σ τ : Type} [ByteSource σ] [ByteSource τ] {R : σ → τ → Prop}

def Agree {α : Type} (R : σ → τ → Prop) (x : α × σ) (y : α × τ) : Prop := x.1 = y.1 ∧ R x.2 y.2

structure Bisimulation (R : σ → τ → Prop) : Prop where
  nextByte : ∀ {s t}, R s t → Agree R (ByteSource.nextByte s) (ByteSource.nextByte t)
  fill : ∀ {s t}, R s t → ∀ n, Agree R (ByteSource.fill n s) (ByteSource.fill n t)

namespace Bisimulation
variable {s : σ} {t : τ}

theorem refill (hR : Bisimulation R) (h : R s t) (r : Address) {pos : Nat} (hpos : pos < 32)
    (boundary : UInt8 → UInt8) : Agree R (r.refill pos hpos boundary s) (r.refill pos hpos boundary t) := by
  obtain ⟨hbyte, hnext⟩ := hR.nextByte h
  obtain ⟨hbytes, hrest⟩ := hR.fill hnext (31 - pos)
  refine ⟨Address.ext_bytes ?_, hrest⟩
  simp only [Address.refill, hbyte, hbytes]

theorem randomAt (hR : Bisimulation R) (h : R s t) (r : Address) (prox : Nat) :
    Agree R (r.randomAt prox s) (r.randomAt prox t) := by
  by_cases hw : prox < 256
  · simp only [Address.randomAt, dif_pos hw]
    exact hR.refill h r _ _
  · simp only [Address.randomAt, dif_neg hw]
    exact ⟨rfl, h⟩

theorem draw (hR : Bisimulation R) (h : R s t) (r : Address) (wanted : Option Nat) :
    Agree R (r.draw wanted s) (r.draw wanted t) := by
  cases wanted with
  | some prox => exact hR.randomAt h r prox
  | none =>
    obtain ⟨hbytes, hrest⟩ := hR.fill h 32
    exact ⟨Address.ext_bytes hbytes, hrest⟩

theorem commonBits (hR : Bisimulation R) (h : R s t) (r o : Address) (limit : Nat) :
    Agree R (r.commonBits o limit s) (r.commonBits o limit t) := by
  by_cases hl : limit ≤ r.proximity o
  · by_cases hw : limit < 256
    · simp only [Address.commonBits, if_pos hl, dif_pos hw]
      exact hR.refill h r _ _
    · simp only [Address.commonBits, if_pos hl, dif_neg hw]
      exact ⟨rfl, h⟩
  · by_cases hw : r.proximity o < 256
    · simp only [Address.commonBits, if_neg hl, dif_pos hw]
      exact hR.refill h r _ _
    · simp only [Address.commonBits, if_neg hl, dif_neg hw]
      exact ⟨rfl, h⟩

end Bisimulation

namespace Script

/-- A script of no bytes beside one of a single zero, both at the same place. -/
def EmptyBesideZero (s t : Script) : Prop := s.bytes = [] ∧ t.bytes = [0] ∧ s.cursor = t.cursor

theorem byteAt_nil_eq_zero : byteAt [] = byteAt [0] := by
  funext i
  simp [byteAt, Nat.mod_one]

theorem emptyBesideZero_bisimulation : Bisimulation EmptyBesideZero where
  nextByte := by
    rintro s t ⟨hs, ht, hcursor⟩
    rw [nextByte_eq, nextByte_eq, hs, ht, hcursor]
    exact ⟨congrFun byteAt_nil_eq_zero t.cursor, rfl, rfl, rfl⟩
  fill := by
    rintro s t ⟨hs, ht, hcursor⟩ n
    rw [fill_eq, fill_eq, hs, ht, hcursor, byteAt_nil_eq_zero]
    exact ⟨rfl, rfl, rfl, rfl⟩

end Script
end Kademlia
