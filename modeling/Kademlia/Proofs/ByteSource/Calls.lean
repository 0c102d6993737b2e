import Kademlia.Proofs.ByteSource.Bisimulation
import Kademlia.Proofs.ByteSource.Parts
import Kademlia.Proofs.ByteSource.Recording

/-!
Sequences of calls to a source. Where filling is drawing byte by byte, the portions in which bytes are asked for do not show
in the bytes, and a sequence of calls is one call for as many. Sources that cannot be told apart answer all calls alike.
-/
namespace Kademlia
variable {σ τ : Type} [ByteSource σ] [ByteSource τ]

namespace Call

def size : Call → Nat
  | nextByte => 1
  | fill n => n

def answer (c : Call) (s : σ) : List UInt8 × σ :=
  match c with
  | nextByte =>
    let (b, s) := ByteSource.nextByte s
    ([b], s)
  | fill n => ByteSource.fill n s

def answers : List Call → σ → List (List UInt8) × σ
  | [], s => ([], s)
  | c :: cs, s =>
    let (bs, s) := c.answer s
    let (bss, s) := answers cs s
    (bs :: bss, s)

def total (cs : List Call) : Nat := (cs.map size).sum

theorem length_answer (c : Call) (s : σ) : (c.answer s).1.length = c.size := by
  cases c with
  | nextByte => rfl
  | fill n => exact ByteSource.length_fill n s

theorem map_length_answers (cs : List Call) (s : σ) : (answers cs s).1.map List.length = cs.map size := by
  induction cs generalizing s with
  | nil => rfl
  | cons c cs ih => simp only [answers, List.map_cons, length_answer, ih]

end Call

/-- Filling hands out the bytes that would be drawn one after the other. -/
def ByteSource.Bytewise (σ : Type) [ByteSource σ] : Prop := ∀ n (s : σ), fill n s = drawEach nextByte n s

namespace ByteSource.Bytewise

theorem fill_add (hσ : Bytewise σ) (m n : Nat) (s : σ) : fillInParts m n s = fill (m + n) s := by
  rw [fillInParts, hσ m, hσ n, hσ (m + n), drawEach_add]

theorem answer_eq_fill (hσ : Bytewise σ) (c : Call) (s : σ) : c.answer s = fill c.size s := by
  cases c with
  | nextByte =>
    rw [Call.size, hσ 1]
    rfl
  | fill n => rfl

/-- Any sequence of calls is one call for all their bytes. -/
theorem answers_eq_fill (hσ : Bytewise σ) (cs : List Call) (s : σ) :
    (Call.answers cs s).1.flatten = (fill (Call.total cs) s).1 ∧
      (Call.answers cs s).2 = (fill (Call.total cs) s).2 := by
  induction cs generalizing s with
  | nil =>
    rw [Call.total, List.map_nil, List.sum_nil, hσ 0]
    exact ⟨rfl, rfl⟩
  | cons c cs ih =>
    obtain ⟨hbytes, hsource⟩ := ih (fill c.size s).2
    have htotal : Call.total (c :: cs) = c.size + Call.total cs := List.sum_cons
    rw [htotal, ← hσ.fill_add]
    simp only [Call.answers, hσ.answer_eq_fill c, List.flatten_cons, hbytes, hsource]
    exact ⟨rfl, rfl⟩

end ByteSource.Bytewise

theorem Script.bytewise : ByteSource.Bytewise Script := fun _ _ => rfl

namespace Bisimulation
variable {R : σ → τ → Prop} {s : σ} {t : τ}

theorem answer (hR : Bisimulation R) (h : R s t) (c : Call) : Agree R (c.answer s) (c.answer t) := by
  cases c with
  | nextByte =>
    obtain ⟨hbyte, hnext⟩ := hR.nextByte h
    exact ⟨congrArg (fun b => [b]) hbyte, hnext⟩
  | fill n => exact hR.fill h n

theorem answers (hR : Bisimulation R) (h : R s t) (cs : List Call) : Agree R (Call.answers cs s) (Call.answers cs t) := by
  induction cs generalizing s t with
  | nil => exact ⟨rfl, h⟩
  | cons c cs ih =>
    obtain ⟨hbytes, hnext⟩ := hR.answer h c
    obtain ⟨hrest, hlast⟩ := ih hnext
    exact ⟨congrArg₂ List.cons hbytes hrest, hlast⟩

end Bisimulation
end Kademlia
