import Kademlia.Proofs.ByteSource.Words

/-!
Generation from a stream of words, to the word. For each address it is known which byte of which word stands where, and how
many words are gone afterwards, so that in any sequence of requests the place at which one of them starts to read is known
from the requests before it.
-/
namespace Kademlia
variable {σ : Type}

namespace WordStream

/-- Of an address whose bits from `free` on are drawn, those up to the end of byte `pos` are bits of the lowest byte of the
next word, and all bytes behind are those of the words after this one, the lowest byte of a word first. -/
structure Fills (s : WordStream) (pos free : Nat) (a : Address) : Prop where
  boundary : ∀ i, free ≤ i → i < 8 * (pos + 1) → a.bit i = (s.word s.position).toNat.testBit (7 - i % 8)
  behind : ∀ k < 31 - pos, a.bytes[pos + 1 + k]?.map UInt8.toNat =
    some ((s.word (s.position + (1 + k / 4))).toNat / 256 ^ (k % 4) % 256)

theorem Fills.of_drawnFrom {s : WordStream} {pos free : Nat} {a : Address} (hfree : 8 * pos ≤ free)
    (hbit : ∀ i, free ≤ i → i < 8 * (pos + 1) → a.bit i = bitOf (drawnFrom pos s) (i - 8 * pos))
    (hbehind : ∀ k, a.bytes[pos + 1 + k]? = (drawnFrom pos s)[k + 1]?) : s.Fills pos free a where
  boundary := by
    intro i hi hend
    have hplace : i % 8 = i - 8 * pos := by omega
    rw [hbit i hi hend, bitOf_drawnFrom_boundary pos s (by omega), hplace]
  behind := by
    intro k hk
    rw [hbehind, getElem?_drawnFrom_behind hk, Option.map_some, toNat_byteOf _ (Nat.mod_lt k (by decide))]

end WordStream

namespace Address
variable {r o : Address} {limit : Nat}

theorem fills_randomAt (r : Address) {p : Nat} (hp : p < 256) (s : WordStream) :
    s.Fills (p / 8) (p + 1) (r.randomAt p s).1 := by
  apply WordStream.Fills.of_drawnFrom (by omega)
  · intro i hi _
    rw [bit_randomAt r hp, if_neg (by omega), if_neg (by omega)]
  · intro k
    exact getElem?_randomAt_behind r hp s k

theorem fills_commonBits (hw : min limit (r.proximity o) < 256) (s : WordStream) :
    s.Fills (min limit (r.proximity o) / 8) (min limit (r.proximity o + 1)) (r.commonBits o limit s).1 := by
  apply WordStream.Fills.of_drawnFrom (by omega)
  · intro i hi hend
    rw [bit_commonBits r o limit s (by omega), if_neg (by omega)]
  · intro k
    exact getElem?_commonBits_behind hw s k

/-- The number of words for an address whose bit `n` stands in the first byte that is not kept: one for this byte, and a
fourth of the bytes behind it, rounded up. -/
def wordsFrom (n : Nat) : Nat := if n < 256 then 1 + (31 - n / 8 + 3) / 4 else 0

theorem randomAt_words (r : Address) (p : Nat) (s : WordStream) : (r.randomAt p s).2 = s.advance (wordsFrom p) := by
  by_cases hp : p < 256
  · rw [randomAt_source r hp, WordStream.sourceAfter_words, wordsFrom, if_pos hp]
  · rw [randomAt_of_le r (Nat.not_lt.mp hp), wordsFrom, if_neg hp]
    rfl

theorem commonBits_words (r o : Address) (limit : Nat) (s : WordStream) :
    (r.commonBits o limit s).2 = s.advance (wordsFrom (min limit (r.proximity o))) := by
  by_cases hw : min limit (r.proximity o) < 256
  · rw [commonBits_source hw, WordStream.sourceAfter_words, wordsFrom, if_pos hw]
  · rw [commonBits_eq_self (Nat.not_lt.mp hw), wordsFrom, if_neg hw]
    rfl

end Address

/-- A request for one address. -/
inductive Request where
  | draw (r : Address) (wanted : Option Nat)
  | commonBits (r o : Address) (limit : Nat)

namespace Request

def answer [ByteSource σ] (q : Request) (s : σ) : Address × σ :=
  match q with
  | .draw r wanted => r.draw wanted s
  | .commonBits r o limit => r.commonBits o limit s

/-- The answers to requests that are made one after the other of the same source, and what is left of it. -/
def answers [ByteSource σ] : List Request → σ → List Address × σ
  | [], s => ([], s)
  | q :: qs, s =>
    let (a, s) := q.answer s
    let (as, s) := answers qs s
    (a :: as, s)

/-- The number of words that a request takes from a stream. -/
def words : Request → Nat
  | .draw _ none => 8
  | .draw _ (some p) => Address.wordsFrom p
  | .commonBits r o limit => Address.wordsFrom (min limit (r.proximity o))

theorem answer_source (q : Request) (s : WordStream) : (q.answer s).2 = s.advance q.words := by
  cases q with
  | draw r wanted =>
    cases wanted with
    | none => exact WordStream.fill_source 32 s
    | some p => exact r.randomAt_words p s
  | commonBits r o limit => exact r.commonBits_words o limit s

theorem answers_source (qs : List Request) (s : WordStream) : (answers qs s).2 = s.advance (qs.map words).sum := by
  induction qs generalizing s with
  | nil => rfl
  | cons q qs ih => simp only [answers, ih, answer_source, WordStream.advance_advance, List.map_cons, List.sum_cons]

/-- A request is answered from the word that the requests before it have not taken. -/
theorem getElem?_answers (qs : List Request) (s : WordStream) (i : Nat) :
    (answers qs s).1[i]? = qs[i]?.map fun q => (q.answer (s.advance ((qs.take i).map words).sum)).1 := by
  induction qs generalizing s i with
  | nil => rfl
  | cons q qs ih =>
    cases i with
    | zero => rfl
    | succ i =>
      simp only [answers, List.getElem?_cons_succ, ih, answer_source, WordStream.advance_advance, List.take_succ_cons,
        List.map_cons, List.sum_cons]

end Request

namespace Address

/-- Every drawn byte of an address is a known byte of a known word of the stream, and a request is answered from the word to
which the costs of the requests before it add up. -/
theorem generation_accounts_for_words (s : WordStream) :
    (∀ (r : Address) (p : Nat), p < 256 →
        s.Fills (p / 8) (p + 1) (r.draw (some p) s).1 ∧
          (r.draw (some p) s).2 = s.advance (1 + (31 - p / 8 + 3) / 4)) ∧
      (∀ r : Address,
        (∀ k < 32, (r.draw none s).1.bytes[k]?.map UInt8.toNat =
          some ((s.word (s.position + k / 4)).toNat / 256 ^ (k % 4) % 256)) ∧
          (r.draw none s).2 = s.advance 8) ∧
      (∀ (r : Address) (p : Nat), 256 ≤ p → (r.draw (some p) s).2 = s) ∧
      (∀ (r o : Address) (limit : Nat), min limit (r.proximity o) < 256 →
        s.Fills (min limit (r.proximity o) / 8) (min limit (r.proximity o + 1)) (r.commonBits o limit s).1 ∧
          (r.commonBits o limit s).2 = s.advance (1 + (31 - min limit (r.proximity o) / 8 + 3) / 4)) ∧
      ∀ qs : List Request,
        (Request.answers qs s).2 = s.advance (qs.map Request.words).sum ∧
          ∀ i, (Request.answers qs s).1[i]? =
            qs[i]?.map fun q : Request => (q.answer (s.advance ((qs.take i).map Request.words).sum)).1 := by
  refine ⟨fun r p hp => ⟨r.fills_randomAt hp s, ?_⟩, fun r => ⟨fun k hk => ?_, WordStream.fill_source 32 s⟩,
    fun r p hp => ?_, fun r o limit hw => ⟨fills_commonBits hw s, ?_⟩,
    fun qs => ⟨Request.answers_source qs s, Request.getElem?_answers qs s⟩⟩
  · rw [draw, randomAt_words, wordsFrom, if_pos hp]
  · have hbyte := WordStream.getElem?_fill hk s
    rw [draw, random, hbyte, Option.map_some, WordStream.toNat_byteOf _ (Nat.mod_lt k (by decide))]
  · rw [draw, randomAt_of_le r hp]
  · rw [commonBits_words, wordsFrom, if_pos hw]

/-- The second byte ends with bits of the lowest byte of a word, and the third is the lowest byte of the word after it. The
last of three requests starts after 8 and 9 words. -/
theorem cycling_generation_accounts_for_words :
    let s := WordStream.cycling [0x04030201, 0x08070605]
    let r := ofLeading [0x12, 0x34]
    let o := r.flipBit 13
    let x := (r.draw (some 13) s).1
    let qs := [.draw r none, .draw r (some 13), .commonBits r o 13]
    x.bit 15 = true ∧ x.bytes[2]?.map UInt8.toNat = some 5 ∧ (r.draw (some 13) s).2 = s.advance 9 ∧
      (r.draw (some 300) s).2 = s ∧
      (r.commonBits o 13 s).1.bit 13 = false ∧ (r.commonBits o 13 s).2 = s.advance 9 ∧
      (Request.answers qs s).1[2]? = some (r.commonBits o 13 (s.advance 17)).1 := by
  intro s r o x qs
  obtain ⟨hdraw, -, hfull, hcommon, hrun⟩ := generation_accounts_for_words s
  have hprox : r.proximity o = 13 := by decide +kernel
  have hwidth : min 13 (r.proximity o) < 256 := by omega
  have h15 : (s.word s.position).toNat.testBit (7 - 15 % 8) = true := by decide
  have h13 : (s.word s.position).toNat.testBit (7 - 13 % 8) = false := by decide
  have hlowest : (s.word (s.position + 1)).toNat / 256 ^ 0 % 256 = 5 := by decide
  have hbefore : ((qs.take 2).map Request.words).sum = 17 := by decide +kernel
  obtain ⟨hfills, hsource⟩ := hdraw r 13 (by decide)
  obtain ⟨hfills', hsource'⟩ := hcommon r o 13 hwidth
  rw [hprox] at hfills' hsource'
  refine ⟨(hfills.boundary 15 (by decide) (by decide)).trans h15,
    (hfills.behind 0 (by decide)).trans (congrArg some hlowest), hsource, hfull r 300 (by decide),
    (hfills'.boundary 13 (by decide) (by decide)).trans h13, hsource', ?_⟩
  rw [← hbefore]
  exact (hrun qs).2 2

end Address
end Kademlia
