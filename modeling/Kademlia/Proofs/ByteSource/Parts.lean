import Kademlia.Proofs.ByteSource.Words

/-!
When it can be seen that a draw from a stream of words was cut into parts. A word is never shared between two draws, so that
a cut is hidden only where a word ends, and bytes drawn one by one are those of a single draw only if there is just one.
-/
namespace Kademlia

def ByteSource.fillInParts {σ : Type} [ByteSource σ] (m n : Nat) (s : σ) : List UInt8 × σ :=
  let first := ByteSource.fill m s
  let rest := ByteSource.fill n first.2
  (first.1 ++ rest.1, rest.2)

namespace WordStream

theorem byteFrom_advance (s : WordStream) (k i : Nat) : (s.advance k).byteFrom i = s.byteFrom (4 * k + i) := by
  have hdiv : s.position + (4 * k + i) / 4 = s.position + k + i / 4 := by omega
  have hmod : (4 * k + i) % 4 = i % 4 := by omega
  simp [byteFrom, advance, hdiv, hmod]

theorem fillInParts_eq_fill {m : Nat} (hm : 4 ∣ m) (n : Nat) (s : WordStream) :
    ByteSource.fillInParts m n s = ByteSource.fill (m + n) s := by
  obtain ⟨k, rfl⟩ := hm
  have hfirst : (4 * k + 3) / 4 = k := by omega
  have hwords : (4 * k + n + 3) / 4 = k + (n + 3) / 4 := by omega
  have hbytes : (List.range n).map (s.advance k).byteFrom = ((List.range n).map (4 * k + ·)).map s.byteFrom := by
    simp [byteFrom_advance]
  simp only [ByteSource.fillInParts, ByteSource.fill, hfirst, hwords, hbytes, advance_advance, List.range_add,
    List.map_append]

/-- The first byte behind a cut is the lowest one of a word. -/
theorem getElem?_fillInParts (m : Nat) {n : Nat} (hn : 0 < n) (s : WordStream) :
    (ByteSource.fillInParts m n s).1[m]? = some (byteOf (s.word (s.position + (m + 3) / 4)) 0) := by
  have hlen : (ByteSource.fill m s).1.length = m := ByteSource.length_fill m s
  rw [ByteSource.fillInParts, List.getElem?_append_right (by omega), hlen, Nat.sub_self, getElem?_fill hn, fill_source]
  rfl

/-- A stream in which a cut after `m` bytes shows, if it does not fall between two words: only the word that is cut has
bytes other than zero, and the rest of it is dropped. -/
def cutMarked (m : Nat) : WordStream := ⟨fun i => if i = m / 4 then 0xffffffff else 0, 0⟩

theorem byteOf_ones : ∀ i < 4, byteOf 0xffffffff i = 0xff := by
  decide

theorem fillInParts_cutMarked {m n : Nat} (hm : ¬4 ∣ m) (hn : 0 < n) :
    (ByteSource.fillInParts m n (cutMarked m)).1 ≠ (ByteSource.fill (m + n) (cutMarked m)).1 := by
  intro h
  have hcut : (m + 3) / 4 ≠ m / 4 := by omega
  have hparts : (ByteSource.fillInParts m n (cutMarked m)).1[m]? = some 0 := by
    rw [getElem?_fillInParts m hn]
    simp [cutMarked, hcut, byteOf]
  have hwhole : (ByteSource.fill (m + n) (cutMarked m)).1[m]? = some 0xff := by
    rw [getElem?_fill (by omega)]
    simp [cutMarked, byteOf_ones _ (Nat.mod_lt m (by decide))]
  rw [h, hwhole] at hparts
  simp at hparts

theorem drawEach_source (n : Nat) (s : WordStream) : (drawEach ByteSource.nextByte n s).2 = s.advance n := by
  induction n generalizing s with
  | zero => rfl
  | succ n ih =>
    rw [drawEach, ih, Nat.add_comm n 1, ← advance_advance]
    rfl

theorem advance_inj {s : WordStream} {m n : Nat} : s.advance m = s.advance n ↔ m = n := by
  simp [advance]

/-- A cut is hidden from every stream exactly between two words, and a draw is the same as that many bytes drawn one after
the other exactly if there is at most one. -/
theorem cuts_hidden_between_words :
    (∀ m n, 0 < n →
      ((∀ s : WordStream, ByteSource.fillInParts m n s = ByteSource.fill (m + n) s) ↔ 4 ∣ m)) ∧
      ∀ n, (∀ s : WordStream, ByteSource.fill n s = drawEach ByteSource.nextByte n s) ↔ n ≤ 1 := by
  constructor
  · intro m n hn
    constructor
    · intro h
      by_contra hm
      exact fillInParts_cutMarked hm hn (congrArg Prod.fst (h (cutMarked m)))
    · intro hm s
      exact fillInParts_eq_fill hm n s
  · intro n
    constructor
    · intro h
      have hsource := congrArg Prod.snd (h ⟨fun _ => 0, 0⟩)
      rw [fill_source, drawEach_source, advance_inj] at hsource
      omega
    · intro hn s
      cases n with
      | zero => rfl
      | succ n =>
        have hone : n = 0 := by omega
        subst hone
        rfl

/-- Three bytes behind five: the sixth byte of the draw comes out of another word. Behind eight nothing shows. -/
theorem cut_shows_after_five :
    0 < 3 ∧ (∃ s : WordStream, ByteSource.fillInParts 5 3 s ≠ ByteSource.fill 8 s) ∧
      (∀ s : WordStream, ByteSource.fillInParts 8 3 s = ByteSource.fill 11 s) ∧
      ∃ s : WordStream, ByteSource.fill 2 s ≠ drawEach ByteSource.nextByte 2 s := by
  obtain ⟨hparts, hsingle⟩ := cuts_hidden_between_words
  have hfive : ¬4 ∣ 5 := by decide
  have hfour : ¬2 ≤ 1 := by decide
  exact ⟨by decide, not_forall.mp (mt (hparts 5 3 (by decide)).mp hfive), (hparts 8 3 (by decide)).mpr (by decide),
    not_forall.mp (mt (hsingle 2).mp hfour)⟩

end WordStream
end Kademlia
