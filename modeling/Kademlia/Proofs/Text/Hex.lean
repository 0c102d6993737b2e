import Kademlia.Text.Basic
import Kademlia.Text.Hex
import Mathlib.Order.Bounds.Defs

/-!
Hexadecimal text as numbers below 16, two for each byte. Encoding writes their digits; decoding takes just those texts
that consist of digits, and of any other it names the first byte that is none.
-/
namespace Kademlia.Text

/-- What holds of all characters up to a code point holds of a given one. -/
theorem forall_char_lt {n : Nat} {p : Char → Prop} (h : ∀ i < n, p (Char.ofNat i)) {c : Char} (hc : c.toNat < n) :
    p c := by
  have hp := h c.toNat hc
  rwa [Char.ofNat_toNat] at hp

theorem forall_mem_of_all {l : List Char} {p : Char → Prop} [DecidablePred p] (h : l.all (fun c => p c) = true) :
    ∀ c ∈ l, p c := by
  simpa using h

/-- A run of characters with a property ends where one without it follows. -/
theorem takeWhile_append_of_head {p : Char → Bool} {cs rest : List Char} (hcs : ∀ c ∈ cs, p c = true)
    (hrest : ∀ c ∈ rest.head?, p c = false) : (cs ++ rest).takeWhile p = cs ∧ (cs ++ rest).dropWhile p = rest := by
  rw [List.takeWhile_append_of_pos hcs, List.dropWhile_append_of_pos hcs]
  cases rest with
  | nil => exact ⟨List.append_nil cs, rfl⟩
  | cons c rest => simp [hrest c rfl]

theorem forall_byte {p : UInt8 → Prop} (h : ∀ i < 256, p (UInt8.ofNat i)) (b : UInt8) : p b := by
  have hp := h b.toNat b.toNat_lt
  rwa [UInt8.ofNat_toNat] at hp

theorem not_le_of_toNat_lt {c d : Char} (h : d.toNat < c.toNat) : ¬c ≤ d :=
  fun hle => Nat.not_le.mpr h hle

theorem hexValue?_of_le {c : Char} (hc : 128 ≤ c.toNat) : hexValue? c = none := by
  have h9 : ¬c ≤ '9' := not_le_of_toNat_lt (Nat.lt_of_lt_of_le (by decide) hc)
  have hf : ¬c ≤ 'f' := not_le_of_toNat_lt (Nat.lt_of_lt_of_le (by decide) hc)
  have hF : ¬c ≤ 'F' := not_le_of_toNat_lt (Nat.lt_of_lt_of_le (by decide) hc)
  have hdigit : isDigit c = false := by simp [isDigit, h9]
  rw [hexValue?, hdigit, if_neg Bool.false_ne_true, if_neg fun h => hf h.2, if_neg fun h => hF h.2]

theorem toNat_lt_of_hexValue? {c : Char} (h : (hexValue? c).isSome) : c.toNat < 128 := by
  apply Nat.lt_of_not_le
  intro hc
  rw [hexValue?_of_le hc] at h
  exact Bool.false_ne_true h

theorem hexValue?_lt {c : Char} {n : Nat} (h : hexValue? c = some n) : n < 16 := by
  have hascii : ∀ i < 128, ∀ m ∈ hexValue? (Char.ofNat i), m < 16 := by decide +kernel
  exact forall_char_lt (p := fun c => ∀ m ∈ hexValue? c, m < 16) hascii (toNat_lt_of_hexValue? (h ▸ rfl)) n h

theorem lt_of_map_hexValue? {ds : List Char} {ns : List Nat} (h : ds.map hexValue? = ns.map some) :
    ∀ n ∈ ns, n < 16 := by
  intro n hn
  have hmem : some n ∈ ds.map hexValue? := h ▸ List.mem_map_of_mem hn
  obtain ⟨c, -, hc⟩ := List.mem_map.mp hmem
  exact hexValue?_lt hc

theorem hexValue?_toLower (c : Char) : hexValue? c.toLower = hexValue? c := by
  by_cases hc : c.toNat < 128
  · exact forall_char_lt (p := fun c => hexValue? c.toLower = hexValue? c) (by decide +kernel) hc
  · have hZ : ¬c ≤ 'Z' := not_le_of_toNat_lt (Nat.lt_of_lt_of_le (by decide) (Nat.not_lt.mp hc))
    have hself : c.toLower = c := dif_neg fun h => hZ h.2
    rw [hself]

namespace Hex

theorem hexValue?_digit : ∀ n < 16, hexValue? (digit n) = some n := by
  decide

theorem value?_eq_none_iff {b : UInt8} : value? b = none ↔ hexValue? (Char.ofUInt8 b) = none := by
  rw [value?, Option.map_eq_none_iff]

theorem values_of_map_eq {cs vs : List UInt8} (h : cs.map value? = vs.map some) (index : Nat) :
    values index cs = .ok vs := by
  induction cs generalizing index vs with
  | nil =>
    cases vs with
    | nil => rfl
    | cons v vs => cases h
  | cons c cs ih =>
    cases vs with
    | nil => cases h
    | cons v vs =>
      obtain ⟨hc, hcs⟩ := List.cons.inj h
      simp only [values, hc, ih hcs]

theorem map_eq_of_values {index : Nat} {cs vs : List UInt8} (h : values index cs = .ok vs) :
    cs.map value? = vs.map some := by
  induction cs generalizing index vs with
  | nil => cases h; rfl
  | cons c cs ih =>
    rw [values] at h
    split at h
    · cases h
    · next v hc =>
      split at h
      · next ws hcs =>
        cases h
        rw [List.map_cons, List.map_cons, hc, ih hcs]
      · cases h

/-- The first byte that is no digit is reported, at the place where it stands. -/
theorem isLeast_of_values_eq_error {index : Nat} {cs : List UInt8} {e : BadDigit} (h : values index cs = .error e) :
    ∃ p, e.index = index + p ∧ cs[p]? = some e.byte ∧ IsLeast {i | ∃ c, cs[i]? = some c ∧ value? c = none} p := by
  induction cs generalizing index with
  | nil => cases h
  | cons c cs ih =>
    rw [values] at h
    split at h
    · next hc =>
      cases h
      exact ⟨0, rfl, rfl, ⟨c, rfl, hc⟩, fun i _ => Nat.zero_le i⟩
    · next v hc =>
      split at h
      · cases h
      · next f hcs =>
        cases h
        obtain ⟨p, hindex, hbyte, hbad, hleast⟩ := ih hcs
        refine ⟨p + 1, by omega, hbyte, hbad, ?_⟩
        rintro i ⟨d, hd, hnone⟩
        cases i with
        | zero =>
          -- the first byte is a digit
          cases hd
          rw [hc] at hnone
          cases hnone
        | succ i => exact Nat.succ_le_succ (hleast ⟨d, hd, hnone⟩)

def halves (bs : List UInt8) : List Nat := bs.flatMap fun b => [b.toNat / 16, b.toNat % 16]

theorem halves_cons (b : UInt8) (bs : List UInt8) :
    halves (b :: bs) = b.toNat / 16 :: b.toNat % 16 :: halves bs := rfl

theorem length_halves (bs : List UInt8) : (halves bs).length = 2 * bs.length := by
  induction bs with
  | nil => rfl
  | cons b bs ih => rw [halves_cons, List.length_cons, List.length_cons, ih, List.length_cons]; omega

theorem getElem?_halves (bs : List UInt8) (i : Nat) :
    (halves bs)[2 * i]? = bs[i]?.map (fun b => b.toNat / 16) ∧
      (halves bs)[2 * i + 1]? = bs[i]?.map (fun b => b.toNat % 16) := by
  induction bs generalizing i with
  | nil => simp [halves]
  | cons b bs ih =>
    cases i with
    | zero => exact ⟨rfl, rfl⟩
    | succ i => exact ih i

theorem encode_eq_map_halves (bs : List UInt8) : encode bs = (halves bs).map digit := by
  induction bs with
  | nil => rfl
  | cons b bs ih => rw [encode, ih, halves_cons, List.map_cons, List.map_cons]

theorem map_hexValue?_encode (bs : List UInt8) : (encode bs).map hexValue? = (halves bs).map some := by
  induction bs with
  | nil => rfl
  | cons b bs ih =>
    have hb := b.toNat_lt
    rw [encode, List.map_cons, List.map_cons, hexValue?_digit _ (by omega), hexValue?_digit _ (by omega), ih]
    rfl

theorem map_toLower_encode (bs : List UInt8) : (encode bs).map Char.toLower = encode bs := by
  have hdigit : ∀ n < 16, (digit n).toLower = digit n := by decide
  induction bs with
  | nil => rfl
  | cons b bs ih =>
    have hb := b.toNat_lt
    rw [encode, List.map_cons, List.map_cons, hdigit _ (by omega), hdigit _ (by omega), ih]

theorem join_halves (b : UInt8) : 16 * UInt8.ofNat (b.toNat / 16) + UInt8.ofNat (b.toNat % 16) = b :=
  forall_byte (p := fun b => 16 * UInt8.ofNat (b.toNat / 16) + UInt8.ofNat (b.toNat % 16) = b) (by decide +kernel) b

theorem pairs_halves (bs : List UInt8) : pairs ((halves bs).map UInt8.ofNat) = bs := by
  induction bs with
  | nil => rfl
  | cons b bs ih => rw [halves_cons, List.map_cons, List.map_cons, pairs, ih, join_halves]

theorem halves_join : ∀ h < 16, ∀ l < 16, (16 * UInt8.ofNat h + UInt8.ofNat l).toNat / 16 = h ∧
    (16 * UInt8.ofNat h + UInt8.ofNat l).toNat % 16 = l := by
  decide +kernel

/-- Joining values below 16 to bytes loses nothing. -/
theorem halves_pairs : (ns : List Nat) → (∀ n ∈ ns, n < 16) → ns.length % 2 = 0 →
    halves (pairs (ns.map UInt8.ofNat)) = ns
  | [], _, _ => rfl
  | [_], _, h => by cases h
  | h :: l :: ns, hlt, heven => by
    have hh : h < 16 := hlt h (by simp)
    have hl : l < 16 := hlt l (by simp)
    have hns : halves (pairs (ns.map UInt8.ofNat)) = ns :=
      halves_pairs ns (fun n hn => hlt n (by simp [hn])) (by simp only [List.length_cons] at heven; omega)
    rw [List.map_cons, List.map_cons, pairs, halves_cons, hns, (halves_join h hh l hl).1, (halves_join h hh l hl).2]

end Hex
end Kademlia.Text
