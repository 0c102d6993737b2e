import Kademlia.Address.Text
import Kademlia.Proofs.Text.Hex

/-!
Which texts spell an address, which address they spell, and what is said about the others. A text is read as the bytes
of its encoding, but only ASCII characters can be digits, and so the digits may be counted and valued as characters.
-/
namespace Kademlia.Text

theorem utf8EncodeChar_of_lt {c : Char} (hc : c.toNat < 128) : String.utf8EncodeChar c = [UInt8.ofNat c.toNat] :=
  if_pos (Nat.le_of_lt_succ hc)

/-- No byte of a character beyond ASCII is an ASCII code. -/
theorem le_of_mem_utf8EncodeChar {c : Char} (hc : 128 ≤ c.toNat) {b : UInt8} (hb : b ∈ String.utf8EncodeChar c) :
    128 ≤ b.toNat := by
  have hval : c.val.toNat = c.toNat := rfl
  simp only [String.utf8EncodeChar, hval, if_neg (Nat.not_le.mpr hc)] at hb
  split at hb
  · simp only [List.mem_cons, List.not_mem_nil, or_false] at hb
    rcases hb with rfl | rfl <;> (rw [UInt8.toNat_ofNat']; omega)
  · split at hb
    · simp only [List.mem_cons, List.not_mem_nil, or_false] at hb
      rcases hb with rfl | rfl | rfl <;> (rw [UInt8.toNat_ofNat']; omega)
    · simp only [List.mem_cons, List.not_mem_nil, or_false] at hb
      rcases hb with rfl | rfl | rfl | rfl <;> (rw [UInt8.toNat_ofNat']; omega)

theorem toNat_ofUInt8 (b : UInt8) : (Char.ofUInt8 b).toNat = b.toNat :=
  UInt8.toNat_toUInt32 b

theorem ofUInt8_ofNat_toNat {c : Char} (hc : c.toNat < 128) : Char.ofUInt8 (UInt8.ofNat c.toNat) = c := by
  apply Char.toNat_inj.mp
  rw [toNat_ofUInt8, UInt8.toNat_ofNat', Nat.mod_eq_of_lt (by omega)]

theorem value?_of_mem_utf8EncodeChar {c : Char} (hc : 128 ≤ c.toNat) {b : UInt8}
    (hb : b ∈ String.utf8EncodeChar c) : Hex.value? b = none := by
  rw [Hex.value?_eq_none_iff]
  apply hexValue?_of_le
  rw [toNat_ofUInt8]
  exact le_of_mem_utf8EncodeChar hc hb

end Kademlia.Text

namespace Kademlia.Address
open Text

theorem utf8_cons (c : Char) (cs : List Char) : utf8 (c :: cs) = String.utf8EncodeChar c ++ utf8 cs :=
  List.flatMap_cons ..

theorem utf8_cons_of_lt {c : Char} (hc : c.toNat < 128) (cs : List Char) :
    utf8 (c :: cs) = UInt8.ofNat c.toNat :: utf8 cs := by
  rw [utf8_cons, utf8EncodeChar_of_lt hc]
  rfl

theorem map_value?_utf8 {ds : List Char} {ns : List Nat} (h : ds.map hexValue? = ns.map some) :
    (utf8 ds).map Hex.value? = (ns.map UInt8.ofNat).map some := by
  induction ds generalizing ns with
  | nil =>
    cases ns with
    | nil => rfl
    | cons n ns => cases h
  | cons d ds ih =>
    cases ns with
    | nil => cases h
    | cons n ns =>
      obtain ⟨hd, hds⟩ := List.cons.inj h
      have hlt : d.toNat < 128 := toNat_lt_of_hexValue? (by rw [hd]; rfl)
      rw [utf8_cons_of_lt hlt, List.map_cons, Hex.value?, ofUInt8_ofNat_toNat hlt, hd, ih hds]
      rfl

/-- A text all of whose bytes are digits consists of digits, one for each byte. -/
theorem map_hexValue?_of_utf8 {ds : List Char} {vs : List UInt8} (h : (utf8 ds).map Hex.value? = vs.map some) :
    ∃ ns : List Nat, ds.map hexValue? = ns.map some ∧ vs = ns.map UInt8.ofNat := by
  induction ds generalizing vs with
  | nil =>
    cases vs with
    | nil => exact ⟨[], rfl, rfl⟩
    | cons v vs => cases h
  | cons d ds ih =>
    by_cases hd : d.toNat < 128
    · rw [utf8_cons_of_lt hd, List.map_cons, Hex.value?, ofUInt8_ofNat_toNat hd] at h
      cases vs with
      | nil => cases h
      | cons v vs =>
        obtain ⟨hv, hvs⟩ := List.cons.inj h
        obtain ⟨n, hn, rfl⟩ := Option.map_eq_some_iff.mp hv
        obtain ⟨ns, hns, rfl⟩ := ih hvs
        exact ⟨n :: ns, by rw [List.map_cons, List.map_cons, hn, hns], rfl⟩
    · -- the first byte of the character is no digit
      obtain ⟨b, bs, hbs⟩ := List.exists_cons_of_ne_nil (String.utf8EncodeChar_ne_nil (c := d))
      have hb : Hex.value? b = none := value?_of_mem_utf8EncodeChar (Nat.not_lt.mp hd) (by simp [hbs])
      rw [utf8_cons, hbs, List.cons_append, List.map_cons, hb] at h
      cases vs with
      | nil => cases h
      | cons v vs => cases h

theorem ofDigits_of_length_ne {ds : List UInt8} (h : ds.length ≠ 64) : ofDigits ds = .error (.wrongLength ds.length) :=
  dif_neg h

theorem ofDigits_of_values_error {ds : List UInt8} {e : Hex.BadDigit} (hlen : ds.length = 64)
    (h : Hex.values 0 ds = .error e) : ofDigits ds = .error (.badDigit e.byte e.index) := by
  rw [ofDigits, dif_pos hlen]
  split
  · next hv =>
    rw [h] at hv
    cases hv
  · next hv =>
    rw [h] at hv
    cases hv
    rfl

theorem ofDigits_eq_ok_iff {ds : List UInt8} {a : Address} :
    ofDigits ds = .ok a ↔ ds.length = 64 ∧ ∃ vs, Hex.values 0 ds = .ok vs ∧ Hex.pairs vs = a.bytes := by
  by_cases hlen : ds.length = 64
  · rw [ofDigits, dif_pos hlen]
    split
    · next vs hv =>
      simp only [Except.ok.injEq, hv, hlen, true_and, exists_eq_left']
      exact ⟨congrArg bytes, fun h => ext_bytes h⟩
    · next hv =>
      simp [hv]
  · simp [ofDigits_of_length_ne hlen, hlen]

theorem parse_eq_ok_iff_ofDigits {s : String} {a : Address} :
    parse s = .ok a ↔ ofDigits (utf8 (dropMark s.toList)) = .ok a := by
  rw [parse]
  split
  · next h => rw [h, Except.ok.injEq, Except.ok.injEq]
  · next h => simp [h]

/-- A text spells an address when the values of its digits are the halves of the bytes. -/
theorem parse_eq_ok_iff {s : String} {a : Address} :
    parse s = .ok a ↔ (dropMark s.toList).map hexValue? = (Hex.halves a.bytes).map some := by
  rw [parse_eq_ok_iff_ofDigits, ofDigits_eq_ok_iff]
  constructor
  · rintro ⟨hlen, vs, hvs, hpairs⟩
    obtain ⟨ns, hns, rfl⟩ := map_hexValue?_of_utf8 (Hex.map_eq_of_values hvs)
    have heven : ns.length % 2 = 0 := by
      have hcount := Hex.length_values hvs
      rw [List.length_map, hlen] at hcount
      omega
    rw [← hpairs, Hex.halves_pairs ns (lt_of_map_hexValue? hns) heven, hns]
  · intro h
    have hvalues := map_value?_utf8 h
    have hlen := congrArg List.length hvalues
    rw [List.length_map, List.length_map, List.length_map, Hex.length_halves, a.length_bytes] at hlen
    exact ⟨hlen, _, Hex.values_of_map_eq hvalues 0, Hex.pairs_halves a.bytes⟩

/-- The spellings of an address: its digits in any mixture of cases, with or without a mark. -/
def Spells (s : String) (a : Address) : Prop :=
  ∃ mark ∈ [[], ['0', 'x'], ['0', 'X']], ∃ ds, s.toList = mark ++ ds ∧ ds.map Char.toLower = a.hexChars

theorem spells_toHex (a : Address) : Spells a.toHex a :=
  ⟨[], by simp, a.hexChars, String.toList_ofList, Hex.map_toLower_encode a.bytes⟩

/-- The digits of an address have the same values in every mixture of cases. -/
theorem map_hexValue?_of_map_toLower {ds : List Char} {a : Address} (h : ds.map Char.toLower = a.hexChars) :
    ds.map hexValue? = (Hex.halves a.bytes).map some := by
  calc
    ds.map hexValue? = (ds.map Char.toLower).map hexValue? := by
      rw [List.map_map]
      exact List.map_congr_left fun c _ => (hexValue?_toLower c).symm
    _ = (Hex.halves a.bytes).map some := by rw [h, hexChars, Hex.map_hexValue?_encode]

theorem parse_of_spells {s : String} {a : Address} (h : Spells s a) : parse s = .ok a := by
  obtain ⟨mark, hmark, ds, hs, hlower⟩ := h
  have hdigits : ds.map hexValue? = (Hex.halves a.bytes).map some := map_hexValue?_of_map_toLower hlower
  -- a second digit that is none would be a mark
  have hunmarked : dropMark ds = ds := by
    have hnone : none ∉ ds.map hexValue? := by simp [hdigits]
    have hx : hexValue? 'x' = none := by decide
    have hX : hexValue? 'X' = none := by decide
    unfold dropMark
    split
    · exact absurd (by simp [hx]) hnone
    · exact absurd (by simp [hX]) hnone
    · rfl
  rw [parse_eq_ok_iff, hs]
  simp only [List.mem_cons, List.not_mem_nil, or_false] at hmark
  rcases hmark with rfl | rfl | rfl
  · rw [List.nil_append, hunmarked, hdigits]
  · exact hdigits
  · exact hdigits

def IsDigits (ds : List Char) : Prop := ds.length = 64 ∧ ∀ c ∈ ds, (hexValue? c).isSome

theorem exists_parse_iff {s : String} : (∃ a, parse s = .ok a) ↔ IsDigits (dropMark s.toList) := by
  simp only [parse_eq_ok_iff]
  generalize dropMark s.toList = ds
  constructor
  · rintro ⟨a, h⟩
    have hlen := congrArg List.length h
    rw [List.length_map, List.length_map, Hex.length_halves, a.length_bytes] at hlen
    refine ⟨hlen, fun c hc => ?_⟩
    have hmem : hexValue? c ∈ (Hex.halves a.bytes).map some := h ▸ List.mem_map_of_mem hc
    obtain ⟨n, -, hn⟩ := List.mem_map.mp hmem
    rw [← hn]
    rfl
  · rintro ⟨hlen, hall⟩
    let ns := ds.map fun c => (hexValue? c).getD 0
    have hns : ds.map hexValue? = ns.map some := by
      rw [List.map_map]
      refine List.map_congr_left fun c hc => ?_
      obtain ⟨n, hn⟩ := Option.isSome_iff_exists.mp (hall c hc)
      simp [hn]
    have hlen' : ns.length = 64 := (List.length_map ..).trans hlen
    have hbytes : (Hex.pairs (ns.map UInt8.ofNat)).length = 32 := by
      rw [Hex.length_pairs, List.length_map, hlen']
    refine ⟨⟨_, hbytes⟩, ?_⟩
    rw [Hex.halves_pairs ns (lt_of_map_hexValue? hns) (by rw [hlen']), hns]

/-- The digits of a text that spells an address are those of its bytes, two for each. -/
theorem byte_of_parse {s : String} {a : Address} (h : parse s = .ok a) {i : Nat} (hi : i < 32) :
    ∃ upper lower, (dropMark s.toList)[2 * i]?.bind hexValue? = some upper ∧
      (dropMark s.toList)[2 * i + 1]?.bind hexValue? = some lower ∧
      a.bytes[i]?.map UInt8.toNat = some (16 * upper + lower) := by
  have hdigits := parse_eq_ok_iff.mp h
  have hget : ∀ j, ((dropMark s.toList)[j]?).map hexValue? = (Hex.halves a.bytes)[j]?.map some := fun j => by
    rw [← List.getElem?_map, hdigits, List.getElem?_map]
  have hlt : i < a.bytes.length := a.length_bytes ▸ hi
  obtain ⟨hupper, hlower⟩ := Hex.getElem?_halves a.bytes i
  rw [List.getElem?_eq_getElem hlt] at hupper hlower ⊢
  have hu := hget (2 * i)
  have hl := hget (2 * i + 1)
  rw [hupper, Option.map_some, Option.map_some, Option.map_eq_some_iff] at hu
  rw [hlower, Option.map_some, Option.map_some, Option.map_eq_some_iff] at hl
  obtain ⟨c, hc, hcv⟩ := hu
  obtain ⟨d, hd, hdv⟩ := hl
  refine ⟨a.bytes[i].toNat / 16, a.bytes[i].toNat % 16, ?_, ?_, ?_⟩
  · rw [hc, Option.bind_some, hcv]
  · rw [hd, Option.bind_some, hdv]
  · rw [Option.map_some, Nat.div_add_mod]

theorem parse_of_not_isDigits {s : String} (h : ¬IsDigits (dropMark s.toList)) :
    (utf8 (dropMark s.toList)).length ≠ 64 ∧
        parse s = .error (.invalidEncoding (Misspelling.wrongLength (utf8 (dropMark s.toList)).length).message) ∨
      (utf8 (dropMark s.toList)).length = 64 ∧
        ∃ p b, IsLeast {i | ∃ c, (utf8 (dropMark s.toList))[i]? = some c ∧ Hex.value? c = none} p ∧
          (utf8 (dropMark s.toList))[p]? = some b ∧
          parse s = .error (.invalidEncoding (Misspelling.badDigit b p).message) := by
  by_cases hlen : (utf8 (dropMark s.toList)).length = 64
  · refine Or.inr ⟨hlen, ?_⟩
    cases hv : Hex.values 0 (utf8 (dropMark s.toList)) with
    | ok vs =>
      -- then the text would spell the address of these values
      have hbytes : (Hex.pairs vs).length = 32 := by rw [Hex.length_pairs, Hex.length_values hv, hlen]
      have hok : parse s = .ok ⟨Hex.pairs vs, hbytes⟩ :=
        parse_eq_ok_iff_ofDigits.mpr (ofDigits_eq_ok_iff.mpr ⟨hlen, vs, hv, rfl⟩)
      exact absurd (exists_parse_iff.mp ⟨_, hok⟩) h
    | error e =>
      obtain ⟨p, hindex, hbyte, hleast⟩ := Hex.isLeast_of_values_eq_error hv
      have hdigits := ofDigits_of_values_error hlen hv
      rw [hindex, Nat.zero_add] at hdigits
      exact ⟨p, e.byte, hleast, hbyte, by rw [parse, hdigits]⟩
  · refine Or.inl ⟨hlen, ?_⟩
    rw [parse, ofDigits_of_length_ne hlen]

theorem dropMark_cases (cs : List Char) :
    cs = '0' :: 'x' :: dropMark cs ∨ cs = '0' :: 'X' :: dropMark cs ∨
      cs = dropMark cs ∧ ∀ rest, cs ≠ '0' :: 'x' :: rest ∧ cs ≠ '0' :: 'X' :: rest := by
  unfold dropMark
  split
  · exact Or.inl rfl
  · exact Or.inr (Or.inl rfl)
  · next hx hX => exact Or.inr (Or.inr ⟨rfl, fun rest => ⟨hx rest, hX rest⟩⟩)

/-- A text spells an address when it is 64 hexadecimal digits behind at most one mark; of any other text it is said
how long it is in bytes, or, if it has the right length, which byte is the first that is no digit. -/
theorem parse_follows_grammar (s : String) :
    let digits := dropMark s.toList
    let bytes := utf8 digits
    (s.toList = '0' :: 'x' :: digits ∨ s.toList = '0' :: 'X' :: digits ∨
        s.toList = digits ∧ ∀ rest, s.toList ≠ '0' :: 'x' :: rest ∧ s.toList ≠ '0' :: 'X' :: rest) ∧
      ((∃ a, parse s = .ok a) ↔ digits.length = 64 ∧ ∀ c ∈ digits, (hexValue? c).isSome) ∧
      (∀ a, parse s = .ok a → ∀ i < 32, ∃ upper lower, digits[2 * i]?.bind hexValue? = some upper ∧
        digits[2 * i + 1]?.bind hexValue? = some lower ∧
        a.bytes[i]?.map UInt8.toNat = some (16 * upper + lower)) ∧
      (¬(digits.length = 64 ∧ ∀ c ∈ digits, (hexValue? c).isSome) →
        bytes.length ≠ 64 ∧
            parse s = .error (.invalidEncoding s!"expected 64 hex characters, got {bytes.length}") ∨
          bytes.length = 64 ∧
            ∃ (p : Nat) (b : UInt8), IsLeast {i | ∃ c, bytes[i]? = some c ∧ hexValue? (Char.ofUInt8 c) = none} p ∧
              bytes[p]? = some b ∧
              parse s = .error (.invalidEncoding
                ("Invalid character " ++ quotedChar (Char.ofUInt8 b) ++ s!" at position {p}"))) := by
  intro digits bytes
  refine ⟨dropMark_cases s.toList, exists_parse_iff, fun a h i hi => byte_of_parse h hi, fun h => ?_⟩
  have hfault := parse_of_not_isDigits h
  simp only [Hex.value?_eq_none_iff] at hfault
  exact hfault

/-- Digits of both cases behind a mark, and a text of 64 bytes whose second character takes two of them. -/
theorem marked_parse_follows_grammar :
    (∃ a, parse (String.ofList ('0' :: 'X' :: List.replicate 62 'f' ++ ['7', 'B'])) = .ok a ∧
        a.bytes[31]?.map UInt8.toNat = some (16 * 7 + 11)) ∧
      parse (String.ofList ('0' :: 'x' :: 'a' :: 'é' :: List.replicate 61 '0')) =
        .error (.invalidEncoding "Invalid character 'Ã' at position 1") := by
  constructor
  · obtain ⟨-, hparsed, hbytes, -⟩ := parse_follows_grammar
      (String.ofList ('0' :: 'X' :: List.replicate 62 'f' ++ ['7', 'B']))
    rw [String.toList_ofList] at hparsed hbytes
    obtain ⟨a, ha⟩ := hparsed.mpr ⟨by decide, forall_mem_of_all (by decide +kernel)⟩
    obtain ⟨upper, lower, hupper, hlower, hbyte⟩ := hbytes a ha 31 (by decide)
    cases hupper
    cases hlower
    exact ⟨a, ha, hbyte⟩
  · obtain ⟨-, -, -, hrefused⟩ := parse_follows_grammar
      (String.ofList ('0' :: 'x' :: 'a' :: 'é' :: List.replicate 61 '0'))
    rw [String.toList_ofList] at hrefused
    rcases hrefused (by decide +kernel) with ⟨hlen, -⟩ | ⟨-, p, b, hleast, hbyte, hmessage⟩
    · exact absurd (by decide +kernel) hlen
    · have hle : p ≤ 1 := hleast.2 ⟨0xc3, rfl, by decide⟩
      have hne : p ≠ 0 := by
        rintro rfl
        obtain ⟨c, hc, hnone⟩ := hleast.1
        cases hc
        exact absurd hnone (by decide)
      have hp : p = 1 := by omega
      subst hp
      cases hbyte
      rw [hmessage]
      exact congrArg (fun text => Except.error (AddressError.invalidEncoding text)) (by decide +kernel)

end Kademlia.Address
