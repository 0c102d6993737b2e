import Kademlia.Proofs.Address.Text

/-!
An address and its spellings. What is read back from any spelling is the address, and what is written of it is the spelling
without its mark and in lower case, which is the same for all of them.
-/
namespace Kademlia

namespace Text

theorem toLower_of_hexValue? {c : Char} {n : Nat} (h : hexValue? c = some n) : c.toLower = Hex.digit n := by
  have hascii : ∀ i < 128, ∀ m ∈ hexValue? (Char.ofNat i), (Char.ofNat i).toLower = Hex.digit m := by decide +kernel
  exact forall_char_lt (p := fun c => ∀ m ∈ hexValue? c, c.toLower = Hex.digit m) hascii
    (toNat_lt_of_hexValue? (h ▸ rfl)) n h

theorem map_toLower_of_map_hexValue? {ds : List Char} {ns : List Nat} (h : ds.map hexValue? = ns.map some) :
    ds.map Char.toLower = ns.map Hex.digit := by
  induction ds generalizing ns with
  | nil =>
    cases ns with
    | nil => rfl
    | cons n ns => cases h
  | cons d ds ih =>
    cases ns with
    | nil => cases h
    | cons n ns =>
      obtain ⟨hd, hds⟩ := List.cons.inj h
      rw [List.map_cons, List.map_cons, toLower_of_hexValue? hd, ih hds]

theorem toList_toLower (s : String) : s.toLower.toList = s.toList.map Char.toLower := String.toList_map

/-- The text with its letters at the chosen places in upper case. -/
def recase (upper : Nat → Bool) (s : String) : String :=
  String.ofList (s.toList.mapIdx fun i c => if upper i then c.toUpper else c)

/-- Digits in lower case come back from any casing of them. -/
theorem map_toLower_recase_encode (upper : Nat → Bool) (bs : List UInt8) :
    (recase upper (String.ofList (Hex.encode bs))).toList.map Char.toLower = Hex.encode bs := by
  have hdigit : ∀ n < 16, (Hex.digit n).toUpper.toLower = Hex.digit n ∧ (Hex.digit n).toLower = Hex.digit n := by
    decide
  have hlt : ∀ n ∈ Hex.halves bs, n < 16 := lt_of_map_hexValue? (Hex.map_hexValue?_encode bs)
  rw [recase, String.toList_ofList, String.toList_ofList, Hex.encode_eq_map_halves]
  apply List.ext_getElem
  · simp
  · intro i _ hi
    rw [List.length_map] at hi
    obtain ⟨hupper, hlower⟩ := hdigit _ (hlt _ (List.getElem_mem hi))
    simp only [List.getElem_map, List.getElem_mapIdx]
    by_cases h : upper i
    · rw [if_pos h, hupper]
    · rw [if_neg h, hlower]

end Text

namespace Address
open Text
variable {s : String} {a b : Address}

def plain (s : String) : String := (String.ofList (dropMark s.toList)).toLower

theorem plain_eq_toHex_iff : plain s = a.toHex ↔ (dropMark s.toList).map Char.toLower = a.hexChars := by
  rw [← String.toList_inj, plain, toHex, toList_toLower, String.toList_ofList, String.toList_ofList]

/-- A text is read as the address that is written as the same text, but for its mark and the case of its letters. -/
theorem parse_eq_ok_iff_plain : parse s = .ok a ↔ plain s = a.toHex := by
  rw [parse_eq_ok_iff, plain_eq_toHex_iff]
  constructor
  · intro h
    rw [map_toLower_of_map_hexValue? h, hexChars, Hex.encode_eq_map_halves]
  · exact map_hexValue?_of_map_toLower

theorem spells_of_plain (h : plain s = a.toHex) : Spells s a := by
  rw [plain_eq_toHex_iff] at h
  obtain hmark | hmark | ⟨hmark, -⟩ := dropMark_cases s.toList
  · exact ⟨['0', 'x'], by simp, _, hmark, h⟩
  · exact ⟨['0', 'X'], by simp, _, hmark, h⟩
  · exact ⟨[], by simp, _, hmark, h⟩

theorem parse_eq_ok_iff_spells : parse s = .ok a ↔ Spells s a :=
  ⟨fun h => spells_of_plain (parse_eq_ok_iff_plain.mp h), parse_of_spells⟩

theorem parse_toHex (a : Address) : parse a.toHex = .ok a := parse_of_spells (spells_toHex a)

theorem toHex_inj : a.toHex = b.toHex ↔ a = b := by
  constructor
  · intro h
    have ha := parse_toHex a
    rw [h, parse_toHex b] at ha
    cases ha
    rfl
  · exact congrArg toHex

theorem spells_recase (a : Address) (upper : Nat → Bool) {mark : String} (hmark : mark ∈ ["", "0x", "0X"]) :
    Spells (mark ++ recase upper a.toHex) a := by
  refine ⟨mark.toList, ?_, (recase upper a.toHex).toList, String.toList_append, ?_⟩
  · simp only [List.mem_cons, List.not_mem_nil, or_false] at hmark ⊢
    obtain rfl | rfl | rfl := hmark
    · exact Or.inl rfl
    · exact Or.inr (Or.inl rfl)
    · exact Or.inr (Or.inr rfl)
  · exact map_toLower_recase_encode upper a.bytes

theorem spells_toMarkedHex (a : Address) : Spells a.toMarkedHex a := by
  refine ⟨['0', 'x'], by simp, a.hexChars, ?_, Hex.map_toLower_encode a.bytes⟩
  rw [toMarkedHex, String.toList_append]
  exact congrArg (['0', 'x'] ++ ·) String.toList_ofList

/-- An address is read back from its text whatever the case of the letters and whether it is marked, and nothing else is
read as this address: of an accepted text, its mark and its upper case are all that is lost. -/
theorem parse_inverts_toHex_up_to_spelling :
    (∀ (a : Address) (upper : Nat → Bool), ∀ mark ∈ ["", "0x", "0X"], parse (mark ++ recase upper a.toHex) = .ok a) ∧
      (∀ a : Address, parse a.toHex = .ok a ∧ parse a.toMarkedHex = .ok a) ∧
      (∀ (s : String) (a : Address), parse s = .ok a ↔ Spells s a) ∧
      (∀ (s : String) (a : Address), parse s = .ok a → a.toHex = plain s) ∧
      ∀ (s t : String) (a b : Address), parse s = .ok a → parse t = .ok b → (a = b ↔ plain s = plain t) := by
  refine ⟨?_, ?_, fun s a => parse_eq_ok_iff_spells, ?_, ?_⟩
  · intro a upper mark hmark
    exact parse_of_spells (spells_recase a upper hmark)
  · intro a
    exact ⟨parse_toHex a, parse_of_spells (spells_toMarkedHex a)⟩
  · intro s a h
    exact (parse_eq_ok_iff_plain.mp h).symm
  · intro s t a b hs ht
    rw [parse_eq_ok_iff_plain.mp hs, parse_eq_ok_iff_plain.mp ht, toHex_inj]

/-- A text with one letter in upper case behind a mark, beside the plain text of its address and that of another one. -/
theorem mixed_parse_inverts_toHex_up_to_spelling :
    let a := ofLeading [0xab, 0x07]
    let b := ofLeading [0xab, 0x70]
    let s := "0X" ++ recase (fun i => i = 1) a.toHex
    s.toList.take 6 = ['0', 'X', 'a', 'B', '0', '7'] ∧ parse s = .ok a ∧ a.toHex = plain s ∧
      plain s = plain a.toMarkedHex ∧ plain s ≠ plain b.toHex := by
  intro a b s
  obtain ⟨hrecased, hwritten, -, hplain, hsame⟩ := parse_inverts_toHex_up_to_spelling
  have hne : a ≠ b := by decide
  have hs : parse s = .ok a := hrecased a (fun i => i = 1) "0X" (by simp)
  refine ⟨by decide +kernel, hs, hplain s a hs, ?_, ?_⟩
  · exact (hsame s a.toMarkedHex a a hs (hwritten a).2).mp rfl
  · exact fun h => hne ((hsame s b.toHex a b hs (hwritten b).1).mpr h)

end Address
end Kademlia
