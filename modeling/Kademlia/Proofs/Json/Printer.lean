import Kademlia.Json.Printer
import Kademlia.Json.Record
import Kademlia.Proofs.Json.Token

/-!
What is printed follows the grammar: strings in quotes denote what they were, natural numbers of 64 bits are read back,
and every value is printed as one.
-/
namespace Kademlia.Json
open Text

/-! ### Strings -/

/-- How a character is printed: controls without a letter of their own as units, the others as themselves. -/
def piece (c : Char) : Piece :=
  if c.toNat < 32 ∧ c ∉ shortEscapes.map Prod.snd then .unit c.toNat else .char c

theorem stringBody_escape {c : Char} {cs : List Char} {ps : List Piece} (h : StringBody cs ps) :
    StringBody (escape c ++ cs) (piece c :: ps) := by
  unfold escape
  -- the seven characters with a letter
  iterate 7
    split
    · subst c
      exact .short (by decide) h
  rename_i hquote hbackslash hb hf hn hr ht
  split
  · next hc =>
    have hslash : c ≠ '/' := by
      rintro rfl
      exact absurd hc (by decide)
    have hpiece : piece c = .unit c.toNat := if_pos ⟨hc, by simp [shortEscapes, *]⟩
    rw [hpiece]
    exact .unit ((by decide : ∀ n < 32, unit? '0' '0' (Hex.digit (n / 16)) (Hex.digit (n % 16)) = some n) c.toNat hc) h
  · next hc =>
    have hpiece : piece c = .char c := if_neg fun h => hc h.1
    rw [hpiece]
    exact .plain ⟨Nat.not_lt.mp hc, hquote, hbackslash⟩ h

theorem stringText_quote (s : List Char) : StringText (quote s) (s.map piece) := by
  refine ⟨s.flatMap escape, ?_, rfl⟩
  induction s with
  | nil => exact .nil
  | cons c s ih => exact stringBody_escape ih

theorem denotes_map_piece (s : List Char) : Denotes (s.map piece) s := by
  induction s with
  | nil => exact .nil
  | cons c s ih =>
    rw [List.map_cons, piece]
    split
    · next hc =>
      have hdenotes := Denotes.unit (u := c.toNat) (Or.inl (by omega)) ih
      rwa [Char.ofNat_toNat] at hdenotes
    · exact .char ih

theorem quotes_quote (s : String) : Quotes (quote s.toList) s :=
  ⟨s.toList.map piece, stringText_quote s.toList, denotes_map_piece s.toList⟩

/-! ### Numbers -/

theorem isDigit_of_mem_toDigits {n : Nat} {c : Char} (hc : c ∈ Nat.toDigits 10 n) : isDigit c = true := by
  simpa [isDigit, Char.isDigit, Char.le_def] using Nat.isDigit_of_mem_toDigits (by decide) (by decide) hc

theorem digits_toDigits (n : Nat) : Digits (Nat.toDigits 10 n) :=
  ⟨Nat.toDigits_ne_nil, fun _ => isDigit_of_mem_toDigits⟩

theorem head?_toDigits_ne {n : Nat} (hn : n ≠ 0) : (Nat.toDigits 10 n).head? ≠ some '0' := by
  induction n using Nat.strongRecOn with
  | ind n ih =>
    by_cases hlt : n < 10
    · rw [Nat.toDigits_of_lt_base hlt]
      exact (by decide : ∀ n < 10, n ≠ 0 → [n.digitChar].head? ≠ some '0') n hlt hn
    · have hhead := ih (n / 10) (by omega) (by omega)
      obtain ⟨d, ds, hds⟩ := List.exists_cons_of_ne_nil (Nat.toDigits_ne_nil (b := 10) (n := n / 10))
      rw [Nat.toDigits_of_base_le (by decide) (Nat.not_lt.mp hlt), hds]
      rwa [hds] at hhead

theorem wholePart_toDigits (n : Nat) : WholePart (Nat.toDigits 10 n) := by
  by_cases hn : n = 0
  · rw [hn]
    exact .zero
  · have hdigits := digits_toDigits n
    have hhead := head?_toDigits_ne hn
    cases hds : Nat.toDigits 10 n with
    | nil => exact absurd hds Nat.toDigits_ne_nil
    | cons d ds =>
      rw [hds] at hdigits hhead
      exact .digits (fun hd => hhead (congrArg some hd)) hdigits

theorem numberText_natural (n : Nat) :
    NumberText (Nat.toDigits 10 n) ⟨false, (Nat.toDigits 10 n).map digitValue, none, none⟩ :=
  ⟨Nat.toDigits 10 n, [], [], wholePart_toDigits n, rfl, .none, .none, by simp⟩

theorem ofDigits_toDigits (n : Nat) : ofDigits 10 ((Nat.toDigits 10 n).map digitValue) = n := by
  rw [ofDigits, List.foldl_map]
  exact Nat.ofDigitChars_ten_toDigits

theorem le_foldl_digits (ds : List Nat) (n : Nat) : n ≤ ds.foldl (fun n d => 10 * n + d) n := by
  induction ds generalizing n with
  | nil => exact Nat.le_refl n
  | cons d ds ih =>
    have hstep : n ≤ 10 * n + d := by omega
    exact Nat.le_trans hstep (ih (10 * n + d))

/-- The digits of a number that fits are all taken in. -/
theorem absorb_eq (ds : List Nat) {n : Nat} (h : ds.foldl (fun n d => 10 * n + d) n < Nat.pow 2 64) :
    absorb n ds = (ds.foldl (fun n d => 10 * n + d) n, []) := by
  induction ds generalizing n with
  | nil => rfl
  | cons d ds ih =>
    rw [List.foldl_cons] at h ⊢
    rw [absorb, if_pos (Nat.lt_of_le_of_lt (le_foldl_digits ds (10 * n + d)) h), ih h]

/-- A natural number of 64 bits is a single token, from which it is read back. -/
theorem reads_natural {n : Nat} (hn : n < Nat.pow 2 64) :
    ∃ numeral, Reads (Nat.toDigits 10 n) [.number (.ok numeral)] ∧ Token.natural (.number (.ok numeral)) = .ok n := by
  refine ⟨_, Reads.number (numberText_natural n), ?_⟩
  have hvalue := ofDigits_toDigits n
  rw [ofDigits] at hvalue
  have habsorb := absorb_eq ((Nat.toDigits 10 n).map digitValue) (n := 0) (by rw [hvalue]; exact hn)
  rw [hvalue] at habsorb
  have hnumber : Numeral.number? ⟨false, (Nat.toDigits 10 n).map digitValue, none, none⟩ = some (.integer n) := by
    rw [Numeral.number?, habsorb]
    rfl
  rw [Token.natural, Token.scalar, hnumber]

theorem integerChars_eq (i : Int) :
    integerChars i = (if decide (i < 0) then ['-'] else []) ++ Nat.toDigits 10 i.natAbs := by
  rw [integerChars]
  split <;> simp_all

theorem numberText_chars (n : Number) : ∃ numeral, NumberText n.chars numeral := by
  cases n with
  | integer i =>
    rw [Number.chars, integerChars_eq]
    exact ⟨⟨decide (i < 0), _, none, none⟩, _, [], [], wholePart_toDigits i.natAbs, rfl, .none, .none, by simp⟩
  | decimal negative significand exponent =>
    rw [Number.chars, integerChars_eq, List.append_assoc]
    have hsign : (if decide (exponent < 0) then ['-'] else [], decide (exponent < 0)) ∈ exponentSigns := by
      cases decide (exponent < 0) <;> decide
    exact ⟨⟨negative, _, none, some (decide (exponent < 0), _)⟩, _, [], _, wholePart_toDigits significand, rfl, .none,
      .digits (Or.inl rfl) hsign (digits_toDigits exponent.natAbs), rfl⟩

/-! ### Values -/

theorem separated_elementChars (v : Value) (vs : List Value) :
    Separated Padded (v.chars ++ Value.elementChars vs) ((v :: vs).map Value.chars) := by
  induction vs generalizing v with
  | nil =>
    rw [Value.elementChars, List.append_nil]
    exact .one (padded_self v.chars)
  | cons w vs ih =>
    rw [Value.elementChars]
    exact .more (padded_self v.chars) (ih w)

theorem arrayText_chars (vs : List Value) : ArrayText (Value.array vs).chars (vs.map Value.chars) := by
  cases vs with
  | nil => exact ⟨[], .none blanks_nil, by rw [Value.chars]; rfl⟩
  | cons v vs => exact ⟨_, separated_elementChars v vs, by simp [Value.chars]⟩

section
variable {ν : Type} {name : List Char → ν → Prop} {q : String → ν} (hq : ∀ s, name (quote s.toList) (q s))
include hq

theorem memberText_chars (key : String) (v : Value) :
    MemberText name (quote key.toList ++ ':' :: v.chars) (q key, v.chars) :=
  ⟨quote key.toList, quote key.toList, v.chars, hq key, padded_self _, padded_self _, rfl⟩

theorem separated_memberChars (key : String) (v : Value) (ms : List (String × Value)) :
    Separated (MemberText name) (quote key.toList ++ ':' :: v.chars ++ Value.memberChars ms)
      (((key, v) :: ms).map fun m => (q m.1, m.2.chars)) := by
  induction ms generalizing key v with
  | nil =>
    rw [Value.memberChars, List.append_nil]
    exact .one (memberText_chars hq key v)
  | cons m ms ih =>
    rw [Value.memberChars]
    exact .more (memberText_chars hq key v) (ih m.1 m.2)

theorem objectText_chars (ms : List (String × Value)) :
    ObjectText name (Value.object ms).chars (ms.map fun m => (q m.1, m.2.chars)) := by
  cases ms with
  | nil => exact ⟨[], .none blanks_nil, by rw [Value.chars]; rfl⟩
  | cons m ms => exact ⟨_, separated_memberChars hq m.1 m.2 ms, by simp [Value.chars]⟩

end

theorem padded_render (v : Value) : Padded v.render.toList v.chars := by
  rw [Value.render, String.toList_ofList]
  exact padded_self v.chars

theorem isValue_chars : (v : Value) → IsValue v.chars
  | .null => by rw [Value.chars]; exact .word .null
  | .bool true => by rw [Value.chars]; exact .word .true
  | .bool false => by rw [Value.chars]; exact .word .false
  | .number n => by
    obtain ⟨numeral, h⟩ := numberText_chars n
    rw [Value.chars]
    exact .number h
  | .string s => by rw [Value.chars]; exact .string (stringText_quote s.toList)
  | .array vs => by
    refine .array (arrayText_chars vs) fun cs hcs => ?_
    obtain ⟨v, hv, rfl⟩ := List.mem_map.mp hcs
    exact isValue_chars v
  | .object ms => by
    refine .object (objectText_chars (fun s => stringText_quote s.toList) ms) fun m hm => ?_
    obtain ⟨m, hm', rfl⟩ := List.mem_map.mp hm
    exact isValue_chars m.2
termination_by v => sizeOf v
decreasing_by
  · have hlt := List.sizeOf_lt_of_mem hv
    rw [Value.array.sizeOf_spec]
    omega
  · have hlt := List.sizeOf_lt_of_mem hm'
    have hpair : sizeOf m.2 < sizeOf m := by
      rw [Prod.mk.sizeOf_spec]
      omega
    rw [Value.object.sizeOf_spec]
    omega

end Kademlia.Json
