import Kademlia.Proofs.Json.Grammar
import Kademlia.Proofs.Text.Hex

/-!
The tokens of texts that follow the grammar. A part of a text is read for itself, whatever comes behind it, as long as
this is nothing by which the last token of the part could go on.
-/
namespace Kademlia.Json
open Text

/-! ### Strings -/

theorem unescape?_of_shortEscapes {e c : Char} (he : (e, c) ∈ shortEscapes) : e ≠ 'u' ∧ unescape? e = some c := by
  have hall : ∀ p ∈ shortEscapes, p.1 ≠ 'u' ∧ unescape? p.1 = some p.2 := by decide
  exact hall _ he

theorem scanText_of_stringBody {body : List Char} {ps : List Piece} (h : StringBody body ps) (rest : List Char) :
    scanText (body ++ '"' :: rest) = (ps, .ok rest) := by
  induction h with
  | nil => rfl
  | plain hc h ih =>
    rw [List.cons_append, scanText, if_neg (Char.not_lt.mpr hc.1), ih]
    all_goals simp_all
  | @short e c cs ps he h ih =>
    obtain ⟨hu, hc⟩ := unescape?_of_shortEscapes he
    rw [List.cons_append, List.cons_append, scanText, hc, ih]
    all_goals simp_all
  | unit hu h ih => simp only [List.cons_append, scanText, hu, ih]

/-- A unit that is no surrogate stands for itself, whatever follows. -/
theorem joined_unit {u : Nat} (hu : u < 0xd800 ∨ 0xe000 ≤ u) (ps : List Piece) :
    joined (.unit u :: ps) none = (joined ps none).map (Char.ofNat u :: ·) := by
  have hleading : isLeading u = false := by simp [isLeading]; omega
  have htrailing : isTrailing u = false := by simp [isTrailing]; omega
  match ps with
  | [] | .char c :: ps | .unit v :: ps => simp [joined, hleading, htrailing]

theorem joined_of_denotes {ps : List Piece} {s : List Char} (h : Denotes ps s) : joined ps none = .ok s := by
  induction h with
  | nil => rfl
  | char h ih => rw [joined, ih]; rfl
  | unit hu h ih => rw [joined_unit hu, ih]; rfl
  | @pair u v ps s hu hv h ih =>
    have hleading : isLeading u = true := by simp [isLeading, hu]
    have htrailing : isTrailing v = true := by simp [isTrailing, hv]
    rw [joined, hleading, htrailing, ih]
    rfl

/-! ### Numbers -/

def NoDigit (rest : List Char) : Prop := ∀ c ∈ rest.head?, isDigit c = false

theorem scanDigits_append {ds rest : List Char} (hds : Digits ds) (hrest : NoDigit rest) :
    scanDigits (ds ++ rest) = .ok (ds.map digitValue, rest) := by
  obtain ⟨hne, hall⟩ := hds
  obtain ⟨htake, hdrop⟩ := takeWhile_append_of_head hall hrest
  cases ds with
  | nil => exact absurd rfl hne
  | cons d ds =>
    rw [List.cons_append] at htake hdrop ⊢
    rw [scanDigits, if_pos (hall d List.mem_cons_self), htake, hdrop]

theorem mem_of_isDigit {c : Char} (hc : isDigit c = true) :
    c ∈ ['0', '1', '2', '3', '4', '5', '6', '7', '8', '9'] := by
  have hlt : c.toNat < 58 := by
    simp only [isDigit, Bool.and_eq_true, decide_eq_true_eq] at hc
    exact Nat.lt_succ_of_le hc.2
  revert hc
  exact forall_char_lt (p := fun c => isDigit c = true → c ∈ ['0', '1', '2', '3', '4', '5', '6', '7', '8', '9'])
    (by decide +kernel) hlt

theorem forall_digit {p : Char → Prop} [DecidablePred p]
    (h : ['0', '1', '2', '3', '4', '5', '6', '7', '8', '9'].all (fun c => p c) = true) {c : Char}
    (hc : isDigit c = true) : p c :=
  forall_mem_of_all h c (mem_of_isDigit hc)

theorem WholePart.isDigits {ds : List Char} (h : WholePart ds) : Digits ds := by
  cases h with
  | zero => exact ⟨List.cons_ne_nil _ _, List.forall_mem_singleton.mpr rfl⟩
  | digits _ h => exact h

theorem scanWhole_append {ds rest : List Char} (hds : WholePart ds) (hrest : NoDigit rest) :
    scanWhole (ds ++ rest) = .ok (ds.map digitValue, rest) := by
  have hscan := scanDigits_append hds.isDigits hrest
  cases hds with
  | zero => rw [scanWhole, hscan]; rfl
  | @digits d ds hd h =>
    have hne : digitValue d ≠ 0 :=
      forall_digit (p := fun d => d ≠ '0' → digitValue d ≠ 0) (by decide) (h.2 d List.mem_cons_self) hd
    rw [scanWhole, hscan, List.map_cons]
    split
    · next heq => simp_all
    · rfl

theorem scanFraction_append {cs rest : List Char} {f : Option (List Nat)} (h : FractionPart cs f)
    (hrest : NoDigit rest) (hpoint : rest.head? ≠ some '.') : scanFraction (cs ++ rest) = .ok (f, rest) := by
  cases h with
  | none =>
    rw [List.nil_append, scanFraction]
    rintro cs rfl
    exact hpoint rfl
  | digits h =>
    rw [List.cons_append, scanFraction, scanDigits_append h hrest]
    rfl

theorem scanSign_append {sign ds : List Char} {negative : Bool} (hsign : (sign, negative) ∈ exponentSigns)
    (hds : Digits ds) (rest : List Char) : scanSign (sign ++ (ds ++ rest)) = (negative, ds ++ rest) := by
  obtain ⟨hne, hall⟩ := hds
  cases ds with
  | nil => exact absurd rfl hne
  | cons d ds =>
    have hsigns : d ≠ '-' ∧ d ≠ '+' :=
      forall_digit (p := fun d => d ≠ '-' ∧ d ≠ '+') (by decide) (hall d List.mem_cons_self)
    simp only [exponentSigns, List.mem_cons, Prod.mk.injEq, List.not_mem_nil, or_false] at hsign
    rcases hsign with ⟨rfl, rfl⟩ | ⟨rfl, rfl⟩ | ⟨rfl, rfl⟩
    · rw [List.nil_append, List.cons_append, scanSign]
      · rintro cs ⟨⟩
        exact hsigns.1 rfl
      · rintro cs ⟨⟩
        exact hsigns.2 rfl
    · rfl
    · rfl

theorem scanExponent_append {cs rest : List Char} {e : Option (Bool × List Nat)} (h : ExponentPart cs e)
    (hrest : NoDigit rest) (hletter : ∀ c ∈ rest.head?, ¬(c = 'e' ∨ c = 'E')) :
    scanExponent (cs ++ rest) = .ok (e, rest) := by
  cases h with
  | none =>
    cases rest with
    | nil => rfl
    | cons c rest => rw [List.nil_append, scanExponent, if_neg (hletter c rfl)]
  | digits he hsign h =>
    rw [List.cons_append, List.append_assoc, scanExponent, if_pos he, scanSign_append hsign h,
      scanDigits_append h hrest]
    rfl

theorem dropMinus_append {ds : List Char} (hds : Digits ds) (negative : Bool) (rest : List Char) :
    dropMinus ((if negative then ['-'] else []) ++ (ds ++ rest)) = (negative, ds ++ rest) := by
  obtain ⟨hne, hall⟩ := hds
  cases negative with
  | true => rfl
  | false =>
    cases ds with
    | nil => exact absurd rfl hne
    | cons d ds =>
      simp only [Bool.false_eq_true, if_false, List.nil_append, List.cons_append]
      rw [dropMinus]
      rintro cs ⟨⟩
      exact absurd (hall '-' List.mem_cons_self) (by decide)

def delimiters : List Char := [' ', '\n', '\t', '\r', '[', ']', '\x7b', '\x7d', ':', ',']

def Delimited (rest : List Char) : Prop := ∀ c ∈ rest.head?, c ∈ delimiters

theorem ExponentPart.head_append {cs rest : List Char} {e : Option (Bool × List Nat)} (h : ExponentPart cs e)
    (hrest : ∀ c ∈ rest.head?, isDigit c = false ∧ c ≠ '.') :
    ∀ c ∈ (cs ++ rest).head?, isDigit c = false ∧ c ≠ '.' := by
  cases h with
  | none => exact hrest
  | digits he =>
    rintro c ⟨⟩
    rcases he with rfl | rfl <;> decide

theorem FractionPart.noDigit_append {cs rest : List Char} {f : Option (List Nat)} (h : FractionPart cs f)
    (hrest : NoDigit rest) : NoDigit (cs ++ rest) := by
  cases h with
  | none => exact hrest
  | digits =>
    rintro c ⟨⟩
    rfl

theorem scanNumeral_append {cs rest : List Char} {n : Numeral} (h : NumberText cs n) (hrest : Delimited rest) :
    scanNumeral (cs ++ rest) = .ok (n, rest) := by
  obtain ⟨whole, fraction, exponent, hwhole, hdigits, hfraction, hexponent, rfl⟩ := h
  have hdelimiter : ∀ c ∈ delimiters, (isDigit c = false ∧ c ≠ '.') ∧ ¬(c = 'e' ∨ c = 'E') :=
    forall_mem_of_all (by decide)
  have hnumber : ∀ c ∈ rest.head?, (isDigit c = false ∧ c ≠ '.') ∧ ¬(c = 'e' ∨ c = 'E') := fun c hc =>
    hdelimiter c (hrest c hc)
  have hhead := hexponent.head_append fun c hc => (hnumber c hc).1
  have hexponent := scanExponent_append hexponent (fun c hc => (hnumber c hc).1.1) fun c hc => (hnumber c hc).2
  have hnoDigit := hfraction.noDigit_append fun c hc => (hhead c hc).1
  have hfraction := scanFraction_append hfraction (fun c hc => (hhead c hc).1) fun hc => (hhead '.' hc).2 rfl
  have hminus := dropMinus_append hwhole.isDigits n.negative (fraction ++ (exponent ++ rest))
  have hwhole := scanWhole_append hwhole hnoDigit
  simp only [List.append_assoc, scanNumeral, hminus, hwhole, hfraction, hexponent, hdigits, bind, Except.bind, pure,
    Except.pure]

theorem NumberText.exists_cons {cs : List Char} {n : Numeral} (h : NumberText cs n) :
    ∃ c cs', cs = c :: cs' ∧ (c = '-' ∨ isDigit c = true) := by
  obtain ⟨whole, fraction, exponent, hwhole, -, -, -, rfl⟩ := h
  obtain ⟨hne, hall⟩ := hwhole.isDigits
  cases n.negative with
  | true => exact ⟨'-', _, rfl, Or.inl rfl⟩
  | false =>
    cases whole with
    | nil => exact absurd rfl hne
    | cons d ds => exact ⟨d, _, rfl, Or.inr (hall d List.mem_cons_self)⟩

/-! ### Tokens -/

theorem tokens_nil : tokens [] = [] := by rw [tokens]

theorem tokens_cons_blank {c : Char} (hc : isBlank c = true) (cs : List Char) : tokens (c :: cs) = tokens cs := by
  rw [tokens, if_pos hc]

theorem tokens_cons {c : Char} {cs rest : List Char} {t : Token} (hc : isBlank c = false)
    (h : scanToken c cs = (t, some rest)) : tokens (c :: cs) = t :: tokens rest := by
  rw [tokens, hc, if_neg Bool.false_ne_true]
  split
  · next h' =>
    cases h'.symm.trans (congrArg Prod.snd h)
    exact congrArg (· :: tokens rest) (congrArg Prod.fst h)
  · next h' => cases h'.symm.trans (congrArg Prod.snd h)

/-- The tokens of a part of a text. -/
def Reads (cs : List Char) (ts : List Token) : Prop :=
  ∀ rest, Delimited rest → tokens (cs ++ rest) = ts ++ tokens rest

theorem Reads.tokens_eq {cs : List Char} {ts : List Token} (h : Reads cs ts) : tokens cs = ts := by
  have h := h [] (fun c hc => by cases hc)
  rwa [List.append_nil, tokens_nil, List.append_nil] at h

theorem tokens_blanks_append {ws : List Char} (hws : Blanks ws) (rest : List Char) :
    tokens (ws ++ rest) = tokens rest := by
  induction ws with
  | nil => rfl
  | cons w ws ih =>
    have hblank : ∀ c ∈ [' ', '\n', '\t', '\r'], isBlank c = true := forall_mem_of_all (by decide)
    rw [List.cons_append, tokens_cons_blank (hblank w (hws w List.mem_cons_self)),
      ih fun c hc => hws c (List.mem_cons_of_mem w hc)]

theorem delimited_blanks_append {ws rest : List Char} (hws : Blanks ws) (hrest : Delimited rest) :
    Delimited (ws ++ rest) := by
  cases ws with
  | nil => exact hrest
  | cons w ws =>
    rintro c ⟨⟩
    have hmem : ∀ c ∈ [' ', '\n', '\t', '\r'], c ∈ delimiters := forall_mem_of_all (by decide)
    exact hmem w (hws w List.mem_cons_self)

theorem Reads.blanks {ws : List Char} (hws : Blanks ws) : Reads ws [] :=
  fun rest _ => tokens_blanks_append hws rest

theorem Reads.padded {cs part : List Char} {ts : List Token} (h : Reads part ts) (hcs : Padded cs part) :
    Reads cs ts := by
  obtain ⟨before, behind, hbefore, hbehind, rfl⟩ := hcs
  intro rest hrest
  rw [List.append_assoc, List.append_assoc, tokens_blanks_append hbefore,
    h _ (delimited_blanks_append hbehind hrest), tokens_blanks_append hbehind]

theorem mark?_eq_some {c : Char} {m : Mark} (h : mark? c = some m) : isBlank c = false ∧ c ∈ delimiters := by
  unfold mark? at h
  repeat' split at h
  all_goals first | (subst c; decide) | cases h

theorem tokens_cons_mark {c : Char} {m : Mark} (h : mark? c = some m) (cs : List Char) :
    tokens (c :: cs) = .mark m :: tokens cs :=
  tokens_cons (mark?_eq_some h).1 (by rw [scanToken, h])

theorem Reads.append_mark {cs ds : List Char} {ts us : List Token} {c : Char} {m : Mark} (hcs : Reads cs ts)
    (hm : mark? c = some m) (hds : Reads ds us) : Reads (cs ++ c :: ds) (ts ++ .mark m :: us) := by
  intro rest hrest
  have hdelimited : Delimited (c :: (ds ++ rest)) := by
    rintro d ⟨⟩
    exact (mark?_eq_some hm).2
  rw [List.append_assoc, List.cons_append, hcs _ hdelimited, tokens_cons_mark hm, hds rest hrest, List.append_assoc]
  rfl

theorem Reads.word (w : Word) : Reads w.spelling [.word (.ok w)] := by
  intro rest _
  cases w <;> exact tokens_cons rfl rfl

theorem Reads.string {cs : List Char} {ps : List Piece} (h : StringText cs ps) : Reads cs [.text ps none] := by
  obtain ⟨body, hbody, rfl⟩ := h
  intro rest _
  have hscan := scanText_of_stringBody hbody rest
  rw [List.cons_append, List.append_assoc]
  exact tokens_cons rfl (by simp only [scanToken, mark?, List.cons_append, List.nil_append, hscan]; rfl)

theorem Reads.number {cs : List Char} {n : Numeral} (h : NumberText cs n) : Reads cs [.number (.ok n)] := by
  intro rest hrest
  have hscan := scanNumeral_append h hrest
  obtain ⟨c, cs, rfl, hc⟩ := h.exists_cons
  have hfirst : isBlank c = false ∧ mark? c = none ∧ c ≠ '"' := by
    rcases hc with rfl | hc
    · decide
    · exact forall_digit (p := fun c => isBlank c = false ∧ mark? c = none ∧ c ≠ '"') (by decide) hc
  rw [List.cons_append] at hscan ⊢
  refine tokens_cons hfirst.1 ?_
  simp only [scanToken, hfirst.2.1, if_neg hfirst.2.2, if_pos hc, hscan]

end Kademlia.Json
