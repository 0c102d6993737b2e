import Kademlia.Json.Token

/-!
The grammar of JSON: which texts are values, and of which parts they consist. It leaves open what every text may
choose: the blanks around the parts, the spelling of characters in strings, the notation of numbers.
-/
namespace Kademlia.Json
open Text

def Blanks (ws : List Char) : Prop := ∀ c ∈ ws, c ∈ [' ', '\n', '\t', '\r']

/-- A text that is a part with blanks around it. -/
def Padded (cs part : List Char) : Prop :=
  ∃ before behind, Blanks before ∧ Blanks behind ∧ cs = before ++ (part ++ behind)

theorem blanks_nil : Blanks [] := fun c hc => by cases hc

theorem padded_self (part : List Char) : Padded part part :=
  ⟨[], [], blanks_nil, blanks_nil, (List.append_nil part).symm⟩

/-! ### Strings -/

/-- The letters that may follow a backslash, each with the character for which the two stand. -/
def shortEscapes : List (Char × Char) :=
  [('"', '"'), ('\\', '\\'), ('/', '/'), ('b', '\x08'), ('f', '\x0c'), ('n', '\n'), ('r', '\r'), ('t', '\t')]

inductive StringBody : List Char → List Piece → Prop
  | nil : StringBody [] []
  | plain {c : Char} {cs : List Char} {ps : List Piece} (hc : ' ' ≤ c ∧ c ≠ '"' ∧ c ≠ '\\') (h : StringBody cs ps) :
      StringBody (c :: cs) (.char c :: ps)
  | short {e c : Char} {cs : List Char} {ps : List Piece} (he : (e, c) ∈ shortEscapes) (h : StringBody cs ps) :
      StringBody ('\\' :: e :: cs) (.char c :: ps)
  | unit {x₃ x₂ x₁ x₀ : Char} {u : Nat} {cs : List Char} {ps : List Piece} (hu : unit? x₃ x₂ x₁ x₀ = some u)
      (h : StringBody cs ps) : StringBody ('\\' :: 'u' :: x₃ :: x₂ :: x₁ :: x₀ :: cs) (.unit u :: ps)

/-- The characters for which pieces stand. Units that are no surrogates stand for themselves, a pair of surrogates
stands for one character, and a lone surrogate for none. -/
inductive Denotes : List Piece → List Char → Prop
  | nil : Denotes [] []
  | char {c : Char} {ps : List Piece} {s : List Char} (h : Denotes ps s) : Denotes (.char c :: ps) (c :: s)
  | unit {u : Nat} {ps : List Piece} {s : List Char} (hu : u < 0xd800 ∨ 0xe000 ≤ u) (h : Denotes ps s) :
      Denotes (.unit u :: ps) (Char.ofNat u :: s)
  | pair {u v : Nat} {ps : List Piece} {s : List Char} (hu : 0xd800 ≤ u ∧ u < 0xdc00) (hv : 0xdc00 ≤ v ∧ v < 0xe000)
      (h : Denotes ps s) :
      Denotes (.unit u :: .unit v :: ps) (Char.ofNat (0x10000 + 1024 * (u - 0xd800) + (v - 0xdc00)) :: s)

def StringText (cs : List Char) (ps : List Piece) : Prop := ∃ body, StringBody body ps ∧ cs = '"' :: (body ++ ['"'])

def Quotes (cs : List Char) (s : String) : Prop := ∃ ps, StringText cs ps ∧ Denotes ps s.toList

/-! ### Numbers -/

def Digits (ds : List Char) : Prop := ds ≠ [] ∧ ∀ c ∈ ds, isDigit c = true

inductive WholePart : List Char → Prop
  | zero : WholePart ['0']
  | digits {d : Char} {ds : List Char} (hd : d ≠ '0') (h : Digits (d :: ds)) : WholePart (d :: ds)

inductive FractionPart : List Char → Option (List Nat) → Prop
  | none : FractionPart [] none
  | digits {ds : List Char} (h : Digits ds) : FractionPart ('.' :: ds) (some (ds.map digitValue))

/-- Signs of an exponent, each with whether it is a minus. -/
def exponentSigns : List (List Char × Bool) := [([], false), (['+'], false), (['-'], true)]

inductive ExponentPart : List Char → Option (Bool × List Nat) → Prop
  | none : ExponentPart [] none
  | digits {e : Char} {sign ds : List Char} {negative : Bool} (he : e = 'e' ∨ e = 'E')
      (hsign : (sign, negative) ∈ exponentSigns) (h : Digits ds) :
      ExponentPart (e :: (sign ++ ds)) (some (negative, ds.map digitValue))

def NumberText (cs : List Char) (n : Numeral) : Prop :=
  ∃ whole fraction exponent, WholePart whole ∧ whole.map digitValue = n.whole ∧ FractionPart fraction n.fraction ∧
    ExponentPart exponent n.exponent ∧
    cs = (if n.negative then ['-'] else []) ++ (whole ++ (fraction ++ exponent))

/-! ### Values -/

inductive Separated {ι : Type} (part : List Char → ι → Prop) : List Char → List ι → Prop
  | none {ws : List Char} (h : Blanks ws) : Separated part ws []
  | one {i : ι} {cs : List Char} (hi : part cs i) : Separated part cs [i]
  | more {i j : ι} {is : List ι} {cs ds : List Char} (hi : part cs i) (h : Separated part ds (j :: is)) :
      Separated part (cs ++ ',' :: ds) (i :: j :: is)

theorem Separated.of_map {ι κ : Type} {part : List Char → κ → Prop} {f : ι → κ} {cs : List Char} {is : List ι}
    (h : Separated part cs (is.map f)) : Separated (fun cs i => part cs (f i)) cs is := by
  generalize hjs : is.map f = js at h
  induction h generalizing is with
  | none h =>
    cases List.map_eq_nil_iff.mp hjs
    exact .none h
  | one hi =>
    obtain ⟨i, rfl, rfl⟩ := List.map_eq_singleton_iff.mp hjs
    exact .one hi
  | more hi h ih =>
    obtain ⟨i, is, rfl, rfl, his⟩ := List.map_eq_cons_iff.mp hjs
    obtain ⟨j, is, rfl, rfl, -⟩ := List.map_eq_cons_iff.mp his
    exact .more hi (ih his)

def ArrayText (cs : List Char) (vs : List (List Char)) : Prop :=
  ∃ inner, Separated Padded inner vs ∧ cs = '[' :: (inner ++ [']'])

section
variable {ν : Type} (name : List Char → ν → Prop)

/-- A member of an object: a name, whose texts are given, a colon, and the text of a value. -/
def MemberText (cs : List Char) (m : ν × List Char) : Prop :=
  ∃ quoted before behind, name quoted m.1 ∧ Padded before quoted ∧ Padded behind m.2 ∧ cs = before ++ ':' :: behind

def ObjectText (cs : List Char) (ms : List (ν × List Char)) : Prop :=
  ∃ inner, Separated (MemberText name) inner ms ∧ cs = '\x7b' :: (inner ++ ['\x7d'])

end

inductive IsValue : List Char → Prop
  | word (w : Word) : IsValue w.spelling
  | number {cs : List Char} {n : Numeral} (h : NumberText cs n) : IsValue cs
  | string {cs : List Char} {ps : List Piece} (h : StringText cs ps) : IsValue cs
  | array {cs : List Char} {vs : List (List Char)} (h : ArrayText cs vs) (hvs : ∀ v ∈ vs, IsValue v) : IsValue cs
  | object {cs : List Char} {ms : List (List Piece × List Char)} (h : ObjectText StringText cs ms)
      (hvalues : ∀ m ∈ ms, IsValue m.2) : IsValue cs

end Kademlia.Json
