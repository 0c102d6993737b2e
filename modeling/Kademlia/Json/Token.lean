import Kademlia.Decimal.Binary
import Kademlia.Json.Value
import Kademlia.Text.Basic

/-!
The tokens of a JSON text. The last token of a text that breaks off or goes wrong inside a token says so, so that a
reader meets the fault only when it comes to that token.
-/
namespace Kademlia.Json
open Text

inductive Fault where
  | unfinished
  | malformed
  /-- What is read so far is JSON, but not what is wanted. -/
  | unsuitable
  deriving DecidableEq

inductive Word where
  | null
  | true
  | false
  deriving DecidableEq

def Word.spelling : Word → List Char
  | .null => ['n', 'u', 'l', 'l']
  | .true => ['t', 'r', 'u', 'e']
  | .false => ['f', 'a', 'l', 's', 'e']

/-- A part of a string: a character, or a unit of UTF-16 that is given by its number. -/
inductive Piece where
  | char (c : Char)
  | unit (u : Nat)
  deriving DecidableEq

structure Numeral where
  negative : Bool
  whole : List Nat
  fraction : Option (List Nat)
  /-- Whether the exponent is negative, and its digits. -/
  exponent : Option (Bool × List Nat)
  deriving DecidableEq

inductive Mark where
  | openList
  | closeList
  | openRecord
  | closeRecord
  | colon
  | comma
  deriving DecidableEq

inductive Token where
  | mark (m : Mark)
  | word (w : Except Fault Word)
  | text (pieces : List Piece) (fault : Option Fault)
  | number (n : Except Fault Numeral)
  | stray

/-! ### Strings -/

def unit? (a b c d : Char) : Option Nat :=
  match hexValue? a, hexValue? b, hexValue? c, hexValue? d with
  | some a, some b, some c, some d => some (4096 * a + 256 * b + 16 * c + d)
  | _, _, _, _ => none

def unescape? (c : Char) : Option Char := if c = '/' then some c else escaped? c

def scanText : List Char → List Piece × Except Fault (List Char)
  | [] => ([], .error .unfinished)
  | '"' :: cs => ([], .ok cs)
  | ['\\'] => ([], .error .unfinished)
  | '\\' :: 'u' :: a :: b :: c :: d :: cs =>
    match unit? a b c d with
    | some u => let (ps, r) := scanText cs; (.unit u :: ps, r)
    | none => ([], .error .malformed)
  | '\\' :: 'u' :: cs =>
    -- four bytes are taken before they are looked at
    ([], .error (if cs.foldr (fun c n => c.utf8Size + n) 0 < 4 then .unfinished else .malformed))
  | '\\' :: c :: cs =>
    match unescape? c with
    | some c => let (ps, r) := scanText cs; (.char c :: ps, r)
    | none => ([], .error .malformed)
  | c :: cs =>
    if c < ' ' then ([], .error .malformed)
    else let (ps, r) := scanText cs; (.char c :: ps, r)

def isLeading (u : Nat) : Bool := 0xd800 ≤ u && u < 0xdc00

def isTrailing (u : Nat) : Bool := 0xdc00 ≤ u && u < 0xe000

/-- Joins the pieces of a string. A leading unit has to be followed by a trailing one, and a trailing one has to follow
a leading one; where the string has a fault of its own, the earlier of the two counts. -/
def joined : List Piece → Option Fault → Except Fault (List Char)
  | [], none => .ok []
  | [], some f => .error f
  | .char c :: ps, f => (joined ps f).map (c :: ·)
  | [.unit u], some f =>
    if isTrailing u then .error .malformed else .error f
  | .unit u :: .unit v :: ps, f =>
    if isLeading u && isTrailing v then
      (joined ps f).map (Char.ofNat (0x10000 + 1024 * (u - 0xd800) + (v - 0xdc00)) :: ·)
    else if isLeading u || isTrailing u then .error .malformed
    else (joined (.unit v :: ps) f).map (Char.ofNat u :: ·)
  | .unit u :: ps, f =>
    if isLeading u || isTrailing u then .error .malformed
    else (joined ps f).map (Char.ofNat u :: ·)

/-! ### Numbers -/

def scanDigits (cs : List Char) : Except Fault (List Nat × List Char) :=
  match cs with
  | [] => .error .unfinished
  | c :: _ =>
    if isDigit c then .ok ((cs.takeWhile isDigit).map digitValue, cs.dropWhile isDigit)
    else .error .malformed

/-- The digits before the point: no zero stands before another digit. -/
def scanWhole (cs : List Char) : Except Fault (List Nat × List Char) :=
  match scanDigits cs with
  | .ok (0 :: _ :: _, _) => .error .malformed
  | r => r

def scanFraction : List Char → Except Fault (Option (List Nat) × List Char)
  | '.' :: cs => (scanDigits cs).map fun (ds, cs) => (some ds, cs)
  | cs => .ok (none, cs)

def scanExponent : List Char → Except Fault (Option (Bool × List Nat) × List Char)
  | c :: cs =>
    if c = 'e' ∨ c = 'E' then
      (scanDigits (scanSign cs).2).map fun (ds, rest) => (some ((scanSign cs).1, ds), rest)
    else .ok (none, c :: cs)
  | [] => .ok (none, [])

def dropMinus : List Char → Bool × List Char
  | '-' :: cs => (true, cs)
  | cs => (false, cs)

def scanNumeral (cs : List Char) : Except Fault (Numeral × List Char) := do
  let whole ← scanWhole (dropMinus cs).2
  let fraction ← scanFraction whole.2
  let exponent ← scanExponent fraction.2
  return (⟨(dropMinus cs).1, whole.1, fraction.1, exponent.1⟩, exponent.2)

def absorb : Nat → List Nat → Nat × List Nat
  | n, [] => (n, [])
  | n, d :: ds => if 10 * n + d < Nat.pow 2 64 then absorb (10 * n + d) ds else (n, d :: ds)

def exponentLimit : Nat := Nat.pow 2 31

def Number.ofDecimal? (negative : Bool) (significand : Nat) (exponent : Int) : Option Number :=
  (Decimal.Binary.ofDecimal significand exponent).map fun _ => .decimal negative significand exponent

/-- The number that is spelled, unless it is too large. What does not fit an integer becomes a decimal, of whose digits
only those count that fit 64 bits. -/
def Numeral.number? (n : Numeral) : Option Number :=
  let (significand, dropped) := absorb 0 n.whole
  match n.fraction, n.exponent, dropped with
  | none, none, [] =>
    if !n.negative then some (.integer significand)
    else if significand = 0 ∨ Nat.pow 2 63 < significand then Number.ofDecimal? true significand 0
    else some (.integer (-significand))
  | _, _, _ =>
    let fraction := n.fraction.getD []
    let (significand, left) := absorb significand fraction
    let place : Int := dropped.length + left.length - fraction.length
    match n.exponent with
    | none => Number.ofDecimal? n.negative significand place
    | some (negative, ds) =>
      let e := ofDigits 10 ds
      if e < exponentLimit then
        Number.ofDecimal? n.negative significand (if negative then place - e else place + e)
      else if significand ≠ 0 ∧ !negative then none
      else some (.decimal n.negative 0 0)

/-! ### Tokens -/

def isBlank (c : Char) : Bool := c = ' ' || c = '\n' || c = '\t' || c = '\r'

def mark? (c : Char) : Option Mark :=
  if c = '[' then some .openList
  else if c = ']' then some .closeList
  else if c = '\x7b' then some .openRecord
  else if c = '\x7d' then some .closeRecord
  else if c = ':' then some .colon
  else if c = ',' then some .comma
  else none

def word? (c : Char) : Option Word :=
  if c = 'n' then some .null
  else if c = 't' then some .true
  else if c = 'f' then some .false
  else none

def scanSpelling : List Char → List Char → Except Fault (List Char)
  | [], cs => .ok cs
  | _ :: _, [] => .error .unfinished
  | w :: ws, c :: cs => if c = w then scanSpelling ws cs else .error .malformed

def scanToken (c : Char) (cs : List Char) : Token × Option (List Char) :=
  match mark? c with
  | some m => (.mark m, some cs)
  | none =>
    if c = '"' then
      match scanText cs with
      | (ps, .ok rest) => (.text ps none, some rest)
      | (ps, .error f) => (.text ps (some f), none)
    else if c = '-' ∨ isDigit c then
      match scanNumeral (c :: cs) with
      | .ok (n, rest) => (.number (.ok n), some rest)
      | .error f => (.number (.error f), none)
    else
      match word? c with
      | some w =>
        match scanSpelling w.spelling (c :: cs) with
        | .ok rest => (.word (.ok w), some rest)
        | .error f => (.word (.error f), none)
      | none => (.stray, none)

/-! Every token takes at least one character. -/

theorem length_scanText {cs rest : List Char} (h : (scanText cs).2 = .ok rest) :
    rest.length ≤ cs.length := by
  fun_induction scanText cs generalizing rest with
  | case2 cs => cases h; simp
  | case4 =>
    rename_i hr ih
    have := ih (by rw [hr]; exact h)
    simp only [List.length_cons]
    omega
  | case7 =>
    rename_i hr ih
    have := ih (by rw [hr]; exact h)
    simp only [List.length_cons]
    omega
  | case10 =>
    rename_i hr ih
    have := ih (by rw [hr]; exact h)
    simp only [List.length_cons]
    omega
  | _ => cases h

theorem length_scanDigits {cs rest : List Char} {ds : List Nat} (h : scanDigits cs = .ok (ds, rest)) :
    rest.length < cs.length := by
  unfold scanDigits at h
  split at h
  · cases h
  · rename_i c cs
    split at h
    · rename_i hc
      cases h
      have := (List.dropWhile_sublist isDigit (l := cs)).length_le
      simp only [List.dropWhile_cons, hc, if_true, List.length_cons]
      omega
    · cases h

theorem length_scanWhole {cs rest : List Char} {ds : List Nat} (h : scanWhole cs = .ok (ds, rest)) :
    rest.length < cs.length := by
  unfold scanWhole at h
  split at h
  · cases h
  · exact length_scanDigits h

theorem length_scanFraction {cs rest : List Char} {ds : Option (List Nat)}
    (h : scanFraction cs = .ok (ds, rest)) : rest.length ≤ cs.length := by
  unfold scanFraction at h
  split at h
  · rename_i cs
    cases hd : scanDigits cs with
    | error f => rw [hd] at h; cases h
    | ok r =>
      rw [hd] at h
      cases h
      have := length_scanDigits hd
      simp only [List.length_cons]
      omega
  · cases h
    exact Nat.le_refl _

theorem length_scanSign (cs : List Char) : (scanSign cs).2.length ≤ cs.length := by
  unfold scanSign
  split <;> simp

theorem length_scanExponent {cs rest : List Char} {e : Option (Bool × List Nat)}
    (h : scanExponent cs = .ok (e, rest)) : rest.length ≤ cs.length := by
  unfold scanExponent at h
  split at h
  · rename_i c cs
    split at h
    · cases hd : scanDigits (scanSign cs).2 with
      | error f => rw [hd] at h; cases h
      | ok r =>
        rw [hd] at h
        cases h
        have := length_scanDigits hd
        have := length_scanSign cs
        simp only [List.length_cons]
        omega
    · cases h
      exact Nat.le_refl _
  · cases h
    exact Nat.le_refl _

theorem length_dropMinus (cs : List Char) : (dropMinus cs).2.length ≤ cs.length := by
  unfold dropMinus
  split <;> simp

theorem length_scanNumeral {cs rest : List Char} {n : Numeral} (h : scanNumeral cs = .ok (n, rest)) :
    rest.length < cs.length := by
  unfold scanNumeral at h
  cases hw : scanWhole (dropMinus cs).2 with
  | error f => rw [hw] at h; cases h
  | ok w =>
    cases hf : scanFraction w.2 with
    | error f => rw [hw] at h; simp only [bind, Except.bind, hf] at h; cases h
    | ok f =>
      cases he : scanExponent f.2 with
      | error f => rw [hw] at h; simp only [bind, Except.bind, hf, he] at h; cases h
      | ok e =>
        rw [hw] at h
        simp only [bind, Except.bind, hf, he, pure, Except.pure] at h
        cases h
        have := length_dropMinus cs
        have := length_scanWhole hw
        have := length_scanFraction hf
        have := length_scanExponent he
        omega

theorem length_scanSpelling {ws cs rest : List Char} (h : scanSpelling ws cs = .ok rest) :
    rest.length + ws.length = cs.length := by
  induction ws generalizing cs with
  | nil => cases h; rfl
  | cons w ws ih =>
    cases cs with
    | nil => cases h
    | cons c cs =>
      rw [scanSpelling] at h
      split at h
      · simp only [List.length_cons, ← ih h]
        omega
      · cases h

theorem length_scanToken {c : Char} {cs rest : List Char} (h : (scanToken c cs).2 = some rest) :
    rest.length ≤ cs.length := by
  unfold scanToken at h
  split at h
  · cases h
    exact Nat.le_refl _
  · split at h
    · split at h
      · rename_i hs
        cases h
        exact length_scanText (by rw [hs])
      · cases h
    · split at h
      · split at h
        · rename_i hs
          cases h
          exact Nat.le_of_lt_succ (length_scanNumeral hs)
        · cases h
      · split at h
        · rename_i w _
          split at h
          · rename_i hs
            cases h
            have := length_scanSpelling hs
            cases w <;> simp [Word.spelling] at this <;> omega
          · cases h
        · cases h

/-- The tokens of a text, up to its end or to the first of them that is broken. -/
def tokens : List Char → List Token
  | [] => []
  | c :: cs =>
    if isBlank c then tokens cs
    else
      match h : (scanToken c cs).2 with
      | some rest =>
        have : rest.length ≤ cs.length := length_scanToken h
        (scanToken c cs).1 :: tokens rest
      | none => [(scanToken c cs).1]
termination_by cs => cs.length
decreasing_by all_goals (simp only [List.length_cons]; omega)

end Kademlia.Json
