/-!
Binary numbers with 53 significant bits, in exact arithmetic on their mantissa and exponent: rounding of a fraction to
the nearest of them, and the number that a decimal with a scale stands for.
-/
namespace Kademlia.Decimal

/-- The number `mantissa * 2 ^ exponent`. -/
structure Binary where
  mantissa : Nat
  exponent : Int
  deriving DecidableEq

namespace Binary

def zero : Binary := ⟨0, -1074⟩

/-- The nearest number to the quotient of two naturals; the even one of two, and none at 2 ^ 1024 and beyond. -/
def nearest (num den : Nat) : Option Binary :=
  if num = 0 ∨ den = 0 then some zero else
  let e₀ : Int := (num.log2 : Int) - den.log2 - 52
  let wide := num * Nat.pow 2 (-e₀).toNat < Nat.pow 2 52 * (den * Nat.pow 2 e₀.toNat)
  let e := max (if wide then e₀ - 1 else e₀) (-1074)
  let n := num * Nat.pow 2 (-e).toNat
  let d := den * Nat.pow 2 e.toNat
  let q := n / d
  let r := n % d
  let m := if d < 2 * r ∨ (2 * r = d ∧ q % 2 = 1) then q + 1 else q
  let b : Binary := if m = Nat.pow 2 53 then ⟨Nat.pow 2 52, e + 1⟩ else ⟨m, e⟩
  if b.exponent ≤ 971 then some b else none

def mul (x y : Binary) : Option Binary :=
  let e := x.exponent + y.exponent
  nearest (x.mantissa * y.mantissa * Nat.pow 2 e.toNat) (Nat.pow 2 (-e).toNat)

def div (x y : Binary) : Option Binary :=
  let e := x.exponent - y.exponent
  nearest (x.mantissa * Nat.pow 2 e.toNat) (y.mantissa * Nat.pow 2 (-e).toNat)

def powerOfTen (k : Nat) : Option Binary := nearest (Nat.pow 10 k) 1

def widestStep : Nat := 308

def shrink : Nat → Binary → Option Binary
  | 0, b => some b
  | n + 1, b => if b.mantissa = 0 then some b else ((powerOfTen widestStep).bind b.div).bind (shrink n)

/-- Multiplies by a power of ten, rounding after each step; none if the result is too large. -/
def scale (b : Binary) (k : Int) : Option Binary :=
  if b.mantissa = 0 then some b
  else if 0 ≤ k then
    if k.toNat ≤ widestStep then (powerOfTen k.toNat).bind b.mul else none
  else
    let n := (-k).toNat
    (shrink (n / widestStep) b).bind fun b => (powerOfTen (n % widestStep)).bind b.div

def ofDecimal (significand : Nat) (k : Int) : Option Binary :=
  match nearest significand 1 with
  | some b => b.scale k
  | none => none

/-- Whether `significand * 10 ^ k` is too large for every number, exactly and not in steps. -/
def overflows (significand : Nat) (k : Int) : Bool :=
  let places : Int := (Nat.toDigits 10 significand).length + k
  if significand = 0 ∨ places < 300 then false
  else if 320 < places then true
  else nearest (significand * Nat.pow 10 k.toNat) (Nat.pow 10 (-k).toNat) = none

end Binary
end Kademlia.Decimal
