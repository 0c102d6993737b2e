import Kademlia.Decimal.Binary

/-!
The shortest decimal text of a binary number: of all decimals that are rounded to the number, those with the fewest
digits, and of these the nearest.
-/
namespace Kademlia.Decimal

namespace Binary

/-- Four times the ends of the interval of numbers that are rounded to `b`, in units of the last place. Below a power
of two the neighbour is only half as far. -/
def ends (b : Binary) : Nat × Nat :=
  let m := b.mantissa
  (if m = Nat.pow 2 52 ∧ -1074 < b.exponent then 4 * m - 1 else 4 * m - 2, 4 * m + 2)

def gridPoint? (b : Binary) (k : Int) : Option Nat :=
  let e := b.exponent - 2
  let unit := Nat.pow 2 e.toNat * Nat.pow 10 (-k).toNat
  let step := Nat.pow 2 (-e).toNat * Nat.pow 10 k.toNat
  let value := 4 * b.mantissa * unit
  let inside (c : Nat) : Bool :=
    if b.mantissa % 2 = 0 then b.ends.1 * unit ≤ c * step && c * step ≤ b.ends.2 * unit
    else b.ends.1 * unit < c * step && c * step < b.ends.2 * unit
  let c := value / step
  match inside c, inside (c + 1) with
  | false, false => none
  | true, false => some c
  | false, true => some (c + 1)
  | true, true =>
    let below := value - c * step
    let above := (c + 1) * step - value
    if below < above ∨ (below = above ∧ c % 2 = 0) then some c else some (c + 1)

/-- A power of ten that is larger than the number, but not by much. -/
def topPlace (b : Binary) : Int := (b.mantissa.log2 + 1 + b.exponent) * 30103 / 100000 + 1

def shortest (b : Binary) : Nat × Int :=
  let grids := (List.range 20).map fun i => b.topPlace - Int.ofNat i
  (grids.findSome? fun k => (b.gridPoint? k).map (·, k)).getD (0, 0)

end Binary

def plainPlaces : Int := 16

def plainZeros : Int := 5

def exponentText (e : Int) : List Char :=
  'e' :: (if e < 0 then '-' else '+') :: Nat.toDigits 10 e.natAbs

def pointText (digits : List Char) (k : Int) : List Char :=
  let n : Int := digits.length
  let point := n + k
  if 0 ≤ k ∧ point ≤ plainPlaces then
    digits ++ List.replicate k.toNat '0' ++ ['.', '0']
  else if 0 < point ∧ point ≤ plainPlaces then
    digits.take point.toNat ++ '.' :: digits.drop point.toNat
  else if -plainZeros < point ∧ point ≤ 0 then
    '0' :: '.' :: List.replicate (-point).toNat '0' ++ digits
  else
    let fraction := if digits.length = 1 then [] else '.' :: digits.drop 1
    digits.take 1 ++ fraction ++ exponentText (point - 1)

def text (negative : Bool) (b : Binary) : String :=
  let body :=
    if b.mantissa = 0 then ['0', '.', '0']
    else pointText (Nat.toDigits 10 b.shortest.1) b.shortest.2
  String.ofList (if negative then '-' :: body else body)

end Kademlia.Decimal
