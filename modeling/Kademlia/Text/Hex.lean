import Kademlia.Text.Basic

/-!
Hexadecimal text: two digits for each byte, written in lower case and read in either.
-/
namespace Kademlia.Text.Hex

def digit (n : Nat) : Char := Nat.digitChar n

def encode : List UInt8 → List Char
  | [] => []
  | b :: bs => digit (b.toNat / 16) :: digit (b.toNat % 16) :: encode bs

theorem length_encode (bs : List UInt8) : (encode bs).length = 2 * bs.length := by
  induction bs with
  | nil => rfl
  | cons b bs ih => simp only [encode, List.length_cons, ih]; omega

def value? (c : UInt8) : Option UInt8 := (hexValue? (Char.ofUInt8 c)).map UInt8.ofNat

structure BadDigit where
  byte : UInt8
  index : Nat

/-- The values of the digits of a text given by its bytes, the first of which stands at `index`. -/
def values (index : Nat) : List UInt8 → Except BadDigit (List UInt8)
  | [] => .ok []
  | c :: cs =>
    match value? c with
    | none => .error ⟨c, index⟩
    | some v =>
      match values (index + 1) cs with
      | .ok vs => .ok (v :: vs)
      | .error e => .error e

theorem length_values {cs vs : List UInt8} {index : Nat} (h : values index cs = .ok vs) :
    vs.length = cs.length := by
  induction cs generalizing index vs with
  | nil => cases h; rfl
  | cons c cs ih =>
    simp only [values] at h
    split at h
    · cases h
    · split at h
      · rename_i hv
        cases h
        simp [ih hv]
      · cases h

def pairs : List UInt8 → List UInt8
  | h :: l :: vs => (16 * h + l) :: pairs vs
  | _ => []

theorem length_pairs : (vs : List UInt8) → (pairs vs).length = vs.length / 2
  | [] => rfl
  | [_] => by simp [pairs]
  | _ :: _ :: vs => by simp only [pairs, List.length_cons, length_pairs vs]; omega

end Kademlia.Text.Hex
