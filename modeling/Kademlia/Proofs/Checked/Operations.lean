import Kademlia.Proximity

/-!
Operations that stop the program where they are not defined: a byte shifted by its width or more, a size below zero or
beyond 64 bits, a place outside of an array. A result is there only if all of them went well.
-/
namespace Kademlia.Checked

def require {α : Type} (c : Prop) [Decidable c] (a : α) : Option α := if c then some a else none

@[simp] theorem require_of {α : Type} {c : Prop} [Decidable c] (h : c) (a : α) : require c a = some a := if_pos h

def shiftLeft (b : UInt8) (k : Nat) : Option UInt8 := require (k < 8) (b <<< k.toUInt8)

def shiftRight (b : UInt8) (k : Nat) : Option UInt8 := require (k < 8) (b >>> k.toUInt8)

def add (m n : Nat) : Option Nat := require (m + n < 18446744073709551616) (m + n)

def mul (m n : Nat) : Option Nat := require (m * n < 18446744073709551616) (m * n)

def sub (m n : Nat) : Option Nat := require (n ≤ m) (m - n)

def write (bs : List UInt8) (i : Nat) (b : UInt8) : Option (List UInt8) := require (i < bs.length) (bs.set i b)

def sliceFrom (bs : List UInt8) (start : Nat) : Option (List UInt8) := require (start ≤ bs.length) (bs.drop start)

def sliceTo (bs : List UInt8) (stop : Nat) : Option (List UInt8) := require (stop ≤ bs.length) (bs.take stop)

/-- The bytes of the source in the place of those of the target, which must be as many. -/
def copy (target source : List UInt8) : Option (List UInt8) := require (source.length = target.length) source

theorem write_eq {bs : List UInt8} {i : Nat} (hi : i < bs.length) (b : UInt8) :
    write bs i b = some (bs.take i ++ b :: bs.drop (i + 1)) := by
  rw [write, require_of hi, List.set_eq_take_append_cons_drop, if_pos hi]

theorem sliceFrom_append {front : List UInt8} {start : Nat} (hstart : start = front.length + 1) (b : UInt8)
    (back : List UInt8) : sliceFrom (front ++ b :: back) start = some back := by
  have hlen : (front ++ [b]).length = start := by simp [hstart]
  rw [List.append_cons, sliceFrom, require_of (by simp [hstart]), List.drop_left' hlen]

theorem sliceTo_append {front : List UInt8} {stop : Nat} (hstop : stop = front.length + 1) (b : UInt8)
    (back : List UInt8) : sliceTo (front ++ b :: back) stop = some (front ++ [b]) := by
  have hlen : (front ++ [b]).length = stop := by simp [hstop]
  rw [List.append_cons, sliceTo, require_of (by simp [hstop]), List.take_left' hlen]

/-- The bit that a shift brings to the lowest place. -/
theorem shiftRight_and_one (b : UInt8) {k : Nat} (hk : k < 8) :
    ((b >>> k.toUInt8) &&& 1 == 1) = b.toNat.testBit k := by
  have hshift : k.toUInt8.toNat % 8 = k := by
    rw [Nat.toUInt8_eq, UInt8.toNat_ofNat']
    omega
  rw [Bool.eq_iff_iff, beq_iff_eq, ← UInt8.toNat_inj, UInt8.toNat_and, UInt8.toNat_shiftRight, hshift,
    Nat.testBit_eq_decide_div_mod_eq, decide_eq_true_eq, Nat.shiftRight_eq_div_pow]
  exact Iff.of_eq (congrArg (· = 1) (Nat.and_one_is_mod _))

end Kademlia.Checked
