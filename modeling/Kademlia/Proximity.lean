import Kademlia.Address.Basic

/-!
Closeness of two addresses: the number of leading bits they share, and the order of the distances to a target.
-/
namespace Kademlia

def leadingZeros (b : UInt8) : Nat :=
  if b = 0 then 8 else 7 - b.toNat.log2

def sharedBits : List UInt8 → List UInt8 → Nat
  | x :: xs, y :: ys => if x = y then 8 + sharedBits xs ys else leadingZeros (x ^^^ y)
  | _, _ => 0

theorem sharedBits_self (xs : List UInt8) : sharedBits xs xs = 8 * xs.length := by
  induction xs with
  | nil => rfl
  | cons x xs ih => simp [sharedBits, ih]; omega

theorem sharedBits_comm (xs ys : List UInt8) : sharedBits xs ys = sharedBits ys xs := by
  induction xs generalizing ys with
  | nil => cases ys <;> rfl
  | cons x xs ih =>
    cases ys with
    | nil => rfl
    | cons y ys => simp only [sharedBits, ih ys, UInt8.xor_comm x y, eq_comm (a := x)]

def compareDistances : List UInt8 → List UInt8 → List UInt8 → Ordering
  | t :: ts, x :: xs, y :: ys => (compare (x ^^^ t) (y ^^^ t)).then (compareDistances ts xs ys)
  | _, _, _ => .eq

namespace Address

def proximity (a b : Address) : Nat := sharedBits a.bytes b.bytes

theorem proximity_self (a : Address) : a.proximity a = 256 := by
  rw [proximity, sharedBits_self, a.length_bytes]

theorem proximity_comm (a b : Address) : a.proximity b = b.proximity a :=
  sharedBits_comm _ _

def distance (a b : Address) : Address :=
  ⟨List.zipWith (· ^^^ ·) a.bytes b.bytes, by simp [a.length_bytes, b.length_bytes]⟩

/-- Compares the distances of `a` and `b` to the target: `lt` when `a` is the closer one. -/
def compareToward (target a b : Address) : Ordering :=
  compareDistances target.bytes a.bytes b.bytes

def sortToward (target : Address) (as : List Address) : List Address :=
  as.mergeSort fun a b => (target.compareToward a b).isLE

def closest (target : Address) (as : List Address) (k : Nat) : List Address :=
  (target.sortToward as).take k

end Address

def sign : Ordering → Int
  | .lt => -1
  | .eq => 0
  | .gt => 1

end Kademlia
