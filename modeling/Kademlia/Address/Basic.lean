/-!
Addresses, the points of a space of 256-bit identifiers: 32 bytes, highest byte first, and in each byte the
highest bit first. Bits and numbers are those of any list of bytes.
-/
namespace Kademlia

def byteBit (b : UInt8) (i : Nat) : Bool := b.toBitVec.getMsbD i

/-- Bit `i`, counted from the highest bit of the first byte; past the last bit it reads as `false`. -/
def bitOf (bs : List UInt8) (i : Nat) : Bool := byteBit (bs.getD (i / 8) 0) (i % 8)

def numberOf (bs : List UInt8) : Nat := bs.foldl (fun n b => 256 * n + b.toNat) 0

structure Address where
  bytes : List UInt8
  length_bytes : bytes.length = 32
  deriving DecidableEq

namespace Address

def ofBytes? (bs : List UInt8) : Option Address :=
  if h : bs.length = 32 then some ⟨bs, h⟩ else none

theorem ofBytes?_bytes (a : Address) : ofBytes? a.bytes = some a := by
  simp [ofBytes?, a.length_bytes]

def zero : Address := ⟨List.replicate 32 0, List.length_replicate⟩

instance : Inhabited Address := ⟨zero⟩

/-- The address that starts with the given bytes: zeros follow a short list, a long one is cut. -/
def ofLeading (bs : List UInt8) : Address :=
  ⟨(bs ++ List.replicate 32 0).take 32, by simp⟩

def bit (a : Address) (i : Nat) : Bool := bitOf a.bytes i

def bitMask (i : Nat) : UInt8 := 0x80 >>> i.toUInt8

/-- The address with bit `i` inverted; past the last bit nothing changes. -/
def flipBit (a : Address) (i : Nat) : Address :=
  ⟨a.bytes.modify (i / 8) (· ^^^ bitMask (i % 8)), by simp [a.length_bytes]⟩

def toNat (a : Address) : Nat := numberOf a.bytes

@[ext] theorem ext_bytes {a b : Address} (h : a.bytes = b.bytes) : a = b := by
  cases a
  cases b
  simpa using h

end Address
end Kademlia
