import Kademlia.Address.Basic
import Kademlia.Address.Error
import Kademlia.Text.Hex
import Kademlia.Text.Quoted

/-!
The textual forms of an address: 64 hexadecimal digits, which are also read back, and 256 binary ones.
-/
namespace Kademlia.Address
open Text

def hexChars (a : Address) : List Char := Hex.encode a.bytes

def toHex (a : Address) : String := String.ofList a.hexChars

theorem length_hexChars (a : Address) : a.hexChars.length = 64 := by
  rw [hexChars, Hex.length_encode, a.length_bytes]

def binaryDigits (b : UInt8) : List Char :=
  (List.range 8).map fun i => if byteBit b i then '1' else '0'

def binChars (a : Address) : List Char := a.bytes.flatMap binaryDigits

def toBin (a : Address) : String := String.ofList a.binChars

def toMarkedHex (a : Address) : String := "0x" ++ a.toHex

def dropMark : List Char → List Char
  | '0' :: 'x' :: s => s
  | '0' :: 'X' :: s => s
  | s => s

def utf8 (s : List Char) : List UInt8 := s.flatMap String.utf8EncodeChar

inductive Misspelling where
  | wrongLength (got : Nat)
  | badDigit (byte : UInt8) (index : Nat)

def Misspelling.message : Misspelling → String
  | .wrongLength got => s!"expected 64 hex characters, got {got}"
  | .badDigit byte index =>
    "Invalid character " ++ quotedChar (Char.ofUInt8 byte) ++ s!" at position {index}"

/-- Reads 64 hexadecimal digits, given by their bytes; the first fault from the left is reported. -/
def ofDigits (ds : List UInt8) : Except Misspelling Address :=
  if hd : ds.length = 64 then
    match hv : Hex.values 0 ds with
    | .ok vs => .ok ⟨Hex.pairs vs, by rw [Hex.length_pairs, Hex.length_values hv, hd]⟩
    | .error e => .error (.badDigit e.byte e.index)
  else .error (.wrongLength ds.length)

def parse (s : String) : Except AddressError Address :=
  match ofDigits (utf8 (dropMark s.toList)) with
  | .ok a => .ok a
  | .error e => .error (.invalidEncoding e.message)

def ofBytes (bs : List UInt8) : Except AddressError Address :=
  match ofBytes? bs with
  | some a => .ok a
  | none => .error (.invalidLength 32 bs.length)

end Kademlia.Address
