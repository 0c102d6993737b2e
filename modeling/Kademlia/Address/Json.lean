import Kademlia.Address.Text
import Kademlia.Json.Decode
import Kademlia.Json.Printer
import Kademlia.Json.Record

/-!
An address in JSON is the string of its hexadecimal digits.
-/
namespace Kademlia.Address
open Json

def toJson (a : Address) : Value := .string a.toHex

def ofJson : Value → Except DecodeError Address
  | .string s =>
    match parse s with
    | .ok a => .ok a
    | .error e => .error (.content e.message)
  | v => .error (.wrongType v "a 64 character hex string")

def ofToken (t : Token) : Except Fault Address :=
  match t.string with
  | .ok s =>
    match parse s with
    | .ok a => .ok a
    | .error _ => .error .unsuitable
  | .error f => .error f

def parseJson (text : String) : Except Fault Address := parseScalar ofToken text

end Kademlia.Address
