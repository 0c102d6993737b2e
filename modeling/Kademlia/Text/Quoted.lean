import Kademlia.Text.Printable

/-!
Quoted text for diagnostics: a quote, a backslash and every character without a visible form of its own is escaped.
-/
namespace Kademlia.Text

def codePointEscape (c : Char) : List Char :=
  ['\\', 'u', '\x7b'] ++ Nat.toDigits 16 c.toNat ++ ['\x7d']

/-- A character as it stands inside quotes of the kind `quote`; the other kind of quote is left as it is. -/
def escape (quote c : Char) : List Char :=
  if c = '\x00' then ['\\', '0']
  else if c = '\t' then ['\\', 't']
  else if c = '\n' then ['\\', 'n']
  else if c = '\r' then ['\\', 'r']
  else if c = quote then ['\\', c]
  else if c = '\\' then ['\\', '\\']
  else if isPrintable c then [c]
  else codePointEscape c

def quotedChars (s : List Char) : List Char :=
  '"' :: s.flatMap (escape '"') ++ ['"']

def quoted (s : String) : String := String.ofList (quotedChars s.toList)

def quotedChar (c : Char) : String := String.ofList ('\'' :: escape '\'' c ++ ['\''])

end Kademlia.Text
