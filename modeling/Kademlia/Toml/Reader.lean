import Kademlia.Decimal.Binary
import Kademlia.Toml.Moment
import Kademlia.Toml.Table
import Kademlia.Toml.Text

/-!
Reading a TOML document. A reader takes something from the start of a text and yields it with what follows.
-/
namespace Kademlia.Toml
open Text

def skipSpaces (cs : List Char) : List Char := cs.dropWhile isSpace

/-! ### Numbers -/

/-- The rest of a run of digits, single underscores between them being dropped. -/
def digitRun (p : Char → Bool) : List Char → List Char × List Char
  | '_' :: c :: cs =>
    if p c then let (ds, rest) := digitRun p cs; (c :: ds, rest) else ([], '_' :: c :: cs)
  | c :: cs => if p c then let (ds, rest) := digitRun p cs; (c :: ds, rest) else ([], c :: cs)
  | [] => ([], [])

def digits (p : Char → Bool) : List Char → Option (List Char × List Char)
  | c :: cs => if p c then let (ds, rest) := digitRun p cs; some (c :: ds, rest) else none
  | [] => none

def integer? (negative : Bool) (n : Nat) : Option Value :=
  if negative then if n ≤ Nat.pow 2 63 then some (.integer (-n)) else none
  else if n < Nat.pow 2 63 then some (.integer n) else none

def basedInteger (base : Nat) (cs : List Char) : Option (Value × List Char) := do
  let inBase (c : Char) : Bool := ((hexValue? c).getD base) < base
  let (ds, rest) ← digits inBase cs
  return (← integer? false (ofDigits base (ds.filterMap hexValue?)), rest)

def wholeDigits : List Char → Option (List Char × List Char)
  | '0' :: cs => some (['0'], cs)
  | cs => digits isDigit cs

def fractionDigits : List Char → Option (List Char × List Char)
  | '.' :: cs => digits isDigit cs
  | cs => some ([], cs)

def exponentDigits : List Char → Option ((Bool × List Char) × List Char)
  | c :: cs =>
    if c = 'e' ∨ c = 'E' then (digits isDigit (scanSign cs).2).map fun (ds, rest) => (((scanSign cs).1, ds), rest)
    else some ((false, []), c :: cs)
  | [] => some ((false, []), [])

def spelling (cs rest : List Char) : String := String.ofList (cs.take (cs.length - rest.length))

def decimal (cs : List Char) : Option (Value × List Char) := do
  let (negative, unsigned) := scanSign cs
  let (whole, afterWhole) ← wholeDigits unsigned
  let (fraction, afterFraction) ← fractionDigits afterWhole
  let ((down, exponent), rest) ← exponentDigits afterFraction
  if fraction.isEmpty ∧ exponent.isEmpty then
    return (← integer? negative (ofDigits 10 (whole.map digitValue)), rest)
  else
    let size : Int := ofDigits 10 (exponent.map digitValue)
    let place := (if down then -size else size) - fraction.length
    if !negative && Decimal.Binary.overflows (ofDigits 10 ((whole ++ fraction).map digitValue)) place then none
    else return (.float (spelling cs rest), rest)

def specialFloat (cs : List Char) : Option (Value × List Char) :=
  match (scanSign cs).2 with
  | 'i' :: 'n' :: 'f' :: rest | 'n' :: 'a' :: 'n' :: rest => some (.float (spelling cs rest), rest)
  | _ => none

def number : List Char → Option (Value × List Char)
  | '0' :: 'x' :: cs => basedInteger 16 cs
  | '0' :: 'o' :: cs => basedInteger 8 cs
  | '0' :: 'b' :: cs => basedInteger 2 cs
  | cs => (specialFloat cs).or (decimal cs)

/-! ### Values -/

def scalar : List Char → Option (Value × List Char)
  | 't' :: 'r' :: 'u' :: 'e' :: cs => some (.boolean true, cs)
  | 'f' :: 'a' :: 'l' :: 's' :: 'e' :: cs => some (.boolean false, cs)
  | cs =>
    match cs with
    | '"' :: _ | '\'' :: _ => (scanString cs).map fun (s, rest) => (.string (String.ofList s), rest)
    | _ =>
      match skipMoment cs with
      | some rest => some (.moment (spelling cs rest), rest)
      | none => number cs

def skipLines (inComment : Bool) : List Char → List Char
  | [] => []
  | c :: cs =>
    if (dropNewline? (c :: cs)).isSome then skipLines false cs
    else if inComment then if isTextChar c then skipLines true cs else c :: cs
    else if isSpace c then skipLines false cs
    else if c = '#' then skipLines true cs
    else c :: cs

def elements (value : List Char → Option (Value × List Char)) (cs : List Char) : Option (List Value × List Char) :=
  match skipLines false cs with
  | ']' :: rest => some ([], rest)
  | start =>
    match value start with
    | none => none
    | some (v, rest) =>
      match skipLines false rest with
      | ']' :: rest => some ([v], rest)
      | ',' :: rest =>
        if rest.length < cs.length then (elements value rest).map fun (vs, rest) => (v :: vs, rest) else none
      | _ => none
termination_by cs.length

/-- Keys have fewer parts than this, and values are nested less deep. -/
def depthLimit : Nat := 80

def isBareChar (c : Char) : Bool := c.isAlphanum || c = '_' || c = '-'

def simpleKey : List Char → Option (String × List Char)
  | [] => none
  | c :: cs =>
    if c = '"' ∨ c = '\'' then (scanLineString (c :: cs)).map fun (s, rest) => (String.ofList s, rest)
    else if isBareChar c then
      some (String.ofList (c :: cs.takeWhile isBareChar), cs.dropWhile isBareChar)
    else none

def keyParts (cs : List Char) : Option (List String × List Char) :=
  match simpleKey (skipSpaces cs) with
  | none => none
  | some (k, rest) =>
    match skipSpaces rest with
    | '.' :: rest => if rest.length < cs.length then (keyParts rest).map fun (ks, rest) => (k :: ks, rest) else none
    | rest => some ([k], rest)
termination_by cs.length

def scanKey (cs : List Char) : Option ((List String × String) × List Char) := do
  let (ks, rest) ← keyParts cs
  if depthLimit ≤ ks.length then none else return ((ks.dropLast, ← ks.getLast?), rest)

def scanPair (value : List Char → Option (Value × List Char)) (cs : List Char) : Option (Pair × List Char) := do
  let ((path, key), rest) ← scanKey cs
  let (v, rest) ← value (skipSpaces (← expect '=' rest))
  return (⟨path, key, v⟩, skipSpaces rest)

/-- The pairs between braces up to the closing one, all of them on one line and no comma behind the last. -/
def inlinePairs (value : List Char → Option (Value × List Char)) (cs : List Char) : Option (List Pair × List Char) :=
  match scanPair value cs with
  | none => none
  | some (p, rest) =>
    match rest with
    | '\x7d' :: rest => some ([p], rest)
    | ',' :: rest =>
      if rest.length < cs.length then (inlinePairs value rest).map fun (ps, rest) => (p :: ps, rest) else none
    | _ => none
termination_by cs.length

def inlineTable (value : List Char → Option (Value × List Char)) (cs : List Char) : Option (Value × List Char) :=
  match skipSpaces cs with
  | '\x7d' :: rest => some (.table .inline [], rest)
  | cs =>
    match inlinePairs value cs with
    | some (ps, rest) =>
      match Value.ofPairs ps with
      | .ok v => some (v, rest)
      | .error _ => none
    | none => none

def scanValue : (depth : Nat) → List Char → Option (Value × List Char)
  | depth + 1, '[' :: cs => (elements (scanValue depth) cs).map fun (vs, rest) => (.array vs, rest)
  | depth + 1, '\x7b' :: cs => inlineTable (scanValue depth) cs
  | _, cs => scalar cs

/-! ### Statements -/

def skipLineEnd (cs : List Char) : Option (List Char) :=
  let rest := match skipSpaces cs with
    | '#' :: cs => cs.dropWhile isTextChar
    | cs => cs
  if rest.isEmpty then some [] else dropNewline? rest

def scanStatement : List Char → Option (Statement × List Char)
  | '[' :: '[' :: cs => do
    let ((path, key), rest) ← scanKey cs
    return (.element path key, ← expect ']' (← expect ']' rest))
  | '[' :: cs => do
    let ((path, key), rest) ← scanKey cs
    return (.table path key, ← expect ']' rest)
  | cs => do
    let (p, rest) ← scanPair (scanValue (depthLimit - 1)) cs
    return (.pair p, rest)

def scanLine (cs : List Char) : Option (Option Statement × List Char) :=
  match skipLineEnd cs with
  | some rest => some (none, rest)
  | none => do
    let (s, rest) ← scanStatement (skipSpaces cs)
    return (some s, ← skipLineEnd rest)

def lineNumber (text rest : List Char) : Nat := 1 + text.count '\n' - rest.count '\n'

/-- The statements of `cs`, which is the end of the text. -/
def scanStatements (text cs : List Char) : Except Fault (List Statement) :=
  if cs = [] then .ok []
  else
    match scanLine cs with
    | none => .error (.malformed (lineNumber text cs))
    | some (s, rest) =>
      if rest.length < cs.length then (scanStatements text rest).map (s.toList ++ ·)
      else .error (.malformed (lineNumber text cs))
termination_by cs.length

def dropByteOrderMark : List Char → List Char
  | '\ufeff' :: cs => cs
  | cs => cs

def parse (text : String) : Except Fault Entries := do
  let cs := dropByteOrderMark text.toList
  let d ← Document.ofStatements (← scanStatements cs cs)
  return d.entries

end Kademlia.Toml
