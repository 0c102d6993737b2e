import Kademlia.Text.Basic

/-!
The strings of TOML: basic ones, which have escapes, and literal ones, each on a line or over several lines.
-/
namespace Kademlia.Toml
open Text

def isTextChar (c : Char) : Bool := c = '\t' || (' ' ≤ c && c ≠ '\x7f')

def isContent (multiline : Bool) (c : Char) (cs : List Char) : Bool :=
  isTextChar c || (multiline && (c = '\n' || (c = '\r' && cs.head? = some '\n')))

inductive Quote where
  /-- The end, behind that many quotes of the content, with what follows. -/
  | closing (content : Nat) (rest : List Char)
  | content
  | misplaced

/-- What a quote is, by the quotes that follow it. Over several lines three of them close a string, and up to two may
stand before these. -/
def classify (multiline : Bool) (q : Char) (cs : List Char) : Quote :=
  if !multiline then .closing 0 cs
  else
    let more := (cs.takeWhile (· = q)).length
    if more < 2 then .content
    else if more ≤ 4 then .closing (more - 2) (cs.drop more)
    else .misplaced

def keep (c : Char) : Option (List Char × List Char) → Option (List Char × List Char)
  | some (s, rest) => some (c :: s, rest)
  | none => none

def literalBody (multiline : Bool) : List Char → Option (List Char × List Char)
  | [] => none
  | c :: cs =>
    if c = '\'' then
      match classify multiline c cs with
      | .closing n rest => some (List.replicate n c, rest)
      | .content => keep c (literalBody multiline cs)
      | .misplaced => none
    else if isContent multiline c cs then keep c (literalBody multiline cs)
    else none

inductive Mode where
  | plain
  | escaped
  /-- Within the digits of an escape: how many are left, and the number so far. -/
  | number (left value : Nat)
  /-- After a backslash at the end of a line, where blanks and line ends are dropped. -/
  | folding

def isSpace (c : Char) : Bool := c = ' ' || c = '\t'

def dropNewline? : List Char → Option (List Char)
  | '\n' :: cs => some cs
  | '\r' :: '\n' :: cs => some cs
  | _ => none

def atLineEnd (cs : List Char) : Bool := (dropNewline? (cs.dropWhile isSpace)).isSome

def basicBody (multiline : Bool) : Mode → List Char → Option (List Char × List Char)
  | _, [] => none
  | .escaped, c :: cs =>
    if c = 'u' then basicBody multiline (.number 4 0) cs
    else if c = 'U' then basicBody multiline (.number 8 0) cs
    else
      match escaped? c with
      | some d => keep d (basicBody multiline .plain cs)
      | none => if multiline && atLineEnd (c :: cs) then basicBody multiline .folding cs else none
  | .number left value, c :: cs =>
    match hexValue? c with
    | none => none
    | some d =>
      if 1 < left then basicBody multiline (.number (left - 1) (16 * value + d)) cs
      else if (16 * value + d).isValidChar then keep (Char.ofNat (16 * value + d)) (basicBody multiline .plain cs)
      else none
  | mode, c :: cs =>
    match mode, isSpace c || (dropNewline? (c :: cs)).isSome with
    | .folding, true => basicBody multiline .folding cs
    | _, _ =>
      if c = '"' then
        match classify multiline c cs with
        | .closing n rest => some (List.replicate n c, rest)
        | .content => keep c (basicBody multiline .plain cs)
        | .misplaced => none
      else if c = '\\' then basicBody multiline .escaped cs
      else if isContent multiline c cs then keep c (basicBody multiline .plain cs)
      else none

def dropFirstNewline (cs : List Char) : List Char := (dropNewline? cs).getD cs

def scanLineString : List Char → Option (List Char × List Char)
  | '"' :: cs => basicBody false .plain cs
  | '\'' :: cs => literalBody false cs
  | _ => none

def scanString : List Char → Option (List Char × List Char)
  | '"' :: '"' :: '"' :: cs => basicBody true .plain (dropFirstNewline cs)
  | '\'' :: '\'' :: '\'' :: cs => literalBody true (dropFirstNewline cs)
  | cs => scanLineString cs

end Kademlia.Toml
