import Kademlia.Text.Basic

/-!
Dates and times: a date, a time of day, or both with an optional offset.
-/
namespace Kademlia.Toml
open Text

def fixedNumber (n least greatest : Nat) (cs : List Char) : Option (Nat × List Char) :=
  let ds := cs.take n
  let value := ofDigits 10 (ds.map digitValue)
  if ds.length = n ∧ ds.all isDigit ∧ least ≤ value ∧ value ≤ greatest then some (value, cs.drop n) else none

def expect (c : Char) : List Char → Option (List Char)
  | [] => none
  | d :: cs => if d = c then some cs else none

def isLeap (year : Nat) : Bool := year % 4 = 0 && (year % 100 ≠ 0 || year % 400 = 0)

def daysOfMonth (year month : Nat) : Nat :=
  if month = 2 then if isLeap year then 29 else 28
  else if month = 4 ∨ month = 6 ∨ month = 9 ∨ month = 11 then 30
  else 31

def skipDate (cs : List Char) : Option (List Char) := do
  let (year, cs) ← fixedNumber 4 0 9999 cs
  let (month, cs) ← fixedNumber 2 1 12 (← expect '-' cs)
  let (_, cs) ← fixedNumber 2 1 (daysOfMonth year month) (← expect '-' cs)
  return cs

def skipFraction : List Char → List Char
  | '.' :: c :: cs => if isDigit c then cs.dropWhile isDigit else '.' :: c :: cs
  | cs => cs

/-- What follows a time of day; a minute may have a leap second. -/
def skipTime (cs : List Char) : Option (List Char) := do
  let (_, cs) ← fixedNumber 2 0 23 cs
  let (_, cs) ← fixedNumber 2 0 59 (← expect ':' cs)
  let (_, cs) ← fixedNumber 2 0 60 (← expect ':' cs)
  return skipFraction cs

def skipOffset : List Char → Option (List Char)
  | [] => some []
  | c :: cs =>
    if c = 'Z' ∨ c = 'z' then some cs
    else if c = '+' ∨ c = '-' then do
      let (_, cs) ← fixedNumber 2 0 23 cs
      let (_, cs) ← fixedNumber 2 0 59 (← expect ':' cs)
      return cs
    else some (c :: cs)

def skipTimeOfDate : List Char → Option (List Char)
  | [] => some []
  | c :: cs =>
    if c = 'T' ∨ c = 't' ∨ c = ' ' then
      match skipTime cs with
      | some rest => skipOffset rest
      | none => some (c :: cs)
    else some (c :: cs)

def skipMoment (cs : List Char) : Option (List Char) :=
  match skipDate cs with
  | some rest => skipTimeOfDate rest
  | none => skipTime cs

end Kademlia.Toml
