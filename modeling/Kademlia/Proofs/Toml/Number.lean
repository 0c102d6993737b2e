import Kademlia.Proofs.Json.Printer
import Kademlia.Toml.Reader

/-!
Natural numbers in decimal, whose digits are those of a number in JSON. No date or time begins as such a number does when
a blank, a line end or a mark stands behind it, so that it is read as an integer; one that does not fit is no value.
-/
namespace Kademlia.Toml
open Text
open Json (Digits WholePart forall_digit ofDigits_toDigits wholePart_toDigits)

def delimiters : List Char := [' ', '\t', '\n', '\r', '#', ',', ']', '\x7d']

def Delimited (rest : List Char) : Prop := ∀ c ∈ rest.head?, c ∈ delimiters

theorem isDigit_of_append_eq {ds rest cs : List Char} {c : Char} (hds : Digits ds) (h : ds ++ rest = c :: cs) :
    isDigit c = true := by
  obtain ⟨hne, hall⟩ := hds
  cases ds with
  | nil => exact absurd rfl hne
  | cons d ds =>
    cases h
    exact hall c List.mem_cons_self

theorem scanSign_append {ds : List Char} (hds : Digits ds) (rest : List Char) :
    scanSign (ds ++ rest) = (false, ds ++ rest) :=
  Json.scanSign_append (List.mem_cons_self : ([], false) ∈ Json.exponentSigns) hds rest

theorem specialFloat_append {ds : List Char} (hds : Digits ds) (rest : List Char) : specialFloat (ds ++ rest) = none := by
  rw [specialFloat, scanSign_append hds]
  split
  · next h => exact absurd (isDigit_of_append_eq hds h) Bool.false_ne_true
  · next h => exact absurd (isDigit_of_append_eq hds h) Bool.false_ne_true
  · rfl

section
variable {ds rest : List Char} (hrest : Delimited rest)
include hrest

theorem digitRun_append (hds : ∀ c ∈ ds, isDigit c = true) : digitRun isDigit (ds ++ rest) = (ds, rest) := by
  induction ds with
  | nil =>
    cases rest with
    | nil => rfl
    | cons c rest =>
      have hmark : ∀ c ∈ delimiters, isDigit c = false ∧ c ≠ '_' := forall_mem_of_all (by decide)
      obtain ⟨hc, hunderscore⟩ := hmark c (hrest c rfl)
      rw [List.nil_append, digitRun, hc]
      · rfl
      · rintro d ds rfl
        exact absurd rfl hunderscore
  | cons d ds ih =>
    have hd := hds d List.mem_cons_self
    have hunderscore : d ≠ '_' := forall_digit (p := fun d => d ≠ '_') (by decide) hd
    rw [List.cons_append, digitRun, if_pos hd, ih fun c hc => hds c (List.mem_cons_of_mem d hc)]
    rintro c cs rfl
    exact absurd rfl hunderscore

theorem digits_append (hds : Digits ds) : digits isDigit (ds ++ rest) = some (ds, rest) := by
  obtain ⟨hne, hall⟩ := hds
  cases ds with
  | nil => exact absurd rfl hne
  | cons d ds =>
    rw [List.cons_append, digits, if_pos (hall d List.mem_cons_self),
      digitRun_append hrest fun c hc => hall c (List.mem_cons_of_mem d hc)]

theorem wholeDigits_append (hds : WholePart ds) : wholeDigits (ds ++ rest) = some (ds, rest) := by
  cases hds with
  | zero => rfl
  | @digits d ds hd h =>
    rw [← digits_append hrest h, List.cons_append, wholeDigits]
    rintro cs ⟨⟩
    exact absurd rfl hd

/-! ### No date or time -/

theorem fixedNumber_append {n least greatest value : Nat} {cs : List Char}
    (h : fixedNumber n least greatest (ds ++ rest) = some (value, cs)) : cs = ds.drop n ++ rest := by
  simp only [fixedNumber, Option.ite_none_right_eq_some, Option.some.injEq, Prod.mk.injEq] at h
  obtain ⟨⟨hlength, hdigits, -⟩, -, rfl⟩ := h
  have hn : n ≤ ds.length := by
    apply Nat.le_of_not_lt
    intro hn
    -- the first character behind the digits would be one of them
    cases rest with
    | nil =>
      rw [List.append_nil, List.length_take] at hlength
      omega
    | cons c rest =>
      have hmark : ∀ c ∈ delimiters, isDigit c = false := forall_mem_of_all (by decide)
      have hmem : c ∈ (ds ++ c :: rest).take n := by
        rw [List.take_append, List.mem_append]
        have hpos : n - ds.length = n - ds.length - 1 + 1 := by omega
        rw [hpos, List.take_succ_cons]
        exact Or.inr List.mem_cons_self
      exact Bool.false_ne_true ((hmark c (hrest c rfl)).symm.trans (List.all_eq_true.mp hdigits c hmem))
  rw [List.drop_append_of_le_length hn]

theorem expect_append (hds : ∀ c ∈ ds, isDigit c = true) {c : Char} (hc : isDigit c = false) (hmark : c ∉ delimiters) :
    expect c (ds ++ rest) = none := by
  cases ds with
  | nil =>
    cases rest with
    | nil => rfl
    | cons d rest =>
      have hd : d ≠ c := fun h => hmark (h ▸ hrest d rfl)
      rw [List.nil_append, expect, if_neg hd]
  | cons d ds =>
    have hd : d ≠ c := fun h => Bool.false_ne_true (hc.symm.trans (h ▸ hds d List.mem_cons_self))
    rw [List.cons_append, expect, if_neg hd]

theorem expect_fixedNumber_append (hds : ∀ c ∈ ds, isDigit c = true) {n least greatest : Nat} {p : Nat × List Char}
    (h : fixedNumber n least greatest (ds ++ rest) = some p) {c : Char} (hc : isDigit c = false)
    (hmark : c ∉ delimiters) : expect c p.2 = none := by
  rw [fixedNumber_append hrest h]
  exact expect_append hrest (fun c hc => hds c (List.mem_of_mem_drop hc)) hc hmark

theorem skipDate_append (hds : ∀ c ∈ ds, isDigit c = true) : skipDate (ds ++ rest) = none := by
  rw [skipDate]
  cases h : fixedNumber 4 0 9999 (ds ++ rest) with
  | none => rfl
  | some p =>
    have hdash := expect_fixedNumber_append hrest hds h (c := '-') rfl (by decide)
    simp only [bind, Option.bind, hdash]

theorem skipTime_append (hds : ∀ c ∈ ds, isDigit c = true) : skipTime (ds ++ rest) = none := by
  rw [skipTime]
  cases h : fixedNumber 2 0 23 (ds ++ rest) with
  | none => rfl
  | some p =>
    have hcolon := expect_fixedNumber_append hrest hds h (c := ':') rfl (by decide)
    simp only [bind, Option.bind, hcolon]

theorem skipMoment_append (hds : ∀ c ∈ ds, isDigit c = true) : skipMoment (ds ++ rest) = none := by
  rw [skipMoment, skipDate_append hrest hds]
  exact skipTime_append hrest hds

/-! ### Integers -/

theorem decimal_append (hds : WholePart ds) : decimal (ds ++ rest) =
    (integer? false (ofDigits 10 (ds.map digitValue))).map fun v => (v, rest) := by
  have hmark : ∀ c ∈ delimiters, c ≠ '.' ∧ ¬(c = 'e' ∨ c = 'E') := forall_mem_of_all (by decide)
  have hfraction : fractionDigits rest = some ([], rest) := by
    rw [fractionDigits]
    rintro cs rfl
    exact (hmark '.' (hrest '.' rfl)).1 rfl
  have hexponent : exponentDigits rest = some ((false, []), rest) := by
    cases rest with
    | nil => rfl
    | cons c rest => rw [exponentDigits, if_neg (hmark c (hrest c rfl)).2]
  simp only [decimal, scanSign_append hds.isDigits rest, wholeDigits_append hrest hds, hfraction, hexponent, bind,
    Option.bind]
  rw [if_pos ⟨rfl, rfl⟩]
  cases integer? false (ofDigits 10 (ds.map digitValue)) <;> rfl

theorem mem_delimiters_of_zero (hds : WholePart ds) {c : Char} {cs : List Char} (h : ds ++ rest = '0' :: c :: cs) :
    c ∈ delimiters := by
  cases hds with
  | zero => exact hrest c (congrArg List.head? (List.cons.inj h).2)
  | digits hd => exact absurd (List.cons.inj h).1 hd

theorem number_append (hds : WholePart ds) : number (ds ++ rest) =
    (integer? false (ofDigits 10 (ds.map digitValue))).map fun v => (v, rest) := by
  have hmark : ∀ c ∈ delimiters, c ≠ 'x' ∧ c ≠ 'o' ∧ c ≠ 'b' := forall_mem_of_all (by decide)
  rw [number, specialFloat_append hds.isDigits, Option.none_or, decimal_append hrest hds]
  · exact fun cs h => (hmark 'x' (mem_delimiters_of_zero hrest hds h)).1 rfl
  · exact fun cs h => (hmark 'o' (mem_delimiters_of_zero hrest hds h)).2.1 rfl
  · exact fun cs h => (hmark 'b' (mem_delimiters_of_zero hrest hds h)).2.2 rfl

theorem scalar_append (hds : WholePart ds) : scalar (ds ++ rest) =
    (integer? false (ofDigits 10 (ds.map digitValue))).map fun v => (v, rest) := by
  have hdigit : ∀ {c : Char} {cs : List Char}, ds ++ rest = c :: cs → isDigit c = true := fun h =>
    isDigit_of_append_eq hds.isDigits h
  rw [scalar, skipMoment_append hrest hds.isDigits.2, number_append hrest hds]
  all_goals exact fun cs h => Bool.false_ne_true (hdigit h)

end

/-- A natural number is an integer of 64 bits with a sign, or no value. -/
theorem scalar_natural (n : Nat) {rest : List Char} (hrest : Delimited rest) :
    scalar (Nat.toDigits 10 n ++ rest) = if n < Nat.pow 2 63 then some (.integer n, rest) else none := by
  rw [scalar_append hrest (wholePart_toDigits n), ofDigits_toDigits, integer?, if_neg Bool.false_ne_true]
  split <;> rfl

end Kademlia.Toml
