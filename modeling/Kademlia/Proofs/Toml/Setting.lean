import Kademlia.Proofs.Toml.Number

/-!
Documents of the plainest kind: the header of one table, and below it a line for each key with a natural number. They
are read as this table when no key comes twice and every number fits, and they are no documents if one does not fit.
-/
namespace Kademlia.Toml
open Text

def BareKey (key : String) : Prop := key.toList ≠ [] ∧ ∀ c ∈ key.toList, isBareChar c = true

def headerLine (name : String) : List Char := '[' :: (name.toList ++ [']', '\n'])

def settingLine (key : String) (n : Nat) : List Char := key.toList ++ (" = ".toList ++ (Nat.toDigits 10 n ++ ['\n']))

theorem skipSpaces_eq_self {cs : List Char} (h : ∀ c cs', cs = c :: cs' → isSpace c = false) : skipSpaces cs = cs := by
  cases cs with
  | nil => rfl
  | cons c cs => rw [skipSpaces, List.dropWhile_cons_of_neg (by rw [h c cs rfl]; exact Bool.false_ne_true)]

theorem isSpace_eq_false {c : Char} (hc : isBareChar c = true) : isSpace c = false := by
  simp only [isSpace, Bool.or_eq_false_iff, decide_eq_false_iff_not]
  constructor
  · rintro rfl
    exact absurd hc (by decide)
  · rintro rfl
    exact absurd hc (by decide)

/-! ### Keys -/

section
variable {key : String} (hkey : BareKey key)
include hkey

theorem BareKey.isBareChar_of_append_eq {rest cs : List Char} {c : Char} (h : key.toList ++ rest = c :: cs) :
    isBareChar c = true := by
  obtain ⟨hne, hall⟩ := hkey
  cases hchars : key.toList with
  | nil => exact absurd hchars hne
  | cons d ds =>
    rw [hchars] at h
    cases h
    exact hall c (hchars ▸ List.mem_cons_self)

theorem BareKey.append_ne_cons {c : Char} (hc : isBareChar c = false) (rest cs : List Char) :
    key.toList ++ rest ≠ c :: cs :=
  fun h => Bool.false_ne_true (hc.symm.trans (hkey.isBareChar_of_append_eq h))

theorem simpleKey_append {rest : List Char} (hrest : ∀ c ∈ rest.head?, isBareChar c = false) :
    simpleKey (key.toList ++ rest) = some (key, rest) := by
  obtain ⟨htake, hdrop⟩ := takeWhile_append_of_head hkey.2 hrest
  cases hcs : key.toList ++ rest with
  | nil => exact absurd (List.append_eq_nil_iff.mp hcs).1 hkey.1
  | cons c cs =>
    have hbare := hkey.isBareChar_of_append_eq hcs
    have hquote : ¬(c = '"' ∨ c = '\'') := by
      rintro (rfl | rfl)
      · exact absurd hbare (by decide)
      · exact absurd hbare (by decide)
    rw [hcs, List.takeWhile_cons_of_pos hbare] at htake
    rw [hcs, List.dropWhile_cons_of_pos hbare] at hdrop
    rw [simpleKey, if_neg hquote, if_pos hbare, htake, hdrop, String.ofList_toList]

theorem keyParts_append {rest : List Char} (hrest : ∀ c ∈ rest.head?, isBareChar c = false)
    (hdot : ∀ cs, skipSpaces rest ≠ '.' :: cs) : keyParts (key.toList ++ rest) = some ([key], skipSpaces rest) := by
  have hstart : skipSpaces (key.toList ++ rest) = key.toList ++ rest :=
    skipSpaces_eq_self fun _ _ h => isSpace_eq_false (hkey.isBareChar_of_append_eq h)
  rw [keyParts, hstart, simpleKey_append hkey hrest]
  dsimp only
  split
  · next h => exact absurd h (hdot _)
  · rfl

theorem scanKey_append {rest : List Char} (hrest : ∀ c ∈ rest.head?, isBareChar c = false)
    (hdot : ∀ cs, skipSpaces rest ≠ '.' :: cs) : scanKey (key.toList ++ rest) = some (([], key), skipSpaces rest) := by
  rw [scanKey, keyParts_append hkey hrest hdot]
  rfl

end

/-! ### Lines -/

theorem delimited_newline (rest : List Char) : Delimited ('\n' :: rest) := by
  rintro c ⟨⟩
  decide

theorem scanValue_natural (n : Nat) {rest : List Char} (hrest : Delimited rest) :
    scanValue (depthLimit - 1) (Nat.toDigits 10 n ++ rest) =
      if n < Nat.pow 2 63 then some (.integer n, rest) else none := by
  rw [← scalar_natural n hrest, depthLimit, scanValue]
  all_goals exact fun _ cs _ h => Bool.false_ne_true (isDigit_of_append_eq (Json.digits_toDigits n) h)

theorem settingLine_append (key : String) (n : Nat) (rest : List Char) : settingLine key n ++ rest =
    key.toList ++ ' ' :: '=' :: ' ' :: (Nat.toDigits 10 n ++ '\n' :: rest) := by
  simp [settingLine]

theorem scanPair_setting {key : String} (hkey : BareKey key) (n : Nat) (rest : List Char) :
    scanPair (scanValue (depthLimit - 1)) (settingLine key n ++ rest) =
      if n < Nat.pow 2 63 then some (⟨[], key, .integer n⟩, '\n' :: rest) else none := by
  have hblank : ∀ c ∈ (' ' :: '=' :: ' ' :: (Nat.toDigits 10 n ++ '\n' :: rest)).head?, isBareChar c = false := by
    rintro c ⟨⟩
    decide
  have hscan := scanKey_append hkey hblank (by rintro cs ⟨⟩)
  have hequals : expect '=' (skipSpaces (' ' :: '=' :: ' ' :: (Nat.toDigits 10 n ++ '\n' :: rest))) =
      some (' ' :: (Nat.toDigits 10 n ++ '\n' :: rest)) := rfl
  have hdigits : skipSpaces (Nat.toDigits 10 n ++ '\n' :: rest) = Nat.toDigits 10 n ++ '\n' :: rest := by
    refine skipSpaces_eq_self fun c cs h => ?_
    exact Json.forall_digit (p := fun c => isSpace c = false) (by decide)
      (isDigit_of_append_eq (Json.digits_toDigits n) h)
  have hgap : skipSpaces (' ' :: (Nat.toDigits 10 n ++ '\n' :: rest)) = Nat.toDigits 10 n ++ '\n' :: rest := hdigits
  have hvalue := scanValue_natural n (delimited_newline rest)
  rw [settingLine_append, scanPair, hscan]
  simp only [bind, Option.bind, hequals, hgap, hvalue]
  by_cases hn : n < Nat.pow 2 63
  · simp only [if_pos hn]
    rfl
  · simp only [if_neg hn]

theorem scanStatement_setting {key : String} (hkey : BareKey key) (n : Nat) (rest : List Char) :
    scanStatement (settingLine key n ++ rest) =
      if n < Nat.pow 2 63 then some (.pair ⟨[], key, .integer n⟩, '\n' :: rest) else none := by
  rw [scanStatement, scanPair_setting hkey]
  · split <;> rfl
  · exact fun cs => settingLine_append key n rest ▸ hkey.append_ne_cons (by decide) _ _
  · exact fun cs => settingLine_append key n rest ▸ hkey.append_ne_cons (by decide) _ _

theorem scanStatement_header {name : String} (hname : BareKey name) (rest : List Char) :
    scanStatement (headerLine name ++ rest) = some (.table [] name, '\n' :: rest) := by
  have hline : headerLine name ++ rest = '[' :: (name.toList ++ ']' :: '\n' :: rest) := by
    simp [headerLine]
  have hbracket : ∀ c ∈ (']' :: '\n' :: rest).head?, isBareChar c = false := by
    rintro c ⟨⟩
    decide
  rw [hline, scanStatement, scanKey_append hname hbracket (by rintro cs ⟨⟩)]
  · rfl
  · exact fun cs => hname.append_ne_cons (by decide) _ _

/-- Where no statement begins. -/
def lineMarks : List Char := [' ', '\t', '#', '\n', '\r']

theorem not_mem_lineMarks {c : Char} (hc : isBareChar c = true) : c ∉ lineMarks := by
  have hmarks : ∀ c ∈ lineMarks, isBareChar c = false := forall_mem_of_all (by decide)
  exact fun hmem => Bool.false_ne_true ((hmarks c hmem).symm.trans hc)

/-- A line that begins with neither a blank nor a comment holds a statement, behind which it ends. -/
theorem scanLine_cons {c : Char} (hc : c ∉ lineMarks) (cs : List Char) : scanLine (c :: cs) = (do
    let (s, rest) ← scanStatement (c :: cs)
    return (some s, ← skipLineEnd rest)) := by
  simp only [lineMarks, List.mem_cons, List.not_mem_nil, or_false, not_or] at hc
  obtain ⟨hblank, htab, hcomment, hnewline, hreturn⟩ := hc
  have hspaces : skipSpaces (c :: cs) = c :: cs := by
    refine skipSpaces_eq_self ?_
    rintro d ds ⟨⟩
    simp [isSpace, hblank, htab]
  have hstays : dropNewline? (c :: cs) = none := by
    rw [dropNewline?]
    · rintro ds ⟨⟩
      exact hnewline rfl
    · rintro ds ⟨⟩
      exact hreturn rfl
  have hend : skipLineEnd (c :: cs) = none := by
    simp only [skipLineEnd, hspaces]
    split
    · next h =>
      cases h
      exact absurd rfl hcomment
    · exact hstays
  rw [scanLine, hend, hspaces]

theorem scanLine_setting {key : String} (hkey : BareKey key) (n : Nat) (rest : List Char) :
    scanLine (settingLine key n ++ rest) =
      if n < Nat.pow 2 63 then some (some (.pair ⟨[], key, .integer n⟩), rest) else none := by
  have hscan := scanStatement_setting hkey n rest
  cases hcs : settingLine key n ++ rest with
  | nil => simp [settingLine_append] at hcs
  | cons c cs =>
    have hbare := hkey.isBareChar_of_append_eq (settingLine_append key n rest ▸ hcs)
    rw [scanLine_cons (not_mem_lineMarks hbare), ← hcs, hscan]
    by_cases hn : n < Nat.pow 2 63
    · rw [if_pos hn, if_pos hn]
      rfl
    · rw [if_neg hn, if_neg hn]
      rfl

theorem scanLine_header {name : String} (hname : BareKey name) (rest : List Char) :
    scanLine (headerLine name ++ rest) = some (some (.table [] name), rest) := by
  have hscan := scanStatement_header hname rest
  rw [headerLine, List.cons_append] at hscan ⊢
  rw [scanLine_cons (by decide), hscan]
  rfl

/-! ### Statements -/

theorem scanStatements_of_scanLine {cs rest : List Char} {s : Option Statement} (h : scanLine cs = some (s, rest))
    (hlt : rest.length < cs.length) (text : List Char) :
    scanStatements text cs = (scanStatements text rest).map (s.toList ++ ·) := by
  have hne : cs ≠ [] := by
    rintro rfl
    exact absurd hlt (Nat.not_lt_zero _)
  rw [scanStatements, if_neg hne, h]
  exact if_pos hlt

def settingLines (ss : List (String × Nat)) : List Char := ss.flatMap fun s => settingLine s.1 s.2

def settingEntries (ss : List (String × Nat)) : Entries := ss.map fun s => (s.1, .integer s.2)

/-- Whether every number fits 64 bits with a sign. -/
def Fit (ss : List (String × Nat)) : Prop := ∀ s ∈ ss, s.2 < Nat.pow 2 63

def entryStatement (e : String × Value) : Statement := .pair ⟨[], e.1, e.2⟩

theorem fit_cons {s : String × Nat} {ss : List (String × Nat)} : Fit (s :: ss) ↔ s.2 < Nat.pow 2 63 ∧ Fit ss :=
  List.forall_mem_cons

/-- A line of numbers that fit is a statement before those of the other lines, and any other ends the reading. -/
theorem scanStatements_settingLines_cons {s : String × Nat} (hkey : BareKey s.1) (text : List Char)
    (ss : List (String × Nat)) : scanStatements text (settingLines (s :: ss)) =
      if s.2 < Nat.pow 2 63 then
        (scanStatements text (settingLines ss)).map (entryStatement (s.1, .integer s.2) :: ·)
      else .error (.malformed (lineNumber text (settingLines (s :: ss)))) := by
  have hline := scanLine_setting hkey s.2 (settingLines ss)
  have hcons : settingLines (s :: ss) = settingLine s.1 s.2 ++ settingLines ss := List.flatMap_cons
  rw [← hcons] at hline
  by_cases hs : s.2 < Nat.pow 2 63
  · rw [if_pos hs] at hline ⊢
    rw [scanStatements_of_scanLine hline]
    · rfl
    · simp only [hcons, List.length_append, settingLine, List.length_singleton]
      omega
  · rw [if_neg hs] at hline ⊢
    rw [scanStatements, if_neg (by simp [hcons, settingLine]), hline]

section
variable {ss : List (String × Nat)} (hkeys : ∀ s ∈ ss, BareKey s.1) (text : List Char)
include hkeys

theorem scanStatements_settingLines (hfit : Fit ss) :
    scanStatements text (settingLines ss) = .ok ((settingEntries ss).map entryStatement) := by
  induction ss with
  | nil => rw [scanStatements]; rfl
  | cons s ss ih =>
    obtain ⟨hkey, hkeys⟩ := List.forall_mem_cons.mp hkeys
    obtain ⟨hs, hss⟩ := fit_cons.mp hfit
    rw [scanStatements_settingLines_cons hkey, if_pos hs, ih hkeys hss]
    rfl

theorem scanStatements_settingLines_error (hfit : ¬Fit ss) :
    ∃ line, scanStatements text (settingLines ss) = .error (.malformed line) := by
  induction ss with
  | nil => exact absurd (List.forall_mem_nil _) hfit
  | cons s ss ih =>
    obtain ⟨hkey, hkeys⟩ := List.forall_mem_cons.mp hkeys
    rw [scanStatements_settingLines_cons hkey]
    by_cases hs : s.2 < Nat.pow 2 63
    · obtain ⟨line, hrest⟩ := ih hkeys fun hss => hfit (fit_cons.mpr ⟨hs, hss⟩)
      rw [if_pos hs, hrest]
      exact ⟨line, rfl⟩
    · rw [if_neg hs]
      exact ⟨_, rfl⟩

end

/-! ### Tables -/

theorem Entries.update_of_not_mem {key : String} {es : Entries} (hkey : key ∉ es.map Prod.fst)
    (f : Option Value → Except Fault Value) : update key f es = (f none).map fun v => es ++ [(key, v)] := by
  induction es with
  | nil => rfl
  | cons e es ih =>
    rw [List.map_cons, List.mem_cons, not_or] at hkey
    rw [update, if_neg (Ne.symm hkey.1), ih hkey.2]
    cases f none <;> rfl

def tableDocument (name : String) (es : Entries) : Document := ⟨[(name, .table .header es)], [name]⟩

theorem apply_entryStatement (name : String) {es : Entries} {e : String × Value} (he : e.1 ∉ es.map Prod.fst) :
    (tableDocument name es).apply (entryStatement e) = .ok (tableDocument name (es ++ [e])) := by
  have hput : Entries.put [] e.1 e.2 es = .ok (es ++ [e]) := Entries.update_of_not_mem he _
  simp only [tableDocument, entryStatement, Document.apply, Entries.within, Entries.update, if_pos, hput]
  rfl

theorem foldlM_entryStatement (name : String) (es fs : Entries) (hnodup : ((es ++ fs).map Prod.fst).Nodup) :
    (fs.map entryStatement).foldlM Document.apply (tableDocument name es) = .ok (tableDocument name (es ++ fs)) := by
  induction fs generalizing es with
  | nil => rw [List.append_nil]; rfl
  | cons f fs ih =>
    have hf : f.1 ∉ es.map Prod.fst := by
      rw [List.map_append, List.nodup_append] at hnodup
      exact fun hmem => hnodup.2.2 f.1 hmem f.1 List.mem_cons_self rfl
    rw [List.append_cons] at hnodup ⊢
    rw [List.map_cons, List.foldlM_cons, apply_entryStatement name hf]
    exact ih (es ++ [f]) hnodup

/-- A header and pairs with different keys below it make up the table of these pairs. -/
theorem ofStatements_table (name : String) {es : Entries} (hnodup : (es.map Prod.fst).Nodup) :
    Document.ofStatements (.table [] name :: es.map entryStatement) = .ok (tableDocument name es) :=
  foldlM_entryStatement name [] es hnodup

/-! ### Documents -/

def settingsText (name : String) (ss : List (String × Nat)) : List Char := headerLine name ++ settingLines ss

section
variable {name : String} (hname : BareKey name)
include hname

theorem scanStatements_settingsText (ss : List (String × Nat)) (text : List Char) :
    scanStatements text (settingsText name ss) =
      (scanStatements text (settingLines ss)).map (.table [] name :: ·) := by
  rw [settingsText, scanStatements_of_scanLine (scanLine_header hname (settingLines ss))]
  · rfl
  · simp only [List.length_append, headerLine, List.length_cons]
    omega

variable {ss : List (String × Nat)}

theorem parse_eq_scanStatements {text : String} (htext : text.toList = settingsText name ss) : parse text = (do
    let statements ← scanStatements text.toList (settingLines ss)
    let d ← Document.ofStatements (.table [] name :: statements)
    return d.entries) := by
  have hmark : dropByteOrderMark text.toList = text.toList := by
    rw [htext]
    rfl
  have hheader := scanStatements_settingsText hname ss text.toList
  rw [← htext] at hheader
  simp only [parse, hmark, hheader]
  cases scanStatements text.toList (settingLines ss) <;> rfl

variable (hkeys : ∀ s ∈ ss, BareKey s.1)
include hkeys

theorem parse_settings (hnodup : (ss.map Prod.fst).Nodup) (hfit : Fit ss) {text : String}
    (htext : text.toList = settingsText name ss) : parse text = .ok [(name, .table .header (settingEntries ss))] := by
  have hentries : ((settingEntries ss).map Prod.fst).Nodup := by
    rw [settingEntries, List.map_map]
    exact hnodup
  rw [parse_eq_scanStatements hname htext, scanStatements_settingLines hkeys _ hfit]
  simp only [bind, Except.bind, ofStatements_table name hentries]
  rfl

theorem parse_settings_error (hfit : ¬Fit ss) {text : String} (htext : text.toList = settingsText name ss) :
    ∃ line, parse text = .error (.malformed line) := by
  obtain ⟨line, hlines⟩ := scanStatements_settingLines_error hkeys text.toList hfit
  rw [parse_eq_scanStatements hname htext, hlines]
  exact ⟨line, rfl⟩

end

end Kademlia.Toml
