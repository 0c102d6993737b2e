import Kademlia.Config.Json
import Kademlia.KeyRange.Json
import Kademlia.Proofs.Address.Text
import Kademlia.Proofs.Json.Printer
import Kademlia.Proofs.Json.Record

/-!
Addresses, configurations and ranges are read back from the JSON in which they are written, and a range also from any
other JSON that holds its fields.
-/
namespace Kademlia
open Json

namespace Address

def JsonText (cs : List Char) (a : Address) : Prop := ∃ u, Quotes cs u ∧ Spells u a

theorem ofToken_text {ps : List Piece} {u : String} {a : Address} (hps : Denotes ps u.toList) (hu : Spells u a) :
    ofToken (.text ps none) = .ok a := by
  have hscalar : Token.string (.text ps none) = .ok u := by
    rw [Token.string, Token.scalar, joined_of_denotes hps, Except.map, String.ofList_toList]
  rw [ofToken, hscalar]
  dsimp only
  rw [parse_of_spells hu]

theorem JsonText.reads {cs : List Char} {a : Address} (h : JsonText cs a) :
    ∃ ps, Reads cs [.text ps none] ∧ ofToken (.text ps none) = .ok a := by
  obtain ⟨u, ⟨ps, htext, hps⟩, hu⟩ := h
  exact ⟨ps, Reads.string htext, ofToken_text hps hu⟩

theorem parseJson_of_jsonText {text : String} {a : Address} (h : JsonText text.toList a) : parseJson text = .ok a := by
  obtain ⟨ps, hreads, htoken⟩ := h.reads
  rw [parseJson, parseScalar, hreads.tokens_eq]
  exact htoken

theorem jsonText_quote {u : List Char} {a : Address} (h : Spells (String.ofList u) a) : JsonText (quote u) a := by
  have hquotes := quotes_quote (String.ofList u)
  rw [String.toList_ofList] at hquotes
  exact ⟨String.ofList u, hquotes, h⟩

theorem jsonText_chars (a : Address) : JsonText a.toJson.chars a := by
  rw [toJson, Value.chars, toHex, String.toList_ofList]
  exact jsonText_quote (spells_toHex a)

end Address

namespace Config

def FieldText (c : Config) (name : String) (cs : List Char) : Prop :=
  name = "max_prox" ∧ cs = Nat.toDigits 10 c.maxProx ∨ name = "prox_bin_size" ∧ cs = Nat.toDigits 10 c.proxBinSize

def filling (c : Config) (hprox : c.maxProx < Nat.pow 2 64) (hsize : c.proxBinSize < Nat.pow 2 64) :
    shape.Filling c.FieldText c where
  draft seen :=
    ⟨if "max_prox" ∈ seen then some c.maxProx else none, if "prox_bin_size" ∈ seen then some c.proxBinSize else none⟩
  blank := rfl
  nodup := by decide
  present := by
    intro f hf seen hseen
    simp only [shape, List.mem_cons, List.not_mem_nil, or_false] at hf
    rcases hf with rfl | rfl <;> simp [hseen]
  read := by
    intro f hf cs hcs
    simp only [shape, List.mem_cons, List.not_mem_nil, or_false] at hf
    rcases hf with rfl | rfl
    · obtain ⟨-, rfl⟩ := hcs.resolve_right (by simp)
      obtain ⟨n, hreads, hn⟩ := reads_natural hprox
      refine ⟨_, hreads, fun m => by simp, fun seen => ?_⟩
      simp [hn, Functor.map, Except.map]
    · obtain ⟨-, rfl⟩ := hcs.resolve_left (by simp)
      obtain ⟨n, hreads, hn⟩ := reads_natural hsize
      refine ⟨_, hreads, fun m => by simp, fun seen => ?_⟩
      simp [hn, Functor.map, Except.map]
  skip := by
    intro name seen hname
    simp only [Shape.names, shape, List.map_cons, List.map_nil, List.mem_cons, List.not_mem_nil, or_false,
      not_or] at hname
    simp [Ne.symm hname.1, Ne.symm hname.2]
  finish := by
    intro seen hseen
    simp [shape] at hseen
    simp [shape, hseen, ofFields]

theorem parseJson_render {c : Config} (hprox : c.maxProx < Nat.pow 2 64) (hsize : c.proxBinSize < Nat.pow 2 64) :
    parseJson c.toJson.render = .ok c := by
  have hobject : ObjectText Quotes c.toJson.chars
      [("max_prox", Nat.toDigits 10 c.maxProx), ("prox_bin_size", Nat.toDigits 10 c.proxBinSize)] :=
    objectText_chars (q := id) quotes_quote _
  have hfields : shape.HoldsFields c.FieldText
      [("max_prox", Nat.toDigits 10 c.maxProx), ("prox_bin_size", Nat.toDigits 10 c.proxBinSize)] :=
    ⟨_, [], by rw [List.append_nil], rfl, by simp [FieldText], by simp⟩
  exact (filling c hprox hsize).parse_object hfields hobject (padded_render c.toJson)

end Config

namespace KeyRange

def FieldText (range : KeyRange) (name : String) (cs : List Char) : Prop :=
  name = "start" ∧ Address.JsonText cs range.start ∨ name = "stop" ∧ Address.JsonText cs range.stop ∨
    name = "prox" ∧ cs = Nat.toDigits 10 range.prox

def filling (range : KeyRange) (hprox : range.prox < Nat.pow 2 64) : shape.Filling range.FieldText range where
  draft seen :=
    ⟨if "start" ∈ seen then some range.start else none, if "stop" ∈ seen then some range.stop else none,
      if "prox" ∈ seen then some range.prox else none⟩
  blank := rfl
  nodup := by decide
  present := by
    intro f hf seen hseen
    simp only [shape, List.mem_cons, List.not_mem_nil, or_false] at hf
    rcases hf with rfl | rfl | rfl <;> simp [hseen]
  read := by
    intro f hf cs hcs
    simp only [shape, List.mem_cons, List.not_mem_nil, or_false] at hf
    rcases hf with rfl | rfl | rfl
    · obtain ⟨-, hcs⟩ := hcs.resolve_right (by simp)
      obtain ⟨ps, hreads, ha⟩ := hcs.reads
      refine ⟨_, hreads, fun m => by simp, fun seen => ?_⟩
      simp [ha, Functor.map, Except.map]
    · obtain ⟨-, hcs⟩ := (hcs.resolve_left (by simp)).resolve_right (by simp)
      obtain ⟨ps, hreads, ha⟩ := hcs.reads
      refine ⟨_, hreads, fun m => by simp, fun seen => ?_⟩
      simp [ha, Functor.map, Except.map]
    · obtain ⟨-, rfl⟩ := (hcs.resolve_left (by simp)).resolve_left (by simp)
      obtain ⟨n, hreads, hn⟩ := reads_natural hprox
      refine ⟨_, hreads, fun m => by simp, fun seen => ?_⟩
      simp [hn, Functor.map, Except.map]
  skip := by
    intro name seen hname
    simp only [Shape.names, shape, List.map_cons, List.map_nil, List.mem_cons, List.not_mem_nil, or_false,
      not_or] at hname
    simp [Ne.symm hname.1, Ne.symm hname.2.1, Ne.symm hname.2.2]
  finish := by
    intro seen hseen
    simp [shape] at hseen
    simp [shape, hseen]

section
variable {range : KeyRange} {start stop : List Char} (hprox : range.prox < Nat.pow 2 64)
  (hstart : Address.JsonText start range.start) (hstop : Address.JsonText stop range.stop)
include hprox hstart hstop

theorem parseJson_array {text : String} {cs : List Char} (hcs : ArrayText cs [start, stop, Nat.toDigits 10 range.prox])
    (htext : Padded text.toList cs) : parseJson text = .ok range := by
  let known := [("start", start), ("stop", stop), ("prox", Nat.toDigits 10 range.prox)]
  have hspells : ∀ m ∈ known, range.FieldText m.1 m.2 := by simp [known, FieldText, hstart, hstop]
  exact (filling range hprox).parse_array known rfl hspells hcs htext

theorem parseJson_object {text : String} {cs : List Char} {ms : List (String × List Char)}
    (others : List (String × List Char))
    (hms : ms.Perm ([("start", start), ("stop", stop), ("prox", Nat.toDigits 10 range.prox)] ++ others))
    (hothers : ∀ m ∈ others, m.1 ∉ ["start", "stop", "prox"] ∧ IsValue m.2) (hcs : ObjectText Quotes cs ms)
    (htext : Padded text.toList cs) : parseJson text = .ok range := by
  have hfields : shape.HoldsFields range.FieldText ms :=
    ⟨_, others, hms, rfl, by simp [FieldText, hstart, hstop], hothers⟩
  exact (filling range hprox).parse_object hfields hcs htext

end

theorem parseJson_render {range : KeyRange} (hprox : range.prox < Nat.pow 2 64) :
    parseJson range.toJson.render = .ok range := by
  have hobject : ObjectText Quotes range.toJson.chars [("start", range.start.toJson.chars),
      ("stop", range.stop.toJson.chars), ("prox", Nat.toDigits 10 range.prox)] :=
    objectText_chars (q := id) quotes_quote _
  exact parseJson_object hprox (Address.jsonText_chars range.start) (Address.jsonText_chars range.stop) []
    (by rw [List.append_nil]) (by simp) hobject (padded_render range.toJson)

end KeyRange

/-- What is written is read back, whatever its fields are. A range is read as well from the array of its fields, and
from an object with these fields in any order among any other members; the addresses may be spelled in any way. -/
theorem json_round_trip :
    (∀ a : Address, Address.parseJson a.toJson.render = .ok a) ∧
      (∀ c : Config, c.maxProx < Nat.pow 2 64 → c.proxBinSize < Nat.pow 2 64 →
        Config.parseJson c.toJson.render = .ok c) ∧
      ∀ range : KeyRange, range.prox < Nat.pow 2 64 →
        KeyRange.parseJson range.toJson.render = .ok range ∧
        ∀ start stop : List Char, Address.JsonText start range.start → Address.JsonText stop range.stop →
          ∀ (text : String) (cs : List Char), Padded text.toList cs →
            (ArrayText cs [start, stop, Nat.toDigits 10 range.prox] → KeyRange.parseJson text = .ok range) ∧
            ∀ ms others : List (String × List Char),
              ms.Perm ([("start", start), ("stop", stop), ("prox", Nat.toDigits 10 range.prox)] ++ others) →
              (∀ m ∈ others, m.1 ∉ ["start", "stop", "prox"] ∧ IsValue m.2) → ObjectText Quotes cs ms →
              KeyRange.parseJson text = .ok range := by
  refine ⟨fun a => ?_, fun c hprox hsize => Config.parseJson_render hprox hsize, fun range hprox => ?_⟩
  · refine Address.parseJson_of_jsonText ?_
    rw [Value.render, String.toList_ofList]
    exact Address.jsonText_chars a
  · refine ⟨KeyRange.parseJson_render hprox, fun start stop hstart hstop text cs htext => ⟨fun hcs => ?_, ?_⟩⟩
    · exact KeyRange.parseJson_array hprox hstart hstop hcs htext
    · exact fun ms others hms hothers hcs => KeyRange.parseJson_object hprox hstart hstop others hms hothers hcs htext

/-- A configuration that is no valid one, and a range with the largest number. The members of the range stand in another
order behind one that is passed over, a name has an escape, and the addresses have a mark and letters of both cases. -/
theorem reordered_json_round_trip :
    let range : KeyRange := ⟨⟨List.replicate 32 0xab, List.length_replicate⟩, .zero, 18446744073709551615⟩
    let seen := "[null,\x7b\"prox\":-1e999\x7d]".toList
    let stop := quote ('0' :: 'X' :: List.replicate 64 '0')
    let start := quote (List.replicate 32 ['a', 'B']).flatten
    let first := " \"seen\":".toList ++ seen
    let second := "\"prox\":18446744073709551615 ".toList
    let third := "\"stop\":".toList ++ stop
    let fourth := "\"sta\\u0072t\":".toList ++ start
    let members := first ++ ',' :: (second ++ ',' :: (third ++ ',' :: fourth))
    Config.parseJson (Config.mk 257 0).toJson.render = .ok ⟨257, 0⟩ ∧
      KeyRange.parseJson (String.ofList ('\x7b' :: (members ++ ['\x7d']))) = .ok range := by
  intro range seen stop start first second third fourth members
  have hseen : IsValue seen := isValue_chars (.array [.null, .object [("prox", .number (.decimal true 1 999))]])
  have hstart : Address.JsonText start range.start :=
    Address.jsonText_quote ⟨[], by simp, _, String.toList_ofList, by decide +kernel⟩
  have hstop : Address.JsonText stop range.stop :=
    Address.jsonText_quote ⟨['0', 'X'], by simp, List.replicate 64 '0', String.toList_ofList, by decide +kernel⟩
  have hspace : Blanks [' '] := fun c hc => by simp_all
  have hfirst : MemberText Quotes first ("seen", seen) :=
    ⟨quote "seen".toList, " \"seen\"".toList, seen, quotes_quote "seen", ⟨[' '], [], hspace, blanks_nil, rfl⟩,
      padded_self seen, rfl⟩
  have hsecond : MemberText Quotes second ("prox", Nat.toDigits 10 18446744073709551615) :=
    ⟨quote "prox".toList, quote "prox".toList, "18446744073709551615 ".toList, quotes_quote "prox", padded_self _,
      ⟨[], [' '], blanks_nil, hspace, by decide +kernel⟩, rfl⟩
  have hthird : MemberText Quotes third ("stop", stop) :=
    ⟨quote "stop".toList, quote "stop".toList, stop, quotes_quote "stop", padded_self _, padded_self stop, rfl⟩
  have hname : Quotes "\"sta\\u0072t\"".toList "start" :=
    ⟨[.char 's', .char 't', .char 'a', .unit 0x72, .char 't'],
      ⟨"sta\\u0072t".toList,
        .plain (by decide) (.plain (by decide) (.plain (by decide) (.unit rfl (.plain (by decide) .nil)))), rfl⟩,
      .char (.char (.char (.unit (by decide) (.char .nil))))⟩
  have hfourth : MemberText Quotes fourth ("start", start) :=
    ⟨"\"sta\\u0072t\"".toList, "\"sta\\u0072t\"".toList, start, hname, padded_self _, padded_self start, rfl⟩
  have hmembers : Separated (MemberText Quotes) members
      [("seen", seen), ("prox", Nat.toDigits 10 18446744073709551615), ("stop", stop), ("start", start)] :=
    .more hfirst (.more hsecond (.more hthird (.one hfourth)))
  have htext : Padded (String.ofList ('\x7b' :: (members ++ ['\x7d']))).toList ('\x7b' :: (members ++ ['\x7d'])) := by
    rw [String.toList_ofList]
    exact padded_self _
  obtain ⟨-, hconfigs, hranges⟩ := json_round_trip
  obtain ⟨-, htexts⟩ := hranges range (by decide)
  obtain ⟨-, hobject⟩ := htexts start stop hstart hstop _ _ htext
  refine ⟨hconfigs ⟨257, 0⟩ (by decide) (by decide), ?_⟩
  exact hobject _ [("seen", seen)] (List.reverse_perm _) (by simpa using hseen) ⟨members, hmembers, rfl⟩

end Kademlia
