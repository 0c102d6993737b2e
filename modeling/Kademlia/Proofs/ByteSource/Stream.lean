import Kademlia.Proofs.ByteSource.Calls
import Kademlia.Proofs.ByteSource.Script
import Kademlia.Proofs.Space.Sources
import Mathlib.Data.Stream.Init

/-!
A script as a stream: its bytes repeated for ever, handed out in whatever portions they are asked for. A script of one byte
is not to be told from the source that has only this byte.
-/
namespace Kademlia

namespace Script

theorem get_cycle {bs : List UInt8} (h : bs ≠ []) (i : Nat) : (Stream'.cycle bs h).get i = byteAt bs i := by
  induction i using Nat.strong_induction_on with
  | _ i ih =>
    rw [Stream'.cycle_eq]
    by_cases hi : i < bs.length
    · rw [Stream'.get_append_left i bs _ hi, byteAt, Nat.mod_eq_of_lt hi, List.getD_eq_getElem _ _ hi]
    · -- behind the first round the place counts from its end
      obtain ⟨k, rfl⟩ := Nat.exists_eq_add_of_le (Nat.not_lt.mp hi)
      have hpos : 0 < bs.length := List.length_pos_iff.mpr h
      rw [Stream'.get_append_right, ih k (by omega), byteAt, byteAt, Nat.add_mod_left]

theorem take_cycle {bs : List UInt8} (h : bs ≠ []) (n : Nat) :
    (Stream'.cycle bs h).take n = (ByteSource.fill n (ofBytes bs)).1 := by
  rw [fill_eq]
  apply List.ext_getElem
  · simp
  · intro i _ _
    simp [ofBytes, get_cycle]

theorem byteAt_singleton (b : UInt8) : byteAt [b] = fun _ => b := by
  funext i
  simp [byteAt, Nat.mod_one]

theorem fill_singleton (b : UInt8) (k n : Nat) :
    ByteSource.fill n (Script.mk [b] k) = (List.replicate n b, ⟨[b], k + n⟩) := by
  rw [fill_eq, byteAt_singleton, List.map_const', List.length_range']

theorem fill_empty (n : Nat) : (ByteSource.fill n empty).1 = List.replicate n 0 := by
  have hstart : EmptyBesideZero empty (Script.mk [0] 0) := ⟨rfl, rfl, rfl⟩
  rw [(emptyBesideZero_bisimulation.fill hstart n).1, fill_singleton]

def Repeats (s : Script) (t : Constant) : Prop := s.bytes = [t.byte]

theorem repeats_bisimulation : Bisimulation Repeats where
  nextByte := by
    rintro ⟨bs, k⟩ t rfl
    exact ⟨congrFun (byteAt_singleton t.byte) k, rfl⟩
  fill := by
    rintro ⟨bs, k⟩ t rfl n
    rw [fill_singleton]
    exact ⟨rfl, rfl⟩

/-- What calls hand out is the script repeated for ever, as far as they ask for it, and the state counts the bytes: two sequences
of calls with the same total hand out the same bytes and leave the same state. A script of one byte and the source of this byte
alone answer every sequence of calls alike, lead to the same addresses, and make no difference to a run of a space. -/
theorem calls_hand_out_cycle :
    (∀ (bs : List UInt8) (cs : List Call),
      let handed := Call.answers cs (ofBytes bs)
      handed.1.map List.length = cs.map Call.size ∧
        (∀ h : bs ≠ [], handed.1.flatten = (Stream'.cycle bs h).take (Call.total cs)) ∧
        (bs = [] → handed.1.flatten = List.replicate (Call.total cs) 0) ∧
        handed.2 = ⟨bs, Call.total cs⟩) ∧
      (∀ (s : Script) (cs ds : List Call), Call.total cs = Call.total ds →
        (Call.answers cs s).1.flatten = (Call.answers ds s).1.flatten ∧
          (Call.answers cs s).2 = (Call.answers ds s).2) ∧
      (∀ b : UInt8, (repeating b).Repeats ⟨b⟩) ∧
      ∀ (s : Script) (t : Constant), s.Repeats t →
        (∀ cs : List Call, Agree Repeats (Call.answers cs s) (Call.answers cs t)) ∧
          (∀ (r : Address) (wanted : Option Nat), Agree Repeats (r.draw wanted s) (r.draw wanted t)) ∧
          (∀ (r o : Address) (limit : Nat), Agree Repeats (r.commonBits o limit s) (r.commonBits o limit t)) ∧
          ∀ (home : Address) (config : Config) (usable : config.defect? = none) (ops : List Space.Op),
            Agree (Space.Beside Repeats) (Space.run ⟨home, config, s, usable⟩ ops)
              (Space.run ⟨home, config, t, usable⟩ ops) := by
  refine ⟨fun bs cs => ⟨Call.map_length_answers cs (ofBytes bs), ?bytes, ?zeros, ?state⟩, ?portions, fun _ => rfl, ?alike⟩
  case bytes =>
    intro h
    rw [(bytewise.answers_eq_fill cs (ofBytes bs)).1, take_cycle h]
  case zeros =>
    rintro rfl
    rw [(bytewise.answers_eq_fill cs (ofBytes [])).1]
    exact fill_empty (Call.total cs)
  case state =>
    rw [(bytewise.answers_eq_fill cs (ofBytes bs)).2, fill_eq, ofBytes, Nat.zero_add]
  case portions =>
    intro s cs ds htotal
    obtain ⟨hbytes, hstate⟩ := bytewise.answers_eq_fill cs s
    obtain ⟨hbytes', hstate'⟩ := bytewise.answers_eq_fill ds s
    rw [hbytes, hstate, hbytes', hstate', htotal]
    exact ⟨rfl, rfl⟩
  case alike =>
    intro s t h
    refine ⟨repeats_bisimulation.answers h, repeats_bisimulation.draw h, repeats_bisimulation.commonBits h, ?_⟩
    intro home config usable ops
    exact repeats_bisimulation.spaceRun ⟨rfl, rfl, h⟩ ops

/-- Calls for none, one, seven and one byte go three times through a script of three bytes, as a single call for nine does. Two
spaces of depth 4, one on a script of 0xff and one on this byte alone, reply alike to a refresh and a random address. -/
theorem portions_hand_out_cycle :
    let bs := [0xa5, 0x3d, 0x0f]
    let cs := [.fill 0, .nextByte, .fill 7, .nextByte]
    let ops := [.refreshTarget 9, .randomAddress]
    (Call.answers cs (ofBytes bs)).1.flatten = [0xa5, 0x3d, 0x0f, 0xa5, 0x3d, 0x0f, 0xa5, 0x3d, 0x0f] ∧
      (Call.answers cs (ofBytes bs)).2 = ⟨bs, 9⟩ ∧
      (Call.answers cs (ofBytes [])).1.flatten = List.replicate 9 0 ∧
      (Call.answers cs (Script.mk bs 2)).1.flatten = (Call.answers [.fill 9] (Script.mk bs 2)).1.flatten ∧
      (Call.answers cs (repeating 0xff)).1 = (Call.answers cs (Constant.mk 0xff)).1 ∧
      (Space.run ⟨Address.zero, Config.testing, repeating 0xff, rfl⟩ ops).1 =
        (Space.run ⟨Address.zero, Config.testing, Constant.mk 0xff, rfl⟩ ops).1 := by
  intro bs cs ops
  obtain ⟨hstream, hportions, hrepeats, halike⟩ := calls_hand_out_cycle
  obtain ⟨-, hbytes, -, hstate⟩ := hstream bs cs
  obtain ⟨-, -, hzeros, -⟩ := hstream [] cs
  obtain ⟨hcalls, -, -, hspace⟩ := halike (repeating 0xff) ⟨0xff⟩ (hrepeats 0xff)
  have hcycle : (Stream'.cycle bs (by decide)).take 9 = [0xa5, 0x3d, 0x0f, 0xa5, 0x3d, 0x0f, 0xa5, 0x3d, 0x0f] := rfl
  exact ⟨(hbytes (by decide)).trans hcycle, hstate, hzeros rfl, (hportions ⟨bs, 2⟩ cs [.fill 9] rfl).1, (hcalls cs).1,
    (hspace Address.zero Config.testing rfl ops).1⟩

end Script
end Kademlia
