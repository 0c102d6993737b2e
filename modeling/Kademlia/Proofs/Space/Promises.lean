import Kademlia.Proofs.ByteSource.Script
import Kademlia.Proofs.Space.Bins
import Kademlia.Space.Run
import Mathlib.Data.List.Forall2

/-!
What every run of operations keeps: home and configuration stay as they are, each drawn address has the bin or the
proximity that was asked for, and a script is read on without a gap, by a number of bytes that the operations give.
-/
namespace Kademlia

theorem Config.checked_val {c : Config} {d : { c : Config // c.defect? = none }} (h : c.checked = .ok d) :
    d.val = c := by
  unfold checked at h
  split at h
  · cases h
    rfl
  · cases h

namespace Space
variable {σ : Type}

/-- The number of bytes that an operation takes from the source of a space with the given depth. -/
def Op.cost (depth : Nat) : Op → Nat
  | .refreshTarget bin => if bin < depth then 32 - bin / 8 else 32 - depth / 8
  | .randomAddressAt prox => if prox < 256 then 32 - prox / 8 else 0
  | .randomAddress => 32
  | .proximityTo _ | .binOf _ | .compare _ _ | .closest _ _ | .keyRangeTo _ | .keyRangeWithLimit _ _
  | .neighbourhoodUnderfilled _ => 0

/-- What a space promises about its reply to an operation. -/
def Promised (s : Space σ) : Op → Reply → Prop
  | .refreshTarget bin, reply => ∃ a, reply = .address a ∧ s.binOf a = min bin s.config.maxProx
  | .randomAddressAt prox, reply => ∃ a, reply = .address a ∧ s.proximityTo a = min prox 256
  | _, _ => True

theorem promised_of_eq {s t : Space σ} (hhome : t.home = s.home) (hconfig : t.config = s.config) {op : Op}
    {reply : Reply} (h : t.Promised op reply) : s.Promised op reply := by
  cases op with
  | refreshTarget bin =>
    obtain ⟨a, hreply, hbin⟩ := h
    refine ⟨a, hreply, ?_⟩
    rwa [binOf_eq_min, hhome, hconfig, ← binOf_eq_min] at hbin
  | randomAddressAt prox =>
    obtain ⟨a, hreply, hprox⟩ := h
    refine ⟨a, hreply, ?_⟩
    rwa [proximityTo, hhome] at hprox
  | _ => trivial

theorem fields_of_create {home : Address} {config : Config} {source : σ} {s : Space σ} {events : List Event}
    (h : create home config source = .ok (s, events)) :
    s.home = home ∧ s.config = config ∧ s.source = source := by
  unfold create at h
  split at h
  · next d usable hchecked =>
    cases h
    exact ⟨rfl, Config.checked_val hchecked, rfl⟩
  · cases h

theorem events_of_create {home : Address} {config : Config} {source : σ} {s : Space σ} {events : List Event}
    (h : create home config source = .ok (s, events)) : events = [.created home config.maxProx] := by
  unfold create at h
  split at h
  · next d usable hchecked =>
    cases h
    rw [← Config.checked_val hchecked]
  · cases h

variable [ByteSource σ]

theorem step_frame (s : Space σ) (op : Op) :
    (s.step op).space.home = s.home ∧ (s.step op).space.config = s.config := by
  cases op with
  | refreshTarget bin =>
    simp only [step, refreshTarget, Outcome.toStep]
    split <;> exact ⟨rfl, rfl⟩
  | _ => exact ⟨rfl, rfl⟩

theorem step_promised (s : Space σ) (op : Op) : s.Promised op (s.step op).reply := by
  cases op with
  | refreshTarget bin => exact ⟨_, rfl, s.binOf_refreshTarget bin⟩
  | randomAddressAt prox => exact ⟨_, rfl, Address.proximity_randomAt s.home prox s.source⟩
  | _ => trivial

theorem run_frame (s : Space σ) (ops : List Op) : (s.run ops).2.home = s.home ∧ (s.run ops).2.config = s.config := by
  induction ops generalizing s with
  | nil => exact ⟨rfl, rfl⟩
  | cons op ops ih =>
    obtain ⟨hhome, hconfig⟩ := s.step_frame op
    obtain ⟨hhome', hconfig'⟩ := ih (s.step op).space
    exact ⟨hhome'.trans hhome, hconfig'.trans hconfig⟩

/-- What every step does is done by all steps of a run, if it hangs on home and configuration alone. -/
theorem run_forall₂ {P : Space σ → Op → Reply × List Event → Prop}
    (hframe : ∀ {s t : Space σ}, t.home = s.home → t.config = s.config → ∀ {op entry}, P t op entry → P s op entry)
    (hstep : ∀ s op, P s op ((s.step op).reply, (s.step op).events)) (s : Space σ) (ops : List Op) :
    List.Forall₂ (P s) ops (s.run ops).1 := by
  induction ops generalizing s with
  | nil => exact .nil
  | cons op ops ih =>
    -- home and configuration are the same after the first step, and so is what is said of the others
    obtain ⟨hhome, hconfig⟩ := s.step_frame op
    have hrest : List.Forall₂ (P s) ops ((s.step op).space.run ops).1 :=
      (ih (s.step op).space).imp fun _ _ h => hframe hhome hconfig h
    exact .cons (hstep s op) hrest

theorem run_promised (s : Space σ) (ops : List Op) : List.Forall₂ s.Promised ops ((s.run ops).1.map Prod.fst) := by
  rw [List.forall₂_map_right_iff]
  exact run_forall₂ (P := fun s op entry => s.Promised op entry.1)
    (fun hhome hconfig => promised_of_eq hhome hconfig) step_promised s ops

theorem step_script (s : Space Script) (op : Op) :
    (s.step op).space.source = { s.source with cursor := s.source.cursor + op.cost s.config.maxProx } := by
  cases op with
  | refreshTarget bin =>
    have hdepth := s.maxProx_le
    by_cases hbin : bin < s.config.maxProx
    · have hwidth : bin < 256 := by omega
      have h := Address.randomAt_script s.home bin s.source
      rw [if_pos hwidth] at h
      simpa only [step, refreshTarget, Outcome.toStep, outcome, Op.cost, if_pos hbin] using h
    · have h := Address.commonBits_script s.home s.home s.config.maxProx s.source
      rw [Address.proximity_self, Nat.min_eq_left hdepth] at h
      simpa only [step, refreshTarget, Outcome.toStep, outcome, Op.cost, if_neg hbin] using h
  | randomAddressAt prox => exact Address.randomAt_script s.home prox s.source
  | randomAddress => exact congrArg Prod.snd (Script.fill_eq 32 s.source)
  | _ => rfl

theorem run_script (s : Space Script) (ops : List Op) :
    (s.run ops).2.source =
      { s.source with cursor := s.source.cursor + (ops.map (Op.cost s.config.maxProx)).sum } := by
  induction ops generalizing s with
  | nil => rfl
  | cons op ops ih => rw [run, ih, step_script, (s.step_frame op).2, List.map_cons, List.sum_cons, Nat.add_assoc]

/-- A space that was created keeps its promises over every run, and reads a script on without a gap. -/
theorem created_run_keeps_promises (home : Address) (config : Config) (ops : List Op) :
    (∀ {σ : Type} [ByteSource σ] (source : σ) {s : Space σ} {events : List Event},
      create home config source = .ok (s, events) →
        (s.run ops).2.home = home ∧ (s.run ops).2.config = config ∧
          List.Forall₂ s.Promised ops ((s.run ops).1.map Prod.fst)) ∧
      ∀ (script : List UInt8) {s : Space Script} {events : List Event},
        create home config (Script.ofBytes script) = .ok (s, events) →
          (s.run ops).2.source = ⟨script, (ops.map (Op.cost config.maxProx)).sum⟩ := by
  constructor
  · intro σ _ source s events h
    obtain ⟨hhome, hconfig, -⟩ := fields_of_create h
    obtain ⟨hhome', hconfig'⟩ := s.run_frame ops
    exact ⟨hhome'.trans hhome, hconfig'.trans hconfig, s.run_promised ops⟩
  · intro script s events h
    obtain ⟨-, hconfig, hsource⟩ := fields_of_create h
    rw [run_script, hconfig, hsource, Script.ofBytes, Nat.zero_add]

/-- A neighbourhood target beyond the depth, a clamped proximity, a query and a bin, from a script of three bytes. -/
theorem testing_run_keeps_promises :
    ∃ s : Space Script, create (Address.ofLeading [0x5a]) Config.testing (Script.ofBytes [1, 2, 3]) =
        .ok (s, [.created (Address.ofLeading [0x5a]) 4]) ∧
      let ops := [.refreshTarget 9, .randomAddressAt 300, .binOf Address.zero, .refreshTarget 3, .randomAddress]
      List.Forall₂ s.Promised ops ((s.run ops).1.map Prod.fst) ∧ (s.run ops).2.source = ⟨[1, 2, 3], 96⟩ := by
  refine ⟨⟨Address.ofLeading [0x5a], Config.testing, Script.ofBytes [1, 2, 3], rfl⟩, rfl, ?_⟩
  intro ops
  have h := created_run_keeps_promises (Address.ofLeading [0x5a]) Config.testing ops
  exact ⟨(h.1 (Script.ofBytes [1, 2, 3]) rfl).2.2, h.2 [1, 2, 3] rfl⟩

end Space
end Kademlia
