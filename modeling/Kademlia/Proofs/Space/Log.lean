import Kademlia.Proofs.Space.Neighbourhood
import Kademlia.Proofs.Space.Promises

/-!
What the log of a space says about its operations. From the events of a step its reply can be read: the target and its
bin, the range, and the number of neighbours. The warnings of a run are those of its operations, in their order.
-/
namespace Kademlia

structure Line where
  level : Level
  fields : List (String × Event.Field)
  deriving DecidableEq

def Event.line (e : Event) : Line := ⟨e.level, e.fields⟩

def warnings (events : List Event) : List Line := (events.map Event.line).filter (·.level = .warn)

@[simp] theorem warnings_append (es fs : List Event) : warnings (es ++ fs) = warnings es ++ warnings fs := by
  simp [warnings]

namespace Space
variable {σ : Type}

/-- The warning that an operation gives rise to in a space of the given depth: a proximity beyond the last bit, or a bin
beyond the neighbourhood. -/
def Op.warning? (depth : Nat) : Op → Option Line
  | .randomAddressAt prox =>
    if 256 ≤ prox then some ⟨.warn, [("prox", .number prox), ("max", .number 256)]⟩ else none
  | .refreshTarget bin =>
    if depth < bin then some ⟨.warn, [("bin", .number bin), ("max_prox", .number depth)]⟩ else none
  | _ => none

/-- The events of an operation tell what its reply is, and nothing else. -/
def Reported (s : Space σ) (op : Op) (entry : Reply × List Event) : Prop :=
  match op with
  | .refreshTarget _ => ∃ a, entry.1 = .address a ∧
      entry.2.map Event.line = (op.warning? s.config.maxProx).toList ++
        [⟨.trace, [("bin", .number (s.binOf a)), ("target", .address a)]⟩]
  | .randomAddressAt _ => entry.2.map Event.line = (op.warning? s.config.maxProx).toList
  | .keyRangeTo other | .keyRangeWithLimit other _ => ∃ range, entry.1 = .range range ∧
      entry.2.map Event.line = [⟨.debug, [("other", .address other), ("prox", .number range.prox),
        ("start", .address range.start), ("stop", .address range.stop)]⟩]
  | .neighbourhoodUnderfilled peers =>
      let count := peers.countP fun peer => peer ≠ s.home ∧ s.binOf peer = s.config.maxProx
      ∃ few, entry.1 = .flag few ∧ (few = true ↔ count < s.config.proxBinSize) ∧
        entry.2.map Event.line =
          if few then [⟨.debug, [("count", .number count), ("prox_bin_size", .number s.config.proxBinSize)]⟩] else []
  | .proximityTo _ | .binOf _ | .compare _ _ | .closest _ _ | .randomAddress => entry.2 = []

theorem reported_of_eq {s t : Space σ} (hhome : t.home = s.home) (hconfig : t.config = s.config) {op : Op}
    {entry : Reply × List Event} (h : t.Reported op entry) : s.Reported op entry := by
  have hbin : t.binOf = s.binOf := by
    funext a
    rw [binOf_eq_min, binOf_eq_min, hhome, hconfig]
  simpa only [Reported, hhome, hconfig, hbin] using h

theorem level_of_warning? {depth : Nat} {op : Op} {line : Line} (h : op.warning? depth = some line) :
    line.level = .warn := by
  cases op with
  | refreshTarget _ | randomAddressAt _ =>
    obtain ⟨-, hline⟩ := Option.ite_none_right_eq_some.mp h
    cases hline
    rfl
  | _ => cases h

theorem warnings_of_reported {s : Space σ} {op : Op} {entry : Reply × List Event} (h : s.Reported op entry) :
    warnings entry.2 = (op.warning? s.config.maxProx).toList := by
  have hwarn : (op.warning? s.config.maxProx).toList.filter (·.level = .warn) =
      (op.warning? s.config.maxProx).toList := by
    refine List.filter_eq_self.mpr fun line hline => ?_
    exact decide_eq_true (level_of_warning? (Option.mem_toList.mp hline))
  cases op with
  | refreshTarget bin =>
    obtain ⟨a, -, hlines⟩ := h
    rw [warnings, hlines, List.filter_append, hwarn]
    simp
  | randomAddressAt prox => rw [warnings, h, hwarn]
  | keyRangeTo _ | keyRangeWithLimit _ _ =>
    obtain ⟨range, -, hlines⟩ := h
    rw [warnings, hlines]
    rfl
  | neighbourhoodUnderfilled peers =>
    obtain ⟨few, -, -, hlines⟩ := h
    rw [warnings, hlines]
    cases few <;> rfl
  | _ =>
    rw [h]
    rfl

/-- The warnings of a log that reports all operations are the warnings of the operations. -/
theorem warnings_of_forall₂ {s : Space σ} {ops : List Op} {entries : List (Reply × List Event)}
    (h : List.Forall₂ s.Reported ops entries) :
    warnings (entries.flatMap Prod.snd) = ops.filterMap (Op.warning? s.config.maxProx) := by
  induction h with
  | nil => rfl
  | cons hstep _ ih =>
    rw [List.flatMap_cons, warnings_append, warnings_of_reported hstep, ih, List.filterMap_cons]
    cases Op.warning? _ _ <;> rfl

theorem neighbourhoodUnderfilled_reported (s : Space σ) (peers : List Address) :
    s.Reported (.neighbourhoodUnderfilled peers)
      (.flag (s.neighbourhoodUnderfilled peers).1, (s.neighbourhoodUnderfilled peers).2) := by
  have hcount : peers.countP (fun peer => peer ≠ s.home ∧ s.binOf peer = s.config.maxProx) = (s.neighbours peers).length :=
    List.countP_eq_length_filter
  refine ⟨_, rfl, ?_, ?_⟩
  · rw [hcount, ← Nat.not_le, ← neighbourhoodUnderfilled_eq_false_iff, Bool.not_eq_false]
  · rw [hcount]
    simp only [neighbourhoodUnderfilled]
    split <;> rfl

variable [ByteSource σ]

/-- The last event of a refresh names the target, and the bin in which the target is. -/
theorem lines_refreshTarget (s : Space σ) (bin : Nat) :
    (s.refreshTarget bin).events.map Event.line =
      ((Op.refreshTarget bin).warning? s.config.maxProx).toList ++
        [⟨.trace, [("bin", .number (s.binOf (s.refreshTarget bin).address)),
          ("target", .address (s.refreshTarget bin).address)]⟩] := by
  rw [binOf_refreshTarget]
  by_cases hbin : bin < s.config.maxProx
  · simp only [refreshTarget, Op.warning?, if_pos hbin, if_neg (Nat.not_lt_of_lt hbin), Nat.min_eq_left (Nat.le_of_lt hbin)]
    rfl
  · simp only [refreshTarget, Op.warning?, if_neg hbin, Nat.min_eq_right (Nat.not_lt.mp hbin)]
    split <;> rfl

theorem step_reported (s : Space σ) (op : Op) : s.Reported op ((s.step op).reply, (s.step op).events) := by
  cases op with
  | refreshTarget bin => exact ⟨_, rfl, s.lines_refreshTarget bin⟩
  | randomAddressAt prox =>
    simp only [Reported, step, randomAddressAt, Outcome.toStep, outcome, Op.warning?]
    split <;> rfl
  | keyRangeTo _ | keyRangeWithLimit _ _ => exact ⟨_, rfl, rfl⟩
  | neighbourhoodUnderfilled peers => exact s.neighbourhoodUnderfilled_reported peers
  | _ => rfl

theorem run_reported (s : Space σ) (ops : List Op) : List.Forall₂ s.Reported ops (s.run ops).1 :=
  run_forall₂ reported_of_eq step_reported s ops

/-- The log of a space that was created: every operation is reported as what it was, and the warnings of the whole log are
those of the operations, one for each that has one. -/
theorem log_reports_run (home : Address) (config : Config) (source : σ) {s : Space σ} {created : List Event}
    (h : create home config source = .ok (s, created)) (ops : List Op) :
    List.Forall₂ s.Reported ops (s.run ops).1 ∧
      warnings (created ++ (s.run ops).1.flatMap Prod.snd) = ops.filterMap (Op.warning? config.maxProx) := by
  obtain ⟨-, hconfig, -⟩ := fields_of_create h
  have hrun := s.run_reported ops
  have hquiet : warnings created = [] := by
    rw [events_of_create h]
    rfl
  refine ⟨hrun, ?_⟩
  rw [warnings_append, hquiet, List.nil_append, warnings_of_forall₂ hrun, hconfig]

/-- A run at depth 4 with a target beyond the neighbourhood, a proximity beyond the last bit, an empty neighbourhood and a
bin: two of its operations give rise to warnings. -/
theorem testing_log_reports_run :
    ∃ s : Space Counter, create (Address.ofLeading [0x5a]) Config.testing (Counter.mk 7) =
        .ok (s, [.created (Address.ofLeading [0x5a]) 4]) ∧
      let ops := [.refreshTarget 9, .randomAddressAt 300, .neighbourhoodUnderfilled [], .refreshTarget 3]
      List.Forall₂ s.Reported ops (s.run ops).1 ∧
        warnings (.created (Address.ofLeading [0x5a]) 4 :: (s.run ops).1.flatMap Prod.snd) =
          [⟨.warn, [("bin", .number 9), ("max_prox", .number 4)]⟩,
            ⟨.warn, [("prox", .number 300), ("max", .number 256)]⟩] := by
  refine ⟨⟨Address.ofLeading [0x5a], Config.testing, ⟨7⟩, rfl⟩, rfl, ?_⟩
  intro ops
  exact log_reports_run (Address.ofLeading [0x5a]) Config.testing (Counter.mk 7) rfl ops

end Space
end Kademlia
