import Kademlia.Proofs.ByteSource.Bisimulation
import Kademlia.Space.Run
import Mathlib.Logic.Basic

/-!
Spaces on sources that cannot be told apart. With the same home and configuration they reply to all operations alike and
report the same events, in every run.
-/
namespace Kademlia
variable {σ τ : Type} {R : σ → τ → Prop}

/-- Two spaces with the same home and the same configuration, on related sources. -/
structure Space.Beside (R : σ → τ → Prop) (s : Space σ) (t : Space τ) : Prop where
  home : s.home = t.home
  config : s.config = t.config
  source : R s.source t.source

namespace Bisimulation
variable [ByteSource σ] [ByteSource τ] {s : Space σ} {t : Space τ}

theorem spaceStep (hR : Bisimulation R) (h : s.Beside R t) (op : Space.Op) :
    (s.step op).reply = (t.step op).reply ∧ (s.step op).events = (t.step op).events ∧
      (s.step op).space.Beside R (t.step op).space := by
  obtain ⟨home, config, source, usable⟩ := s
  obtain ⟨home', config', source', usable'⟩ := t
  obtain ⟨rfl, rfl, hsource⟩ := h
  cases op with
  | refreshTarget bin =>
    by_cases hbin : bin < config.maxProx
    · obtain ⟨haddress, hrest⟩ := hR.randomAt hsource home bin
      simp only [Space.step, Space.refreshTarget, Space.Outcome.toStep, Space.outcome, if_pos hbin]
      exact ⟨congrArg Space.Reply.address haddress, by rw [haddress], rfl, rfl, hrest⟩
    · obtain ⟨haddress, hrest⟩ := hR.commonBits hsource home home config.maxProx
      simp only [Space.step, Space.refreshTarget, Space.Outcome.toStep, Space.outcome, if_neg hbin]
      exact ⟨congrArg Space.Reply.address haddress, by rw [haddress], rfl, rfl, hrest⟩
  | randomAddressAt prox =>
    obtain ⟨haddress, hrest⟩ := hR.randomAt hsource home prox
    exact ⟨congrArg Space.Reply.address haddress, rfl, rfl, rfl, hrest⟩
  | randomAddress =>
    obtain ⟨haddress, hrest⟩ := hR.draw hsource home none
    exact ⟨congrArg Space.Reply.address haddress, rfl, rfl, rfl, hrest⟩
  | _ => exact ⟨rfl, rfl, rfl, rfl, hsource⟩

theorem spaceRun (hR : Bisimulation R) (h : s.Beside R t) (ops : List Space.Op) :
    Agree (Space.Beside R) (s.run ops) (t.run ops) := by
  induction ops generalizing s t with
  | nil => exact ⟨rfl, h⟩
  | cons op ops ih =>
    obtain ⟨hreply, hevents, hnext⟩ := hR.spaceStep h op
    obtain ⟨hrest, hlast⟩ := ih hnext
    exact ⟨congrArg₂ List.cons (Prod.ext hreply hevents) hrest, hlast⟩

end Bisimulation
end Kademlia
