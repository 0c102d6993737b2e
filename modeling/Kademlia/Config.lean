/-!
The two constants that a routing table agrees on: where the neighbourhood begins, and how many peers it wants. They are
taken from a provider, which may have read them or may have been given them.
-/
namespace Kademlia

structure Config where
  /-- The proximity order at which the neighbourhood begins. -/
  maxProx : Nat := 8
  /-- The number of peers expected in the neighbourhood bin. -/
  proxBinSize : Nat := 2
  deriving DecidableEq

inductive Defect where
  | beyondWidth (maxProx : Nat)
  | emptyBin
  deriving DecidableEq

def Defect.message : Defect → String
  | .beyondWidth maxProx => s!"max_prox {maxProx} exceeds address width 256"
  | .emptyBin => "prox_bin_size cannot be 0"

inductive ConfigError where
  | unreadable (path detail : String)
  | malformed (detail : String)
  | invalid (detail : String)
  deriving DecidableEq

def ConfigError.message : ConfigError → String
  | .unreadable path detail => s!"Failed to read {path}: {detail}"
  | .malformed detail => "Failed to parse config: " ++ detail
  | .invalid detail => "Invalid config: " ++ detail

namespace Config

def testing : Config := ⟨4, 1⟩

def withMaxProx (c : Config) (maxProx : Nat) : Config := { c with maxProx }

def defect? (c : Config) : Option Defect :=
  if 256 < c.maxProx then some (.beyondWidth c.maxProx)
  else if c.proxBinSize = 0 then some .emptyBin
  else none

theorem defect?_eq_none {c : Config} : c.defect? = none ↔ c.maxProx ≤ 256 ∧ 0 < c.proxBinSize := by
  unfold defect?
  split
  · simp; omega
  · split <;> simp <;> omega

def checked (c : Config) : Except ConfigError { c : Config // c.defect? = none } :=
  match h : c.defect? with
  | none => .ok ⟨c, h⟩
  | some d => .error (.invalid d.message)

def binFor (c : Config) (prox : Nat) : Nat := min prox c.maxProx

def underfilled (c : Config) (count : Nat) : Bool := count < c.proxBinSize

end Config

class ConfigProvider (π : Type) where
  config : π → Config

structure StaticConfig where
  config : Config := {}

namespace StaticConfig

def withConfig (s : StaticConfig) (config : Config) : StaticConfig := { s with config }

instance : ConfigProvider StaticConfig := ⟨config⟩

end StaticConfig
end Kademlia
