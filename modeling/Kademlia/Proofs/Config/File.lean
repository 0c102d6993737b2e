import Kademlia.ByteSource.Script
import Kademlia.Config.File
import Kademlia.Config.Json
import Kademlia.Proofs.Toml.Setting

/-!
Configurations from text: what comes of a table with the two numbers, in either order or with one of them left out. Any
text that is accepted gives a configuration from which an address space can be made.
-/
namespace Kademlia

namespace Config
open Toml Text

theorem lookup_settingEntries (key : String) (ss : List (String × Nat)) :
    (settingEntries ss).lookup key = (ss.lookup key).map fun k : Nat => Value.integer k := by
  induction ss with
  | nil => rfl
  | cons s ss ih =>
    have hcons : settingEntries (s :: ss) = (s.1, .integer s.2) :: settingEntries ss := rfl
    rw [hcons, List.lookup_cons, List.lookup_cons, ih]
    cases key == s.1 <;> rfl

theorem naturalOr_integer (default : Nat) (name : String) (n : Option Nat) :
    naturalOr default name (n.map fun k : Nat => Value.integer k) = .ok (n.getD default) := by
  cases n <;> rfl

/-- A table of numbers gives the fields that it names; others are passed over. -/
theorem ofToml_settings (ss : List (String × Nat)) : ofToml [(tableName, .table .header (settingEntries ss))] =
    .ok (ofFields (ss.lookup maxProxKey) (ss.lookup proxBinSizeKey)) := by
  have htable : List.lookup tableName [(tableName, Value.table .header (settingEntries ss))] =
      some (.table .header (settingEntries ss)) := by
    rw [List.lookup_cons, beq_self_eq_true]
  rw [ofToml, htable, ofTable, ofValues, lookup_settingEntries, lookup_settingEntries, naturalOr_integer,
    naturalOr_integer]
  rfl

end Config

namespace ConfigFile
open Toml Text Config

theorem bareKey_tableName : BareKey tableName := ⟨by decide, forall_mem_of_all (by decide)⟩

theorem bareKey_of_mem : ∀ key ∈ [maxProxKey, proxBinSizeKey], BareKey key := by
  have hmax : BareKey maxProxKey := ⟨by decide, forall_mem_of_all (by decide)⟩
  have hsize : BareKey proxBinSizeKey := ⟨by decide, forall_mem_of_all (by decide)⟩
  simp [hmax, hsize]

/-- What comes of two numbers in a file. One that does not fit 64 bits with a sign makes the text malformed; otherwise
the configuration may have a defect, the depth being looked at first. -/
def Settled (maxProx proxBinSize : Nat) (result : Except ConfigError ConfigFile) : Prop :=
  if Nat.pow 2 63 ≤ maxProx ∨ Nat.pow 2 63 ≤ proxBinSize then ∃ detail, result = .error (.malformed detail)
  else if 256 < maxProx then result = .error (.invalid s!"max_prox {maxProx} exceeds address width 256")
  else if proxBinSize = 0 then result = .error (.invalid "prox_bin_size cannot be 0")
  else result = .ok ⟨⟨maxProx, proxBinSize⟩⟩

/-- Numbers that fit leave one result only. -/
theorem Settled.unique {m n : Nat} {r r' : Except ConfigError ConfigFile} (hm : m < Nat.pow 2 63)
    (hn : n < Nat.pow 2 63) (h : Settled m n r) (h' : Settled m n r') : r = r' := by
  have hfit : ¬(Nat.pow 2 63 ≤ m ∨ Nat.pow 2 63 ≤ n) := by omega
  rw [Settled, if_neg hfit] at h h'
  by_cases hdepth : 256 < m
  · rw [if_pos hdepth] at h h'
    exact h.trans h'.symm
  · rw [if_neg hdepth] at h h'
    by_cases hempty : n = 0
    · rw [if_pos hempty] at h h'
      exact h.trans h'.symm
    · rw [if_neg hempty] at h h'
      exact h.trans h'.symm

section
variable (ss : List (String × Nat)) (hnames : ∀ s ∈ ss, s.1 ∈ [maxProxKey, proxBinSizeKey]) {text : String}
  (htext : text.toList = settingsText tableName ss)
include hnames htext

theorem parse_settings (hnodup : (ss.map Prod.fst).Nodup) (hfit : Fit ss) :
    parse text = (ofFields (ss.lookup maxProxKey) (ss.lookup proxBinSizeKey)).defect?.elim
      (.ok ⟨ofFields (ss.lookup maxProxKey) (ss.lookup proxBinSizeKey)⟩) fun d => .error (.invalid d.message) := by
  have hkeys : ∀ s ∈ ss, BareKey s.1 := fun s hs => bareKey_of_mem s.1 (hnames s hs)
  rw [parse, Toml.parse_settings bareKey_tableName hkeys hnodup hfit htext]
  simp only [ofToml_settings]
  cases (ofFields (ss.lookup maxProxKey) (ss.lookup proxBinSizeKey)).defect? <;> rfl

theorem parse_settings_malformed (hfit : ¬Fit ss) : ∃ detail, parse text = .error (.malformed detail) := by
  have hkeys : ∀ s ∈ ss, BareKey s.1 := fun s hs => bareKey_of_mem s.1 (hnames s hs)
  obtain ⟨line, hline⟩ := parse_settings_error bareKey_tableName hkeys hfit htext
  rw [parse, hline]
  exact ⟨_, rfl⟩

/-- The numbers may stand in any order, and one that is left out has its default. -/
theorem settled_parse (c : Config) (hnodup : (ss.map Prod.fst).Nodup)
    (hfields : ofFields (ss.lookup maxProxKey) (ss.lookup proxBinSizeKey) = c)
    (hfit : Fit ss ↔ c.maxProx < Nat.pow 2 63 ∧ c.proxBinSize < Nat.pow 2 63) :
    Settled c.maxProx c.proxBinSize (parse text) := by
  unfold Settled
  by_cases hlarge : Nat.pow 2 63 ≤ c.maxProx ∨ Nat.pow 2 63 ≤ c.proxBinSize
  · rw [if_pos hlarge]
    refine parse_settings_malformed ss hnames htext fun h => ?_
    have hsmall := hfit.mp h
    omega
  · have hsmall : Fit ss := hfit.mpr (by omega)
    rw [if_neg hlarge, parse_settings ss hnames htext hnodup hsmall, hfields, defect?]
    by_cases hdepth : 256 < c.maxProx
    · rw [if_pos hdepth, if_pos hdepth]
      rfl
    · rw [if_neg hdepth, if_neg hdepth]
      by_cases hempty : c.proxBinSize = 0
      · rw [if_pos hempty, if_pos hempty]
        rfl
      · rw [if_neg hempty, if_neg hempty]
        rfl

end

end ConfigFile

namespace Space
variable {σ : Type}

theorem create_of_usable (home : Address) {config : Config} (usable : config.defect? = none) (source : σ) :
    create home config source = .ok (⟨home, config, source, usable⟩, [.created home config.maxProx]) := by
  have hchecked : config.checked = .ok ⟨config, usable⟩ := by
    unfold Config.checked
    split
    · rfl
    · next h => exact absurd (usable.symm.trans h) nofun
  rw [create, hchecked]

theorem fromProvider_of_usable {π : Type} [ConfigProvider π] (home : Address) {provider : π}
    (usable : (ConfigProvider.config provider).defect? = none) (source : σ) : fromProvider home provider source =
      .ok (⟨home, ConfigProvider.config provider, source, usable⟩,
        [.created home (ConfigProvider.config provider).maxProx]) :=
  create_of_usable home usable source

end Space

namespace ConfigFile
open Toml

theorem settled_tables (m n : Nat) :
    Settled m n (parse s!"[address_space]\nmax_prox = {m}\nprox_bin_size = {n}\n") ∧
      Settled m n (parse s!"[address_space]\nprox_bin_size = {n}\nmax_prox = {m}\n") ∧
      Settled m 2 (parse s!"[address_space]\nmax_prox = {m}\n") ∧
      Settled 8 n (parse s!"[address_space]\nprox_bin_size = {n}\n") := by
  have hboth : [Config.maxProxKey, Config.proxBinSizeKey].Nodup := by decide
  have hswapped : [Config.proxBinSizeKey, Config.maxProxKey].Nodup := by decide
  refine ⟨settled_parse [(Config.maxProxKey, m), (Config.proxBinSizeKey, n)] (by simp) ?_ ⟨m, n⟩ hboth rfl
      (by simp [Fit]),
    settled_parse [(Config.proxBinSizeKey, n), (Config.maxProxKey, m)] (by simp) ?_ ⟨m, n⟩ hswapped rfl
      (by simp [Fit, and_comm]),
    settled_parse [(Config.maxProxKey, m)] (by simp) ?_ ⟨m, 2⟩ (by simp) rfl (by simp [Fit]),
    settled_parse [(Config.proxBinSizeKey, n)] (by simp) ?_ ⟨8, n⟩ (by simp) rfl (by simp [Fit])⟩
  -- each text consists of the header and the lines of its numbers
  all_goals simp [settingsText, headerLine, settingLines, settingLine, Config.tableName, Config.maxProxKey,
    Config.proxBinSizeKey, ToString.toString]

/-- What is read from a table with both numbers, which is the same in either order if they fit, or with only one of them;
and no text is accepted from which no address space can be made. -/
theorem parse_numbers_settled (m n : Nat) :
    Settled m n (parse s!"[address_space]\nmax_prox = {m}\nprox_bin_size = {n}\n") ∧
      Settled m n (parse s!"[address_space]\nprox_bin_size = {n}\nmax_prox = {m}\n") ∧
      (m < Nat.pow 2 63 → n < Nat.pow 2 63 →
        parse s!"[address_space]\nprox_bin_size = {n}\nmax_prox = {m}\n" =
          parse s!"[address_space]\nmax_prox = {m}\nprox_bin_size = {n}\n") ∧
      Settled m 2 (parse s!"[address_space]\nmax_prox = {m}\n") ∧
      Settled 8 n (parse s!"[address_space]\nprox_bin_size = {n}\n") ∧
      ∀ (text : String) (file : ConfigFile), parse text = .ok file →
        ∀ (σ : Type) (home : Address) (source : σ), ∃ space : Space σ,
          Space.fromProvider home file source = .ok (space, [.created home file.config.maxProx]) ∧
          space.home = home ∧ space.config = file.config ∧ space.source = source := by
  obtain ⟨hdepthFirst, hsizeFirst, hdepth, hsize⟩ := settled_tables m n
  refine ⟨hdepthFirst, hsizeFirst, ?_, hdepth, hsize, ?_⟩
  · intro hm hn
    exact Settled.unique hm hn hsizeFirst hdepthFirst
  · intro text file h σ home source
    exact ⟨_, Space.fromProvider_of_usable home (defect?_of_parse h) source, rfl, rfl, rfl⟩

/-- The usual table and the same with its lines swapped, and a table in braces with numbers in other notations. -/
theorem braced_parse_numbers_settled :
    let text := "address_space = \x7b prox_bin_size = 0x1f, max_prox = 2_56 \x7d # deep\n"
    parse "[address_space]\nmax_prox = 12\nprox_bin_size = 4\n" = .ok ⟨⟨12, 4⟩⟩ ∧
      parse "[address_space]\nprox_bin_size = 4\nmax_prox = 12\n" =
        parse "[address_space]\nmax_prox = 12\nprox_bin_size = 4\n" ∧
      parse text = .ok ⟨⟨256, 31⟩⟩ ∧
      ∃ space : Space Script,
        Space.fromProvider .zero (⟨⟨256, 31⟩⟩ : ConfigFile) .empty = .ok (space, [.created .zero 256]) ∧
        space.home = .zero ∧ space.config = ⟨256, 31⟩ ∧ space.source = .empty := by
  intro text
  obtain ⟨husual, -, hsame, -, -, hspaces⟩ := parse_numbers_settled 12 4
  have hdepthFirst : s!"[address_space]\nmax_prox = {12}\nprox_bin_size = {4}\n" =
      "[address_space]\nmax_prox = 12\nprox_bin_size = 4\n" := by decide +kernel
  have hsizeFirst : s!"[address_space]\nprox_bin_size = {4}\nmax_prox = {12}\n" =
      "[address_space]\nprox_bin_size = 4\nmax_prox = 12\n" := by decide +kernel
  have hfile : parse text = .ok ⟨⟨256, 31⟩⟩ := by
    have hread : (parse text).toOption = some ⟨⟨256, 31⟩⟩ := by decide +kernel
    cases hparse : parse text with
    | error e => rw [hparse] at hread; cases hread
    | ok file => rw [hparse] at hread; cases hread; rfl
  rw [hdepthFirst, Settled, if_neg (by decide), if_neg (by decide), if_neg (by decide)] at husual
  rw [hsizeFirst, hdepthFirst] at hsame
  exact ⟨husual, hsame (by decide) (by decide), hfile, hspaces text _ hfile Script .zero .empty⟩

end ConfigFile
end Kademlia
