import Kademlia.Config.Toml
import Kademlia.Diagnostic

/-!
Files that hold a configuration. Only a file whose configuration has no defect is accepted.
-/
namespace Kademlia

structure ConfigFile where
  config : Config
  deriving DecidableEq

namespace ConfigFile

def parse (text : String) : Except ConfigError ConfigFile :=
  match Toml.parse text with
  | .error f => .error (.malformed f.message)
  | .ok es =>
    match Config.ofToml es with
    | .error m => .error (.malformed m.message)
    | .ok config =>
      match config.defect? with
      | some d => .error (.invalid d.message)
      | none => .ok ⟨config⟩

theorem defect?_of_parse {text : String} {file : ConfigFile} (h : parse text = .ok file) :
    file.config.defect? = none := by
  unfold parse at h
  split at h
  · cases h
  · split at h
    · cases h
    · split at h
      · cases h
      · cases h
        assumption

abbrev Contents := Option ByteArray

def load (path : String) (contents : Contents) : Except ConfigError (ConfigFile × List Event) :=
  match contents with
  | none => .error (.unreadable path "No such file or directory (os error 2)")
  | some bytes =>
    match String.fromUTF8? bytes with
    | none => .error (.unreadable path "stream did not contain valid UTF-8")
    | some text =>
      match parse text with
      | .error e => .error e
      | .ok file => .ok (file, [.configLoaded path file.config.maxProx])

end ConfigFile

instance : ConfigProvider ConfigFile := ⟨ConfigFile.config⟩

instance : Diagnostic ConfigFile :=
  ⟨fun file => Diagnostic.fields "TomlConfigProvider" [("config", Diagnostic.debug file.config)]⟩

end Kademlia
