import GrammarAtlas.Finding.Basic
import GrammarAtlas.Group.Assembly
import GrammarAtlas.Json.Reader
import GrammarAtlas.Json.Writer

/-!
# Findings and settings as JSON

Findings come from an analyser as records, and the settings of graph assembly
from a configuration.  Both are read leniently as far as fields go and strictly
as far as types go.
-/

namespace GrammarAtlas

/-- The message about a text that is no configuration or no finding. -/
def Json.Fault.report (whole : Text) (f : Json.Fault) : Text :=
  "invalid configuration: ".toList ++ f.message whole

namespace Finding

/-- The fields of the record. -/
def fields : List (Json.Field Finding) := [
  .of "message".toList Json.string fun f v => { f with message := v },
  .of "rules".toList (Json.list Json.string) fun f v => { f with rules := v },
  .of "paths".toList (Json.list (Json.list Json.stateId)) fun f v => { f with paths := v },
  .of "pathsDisabled".toList (Json.list Json.boolean) fun f v => { f with pathsDisabled := v }]

/-- Reads one record. -/
def reader : Json.Reader Finding := Json.record "GrammarError".toList fields {}

/-- The finding in a JSON text. -/
def ofJson (t : Text) : Except Json.Fault Finding := Json.whole reader t

/-- The list of findings in a JSON text. -/
def listOfJson (t : Text) : Except Json.Fault (List Finding) := Json.whole (Json.list reader) t

/-- The finding as a JSON text. -/
def toJson (f : Finding) : Text :=
  Json.writeObject [
    ("message".toList, Json.writeString f.message),
    ("rules".toList, Json.writeList (f.rules.map Json.writeString)),
    ("paths".toList, Json.writeList (f.paths.map fun p => Json.writeList (p.map Text.decimal))),
    ("pathsDisabled".toList, Json.writeList (f.pathsDisabled.map Json.writeBool))]

end Finding

namespace AssemblyConfig

/-- Reads one record. -/
def reader : Json.Reader AssemblyConfig :=
  Json.record "AssemblerConfig".toList
    [.of "optimize".toList Json.boolean fun c v => { c with optimize := v }] {}

/-- The settings in a JSON text. -/
def ofJson (t : Text) : Except Json.Fault AssemblyConfig := Json.whole reader t

/-- The settings as a JSON text. -/
def toJson (c : AssemblyConfig) : Text :=
  Json.writeObject [("optimize".toList, Json.writeBool c.optimize)]

end AssemblyConfig
end GrammarAtlas
