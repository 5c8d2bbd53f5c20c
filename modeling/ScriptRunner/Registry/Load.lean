import ScriptRunner.Document.Json
import ScriptRunner.Document.Toml
import ScriptRunner.Document.Yaml.Node
import ScriptRunner.Failure
import ScriptRunner.Path
import ScriptRunner.Registry.Decode

/-!
# ScriptRunner.Registry.Load

Reading registries in their three formats. The format of a file follows from the
extension of its name.
-/

namespace ScriptRunner

namespace DocumentFormat

/-- The document of a text. -/
def document? (format : DocumentFormat) (text : String) : Option Document :=
  match format with
  | .json => Json.parse? text.toList
  | .yaml => Yaml.parse? text.toList
  | .toml => Toml.parse? text.toList

/-- How deep the lists and maps of a document may be nested where their values matter. -/
def room : DocumentFormat → Nat
  | .json => 127
  | .yaml => 128
  | .toml => Toml.levelLimit + 1

/-- Whether a registry may be written as the list of its sections. -/
def admitsList : DocumentFormat → Bool
  | .json => true
  | .yaml => false
  | .toml => false

/-- The format of a file: by its extension, in capitals or not, and JSON for all others. -/
def ofPath (path : Path) : DocumentFormat :=
  match (Path.extension path).map (fun e => String.ofList (Text.lowerAscii e.toList)) with
  | some "yaml" => .yaml
  | some "yml" => .yaml
  | some "toml" => .toml
  | _ => .json

end DocumentFormat

namespace Registry

/-- The registry of a text. -/
def parse (format : DocumentFormat) (text : String) : Except Failure Registry :=
  match (format.document? text).bind (Decode.registry? format.admitsList format.room) with
  | some registry => .ok registry
  | none => .error (.badDocument format)

end Registry

/-- The entry of a JSON text. -/
def Entry.parse (text : String) : Except Failure Entry :=
  match (Json.parse? text.toList).bind (fun d =>
    if d.usable && decide (d.depth ≤ DocumentFormat.room .json) then Decode.entryOf d else none) with
  | some entry => .ok entry
  | none => .error (.badDocument .json)

end ScriptRunner
