import WaterNetwork.FileSystem
import WaterNetwork.Json.Decoding
import WaterNetwork.Json.Writer
import WaterNetwork.Yaml.Decoding
import WaterNetwork.Yaml.Writer

/-!
# Storing documents

Documents are stored as JSON or YAML files. A document is validated before it is written and
after it is read, so no file of an invalid document is written and none is accepted.
-/

namespace WaterNetwork

/-- Why a document is not loaded or saved. -/
inductive StorageError where
  | validation (source : ValidationError)
  | file (fault : FileFault)
  | malformedJson
  | unfitJson (mismatch : Mismatch)
  | unreadYaml

namespace StorageError

/-- The wording of a failure; the faults of a text's form are not put into words. -/
def message? : StorageError → Option String
  | validation source => some s!"Validation error: {source.message}"
  | file fault => some s!"I/O error: {fault.message}"
  | unfitJson m => some s!"JSON error: {m.message}"
  | malformedJson | unreadYaml => none

/-- The failure that a fault of a JSON text is. -/
def ofReadFault : ReadFault → StorageError
  | .malformed => malformedJson
  | .misfit m => unfitJson m

end StorageError

/-- The formats of documents. -/
inductive Format where
  | json
  | yaml
  deriving DecidableEq

namespace Format

/-- Read the document that a text stands for. -/
def decode : Format → String → Except StorageError Document
  | json, text =>
    (Json.readText (Json.readDocument Json.depthLimit) text).mapError .ofReadFault
  | yaml, text =>
    match Yaml.document? text with
    | some d => .ok d
    | none => .error .unreadYaml

/-- The text of a document. -/
def encode : Format → Document → String
  | json, d => Json.pretty 0 d.toContent
  | yaml, d => Yaml.render d.toContent

end Format

namespace Document

/-- Load a document from a file. -/
def load (format : Format) (files : FileSystem) (path : Path) : Except StorageError Document := do
  let text ← (files.readText path).mapError .file
  let d ← format.decode text
  (d.validate).mapError .validation
  return d

/-- Save a document to a file. -/
def save (format : Format) (files : FileSystem) (path : Path) (d : Document) :
    Except StorageError FileSystem := do
  (d.validate).mapError .validation
  (files.writeText path (format.encode d)).mapError .file

end Document

end WaterNetwork
