import Rollout.Project
import Rollout.Json.Fields
import Rollout.Json.Printer

/-!
The project descriptor as a JSON document, read and written.
-/

namespace Rollout

open Json

/-- A path written as a string. -/
def pathField? (w : Written) : Option Path := w.text?.map Path.ofString

/-- The stages of a function: a list of texts, kept in order and each once. -/
def stagesField? (w : Written) : Option (List String) :=
  (w.list? Written.text?).map Text.sortDistinct

/-- A function of the descriptor. -/
def FunctionSpec.ofWritten? (w : Written) : Option FunctionSpec :=
  match w.fields? ["entry_point", "artifact", "stages", "version_token", "compiled_files"] with
  | some [entryPoint, artifact, stages, token, files] => do
    return {
      entryPoint := ← required Written.text? entryPoint
      artifact := ← required Written.text? artifact
      stages := ← defaulted stagesField? [] stages
      versionToken := ← required Written.text? token
      compiledFiles := ← defaulted (Written.list? pathField?) [] files }
  | _ => none

/-- An export of the descriptor. -/
def ExportWatch.ofWritten? (w : Written) : Option ExportWatch :=
  match w.fields? ["export_name", "substitution_token", "message"] with
  | some [name, token, message] => do
    return {
      exportName := ← required Written.text? name
      token := ← required Written.text? token
      message := ← defaulted Written.text? "" message }
  | _ => none

/-- A file upload of the descriptor. -/
def FileUpload.ofWritten? (w : Written) : Option FileUpload :=
  match w.fields? ["bucket", "source", "target", "substitute"] with
  | some [bucket, source, target, substitute] => do
    return {
      bucket := ← required Written.text? bucket
      source := ← required pathField? source
      target := ← required Written.text? target
      substitute := ← defaulted Written.bool? false substitute }
  | _ => none

namespace Project

/-- The project a document describes. -/
def ofWritten? (w : Written) : Option Project :=
  match w.fields? ["project_name", "compilation_timestamp", "functions", "exports",
      "file_uploads", "after_deploy", "assemble", "shared_artifact"] with
  | some [name, timestamp, functions, exports, uploads, hooks, assemble, shared] => do
    return {
      name := ← required Written.text? name
      timestamp := ← required Written.text? timestamp
      functions := ← defaulted (Written.list? FunctionSpec.ofWritten?) [] functions
      exports := ← defaulted (Written.map? (Written.list? ExportWatch.ofWritten?)) [] exports
      fileUploads := ← defaulted (Written.map? (Written.list? FileUpload.ofWritten?)) [] uploads
      afterDeploy := ← defaulted (Written.map? (Written.list? Written.text?)) [] hooks
      assemble := ← defaulted Written.bool? true assemble
      sharedArtifact := ← defaulted (Written.optional? Written.text?) none shared }
  | _ => none

/-- The project a text describes. -/
def parse? (text : String) : Option Project :=
  (Written.parse? text).bind ofWritten?

end Project

/-- The descriptor of a function. -/
def FunctionSpec.toJson (f : FunctionSpec) : Json :=
  .object ([("entry_point", .str f.entryPoint), ("artifact", .str f.artifact),
    ("stages", .strs f.stages), ("version_token", .str f.versionToken)] ++
    if f.compiledFiles.isEmpty then []
    else [("compiled_files", .strs (f.compiledFiles.map Path.text))])

/-- The descriptor of an export. -/
def ExportWatch.toJson (e : ExportWatch) : Json :=
  .object [("export_name", .str e.exportName), ("substitution_token", .str e.token),
    ("message", .str e.message)]

/-- The descriptor of a file upload. -/
def FileUpload.toJson (u : FileUpload) : Json :=
  .object [("bucket", .str u.bucket), ("source", .str u.source.text), ("target", .str u.target),
    ("substitute", .bool u.substitute)]

/-- A map of lists as an object of arrays. -/
def listsToJson {α : Type} (toJson : α → Json) (m : TextMap (List α)) : Json :=
  .obj (m.map fun (k, l) => (k, .arr (l.map toJson)))

/-- The descriptor of a project. -/
def Project.toJson (p : Project) : Json :=
  .object ([("project_name", .str p.name), ("compilation_timestamp", .str p.timestamp),
    ("functions", .arr (p.functions.map FunctionSpec.toJson)),
    ("exports", listsToJson ExportWatch.toJson p.exports),
    ("file_uploads", listsToJson FileUpload.toJson p.fileUploads),
    ("after_deploy", listsToJson .str p.afterDeploy),
    ("assemble", .bool p.assemble)] ++
    match p.sharedArtifact with
    | some artifact => [("shared_artifact", .str artifact)]
    | none => [])

end Rollout
