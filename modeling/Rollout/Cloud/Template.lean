import Rollout.Cloud.Service
import Rollout.Json.Printer
import Rollout.Json.Parser
import Rollout.Text.Lowercase

/-!
Stack templates. A template is a JSON object. Of its resources the provider understands the
buckets, and one type that asks it to fail; of its outputs, those exported under a name.
-/

namespace Rollout

/-- The type of a resource that is a bucket. -/
def bucketType : String := "AWS::S3::Bucket"

/-- The type of a resource that makes the operation fail. -/
def failureType : String := "Liftoff::Local::Failure"

/-- A bucket that a template declares. -/
structure BucketSpec where
  logical : String
  physical : String
  versioned : Bool
deriving DecidableEq, Repr

namespace Template

/-- The template a text holds. -/
def parse (text : Option String) : Except ProviderError Json :=
  match text.bind Json.parse? with
  | none => .error (.rejected "template is not valid JSON: not a JSON document")
  | some (.obj members) => .ok (.obj members)
  | some _ => .error (.rejected "template must be a JSON object")

/-- The resources of a template by their logical names. -/
def resources (template : Json) : TextMap Json :=
  ((template.member? "Resources").bind Json.members?).getD []

/-- The type of a resource. -/
def resourceType (resource : Json) : Option String :=
  (resource.member? "Type").bind Json.str?

/-- Whether a template asks the provider to fail. -/
def requestsFailure (template : Json) : Bool :=
  (resources template).any fun (_, r) => resourceType r = some failureType

/-- The bucket a resource of a stack declares. Without a name of its own it is named after the
stack and the resource, in lower case. -/
def bucketSpec (stack logical : String) (resource : Json) : BucketSpec :=
  { logical := logical
    physical :=
      ((resource.path? ["Properties", "BucketName"]).bind Json.str?).getD
        (Text.lowercase (stack ++ "-" ++ logical))
    versioned :=
      (resource.path? ["Properties", "VersioningConfiguration", "Status"]).bind Json.str? =
        some "Enabled" }

/-- The buckets a template declares for a stack, in the order of their logical names. -/
def buckets (stack : String) (template : Json) : List BucketSpec :=
  ((resources template).filter fun (_, r) => resourceType r = some bucketType).map
    fun (logical, r) => bucketSpec stack logical r

/-- The value of an output: a text, the bucket that a reference means, or the JSON text of
anything else. -/
def outputValue (buckets : TextMap String) : Json → String
  | .str s => s
  | .obj members =>
    match (TextMap.get? "Ref" members).bind Json.str? with
    | some logical => (TextMap.get? logical buckets).getD logical
    | none => (Json.obj members).compact
  | v => v.compact

/-- The export an output declares, if it does. -/
def export? (buckets : TextMap String) (output : Json) : Option StackExport :=
  match (output.path? ["Export", "Name"]).bind Json.str?, output.member? "Value" with
  | some name, some value => some ⟨name, outputValue buckets value⟩
  | _, _ => none

/-- The exports of a template, in the order of its outputs. -/
def exports (buckets : TextMap String) (template : Json) : List StackExport :=
  match (template.member? "Outputs").bind Json.members? with
  | some outputs => outputs.filterMap fun (_, output) => export? buckets output
  | none => []

end Template

end Rollout
