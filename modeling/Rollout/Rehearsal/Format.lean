import Rollout.Json.Access
import Rollout.Rehearsal.Fault
import Rollout.Rehearsal.Script

/-!
Rehearsals as JSON documents: the errors, faults and scripts that a rehearsal is made of.
-/

namespace Rollout

/-- A store error by its kind and its text; of a missing or filled bucket the text is the name. -/
def StoreError.ofJson (v : Json) : StoreError :=
  let text := v.textAt "message"
  match v.textAt "kind" with
  | "NoSuchBucket" => .noSuchBucket text
  | "BucketNotEmpty" => .bucketNotEmpty text
  | "Io" => .files (.other text)
  | _ => .service text

/-- A provider error by its kind and its text. -/
def ProviderError.ofJson (v : Json) : ProviderError :=
  if v.textAt "kind" = "Rejected" then .rejected (v.textAt "message")
  else .unavailable (v.textAt "message")

/-- A hook error by its kind, the name of the hook and its text. -/
def HookError.ofJson (v : Json) : HookError :=
  if v.textAt "kind" = "Invoke" then .notInvoked (v.textAt "name") (v.textAt "message")
  else .failed (v.textAt "name") (v.textAt "message")

/-- A page of exports. -/
def ExportPage.ofJson (v : Json) : ExportPage :=
  ⟨(v.itemsAt "exports").map fun e => ⟨e.textPair.1, e.textPair.2⟩, v.textAt? "next"⟩

/-- The answer a fault gives, if it gives one: a breakdown, a status, a page, or an error of the
service it strikes. -/
def Reply.ofJson? (v : Json) : Option Reply :=
  let error := v.part "error"
  if v.boolAt "panic" then some .crash
  else if (v.member? "status").isSome then some (.status (.ofText (v.textAt "status")))
  else if (v.member? "exports").isSome then some (.exports (.ofJson v))
  else if error.isNull then none
  else if v.textAt "on" = "invoke" then some (.hookError (.ofJson error))
  else if ["Rejected", "Unavailable"].contains (error.textAt "kind") then
    some (.providerError (.ofJson error))
  else some (.storeError (.ofJson error))

/-- A fault: it strikes one call, the first, if nothing else is said. -/
def Fault.ofJson (v : Json) : Fault :=
  { method := v.textAt "on"
    key := v.textAt? "key"
    nth := (v.natAt? "nth").getD 1
    count := (v.natAt? "count").getD 1
    cancel := v.boolAt "cancel"
    reply := Reply.ofJson? v }

/-- An answer that is a word or an error. -/
def scriptedAnswer {α : Type} (v : Json) (read : String → α) : Except ProviderError α :=
  if (v.member? "kind").isSome then .error (.ofJson v) else .ok (read v.textOf)

/-- A scripted status: its text, alone or with the wish to stop, or an error. -/
def statusCue (v : Json) : Cue StackStatus :=
  match v.textAt? "cancel" with
  | some text => ⟨.ok (.ofText text), true⟩
  | none => ⟨scriptedAnswer v StackStatus.ofText, false⟩

/-- A scripted page, or an error. -/
def pageCue (v : Json) : Cue ExportPage :=
  ⟨scriptedAnswer v fun _ => .ofJson v, v.boolAt "cancel"⟩

/-- A script. -/
def Script.ofJson (v : Json) : Script :=
  { create := scriptedAnswer (v.part "create") fun word =>
      if word = "exists" then .alreadyExists else .created
    update := scriptedAnswer (v.part "update") fun word =>
      if word = "unchanged" then .noChanges else .updating
    delete := scriptedAnswer (v.part "delete") fun _ => ()
    statuses := (v.itemsAt "statuses").map statusCue
    repeatLast := v.boolAt "repeat_last"
    pages := (v.itemsAt "pages").map pageCue }

end Rollout
