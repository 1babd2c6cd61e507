import Rollout.Run.Destroy
import Rollout.Run.Plan

/-!
Reports for people: a headline, the facts below it, and what fell short at the end.
-/

namespace Rollout

/-- In short, which functions are redeployed and why. -/
def RedeployMode.describe : RedeployMode → String
  | .incremental => "incremental"
  | .full .firstDeployment => "full (first deployment)"
  | .full .sharedArtifact => "full (shared artifact)"
  | .full (.markerMismatch mine theirs) =>
    "full (local record " ++ mine ++ " does not match remote marker " ++
      theirs.getD "<none>" ++ ")"

namespace Report

/-- The signs at the start of a line. -/
structure Signs where
  check : String
  cross : String
  upload : String
  reuse : String
  warn : String
deriving DecidableEq, Repr

/-- Signs for a terminal that knows more than ASCII. -/
def Signs.unicode : Signs := ⟨"✓", "✗", "↑", "○", "⚠"⟩

/-- Signs in ASCII. -/
def Signs.ascii : Signs := ⟨"[OK]", "[FAIL]", "^", "[ ]", "[!]"⟩

/-- How a report for people is written. -/
structure TextStyle where
  unicode : Bool
  verbose : Nat
deriving DecidableEq, Repr

/-- The style used if nothing is said about it. -/
def TextStyle.standard : TextStyle := ⟨true, 0⟩

/-- The signs of a style. -/
def TextStyle.signs (s : TextStyle) : Signs := if s.unicode then .unicode else .ascii

/-- A line. -/
def line (text : String) : String := text ++ "\n"

/-- A line for each text, after a sign and so many blanks. -/
def signed (blanks sign : String) (texts : List String) : List String :=
  texts.map fun text => line (blanks ++ sign ++ " " ++ text)

/-- What became of a stack, in a word. -/
def stackWord (created updated : Bool) : String :=
  if created then "created" else if updated then "updated" else "unchanged"

/-- A heading with a number, and a line for each text below it; nothing for no texts. -/
def counted (heading sign : String) (texts : List String) : List String :=
  if texts.isEmpty then []
  else
    line ("  " ++ heading ++ " (" ++ toString texts.length ++ "):") :: signed "    " sign texts

/-- The lines about functions that kept their version. -/
def reusedLines (s : TextStyle) (reused : List String) : List String :=
  if reused.isEmpty then []
  else if 0 < s.verbose then counted "Reused" s.signs.reuse reused
  else [line ("  Reused: " ++ toString reused.length ++ " function(s)")]

/-- An empty line before some lines, if there are any. -/
def spaced (lines : List String) : List String :=
  if lines.isEmpty then [] else line "" :: lines

/-- The report of a deploy. -/
def deployText (s : TextStyle) (r : DeployReport) : String :=
  let signs := s.signs
  let headline := if r.hookFailures.isEmpty then signs.check else signs.warn
  String.join (
    [line (headline ++ " Deployed " ++ r.stack ++ " (" ++ r.stage.name ++ ")"),
     line "",
     line ("  Mode: " ++ r.mode.describe),
     line ("  Stack: " ++ stackWord r.created r.stackUpdated)] ++
    counted "Uploaded" signs.upload r.uploaded ++
    reusedLines s r.reused ++
    (if r.files.isEmpty then []
     else [line ("  Files: " ++ toString r.files.length ++ " object(s)")]) ++
    spaced (r.outputs.map fun o => line ("  " ++ o.message ++ o.value)) ++
    spaced (signed "  " signs.cross (r.hookFailures.map HookError.message) ++
      signed "  " signs.warn r.warnings))

/-- The report of a stage that was destroyed. -/
def destroyText (s : TextStyle) (r : DestroyReport) : String :=
  let signs := s.signs
  let facts :=
    if r.stackExisted then
      line (signs.check ++ " Destroyed " ++ r.stack ++ " (" ++ r.stage.name ++ ")") ::
        match r.bucket with
        | some bucket =>
          [line ("  Bucket " ++ bucket ++ ": " ++ toString r.removedObjects ++
            " object version(s) removed")]
        | none => []
    else [line (signs.check ++ " Nothing to destroy: " ++ r.stack ++ " does not exist")]
  String.join (facts ++ signed "  " signs.warn r.warnings)

/-- The report of a plan. -/
def planText (s : TextStyle) (r : PlanReport) : String :=
  let signs := s.signs
  String.join (
    [line ("Plan for " ++ r.stack ++ " (" ++ r.stage.name ++ ")"),
     line "",
     line ("  Stack: " ++ if r.stackExists then "exists" else "would be created"),
     line ("  Mode: " ++ r.mode.describe)] ++
    (if r.toDeploy.isEmpty then [line "  Nothing to upload"] else []) ++
    signed "    " signs.upload r.toDeploy ++
    signed "    " signs.reuse r.reused ++
    signed "  " signs.warn r.warnings)

end Report

end Rollout
