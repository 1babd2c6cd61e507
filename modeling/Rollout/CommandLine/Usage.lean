import Rollout.CommandLine.Arguments

/-!
What is told to someone who asks how the program is used, or uses it wrongly.
-/

namespace Rollout.CommandLine

/-- What a command does, in a line. -/
def CommandName.about : CommandName → String
  | .deploy => "Create or update the stage stack and upload changed functions"
  | .destroy => "Empty the deployment bucket and delete the stage stack"
  | .plan => "Show what deploy would upload, without changing anything"

/-- The description of the program, its commands and its options. -/
def usageText : String :=
  let command (c : CommandName) : String :=
    "  " ++ c.text ++ "  " ++ c.about ++ "\n"
  "Incremental deployment orchestrator for serverless projects\n\n" ++
  "Usage: liftoff [OPTIONS] <COMMAND>\n\n" ++
  "Commands:\n" ++ command .deploy ++ command .destroy ++ command .plan ++ "\n" ++
  "Options:\n" ++
  "      --json               Emit events and the result as JSON lines on stdout\n" ++
  "  -v, --verbose            Say more (-v, -vv, -vvv)\n" ++
  "  -C, --project-dir <DIR>  Project root [default: .]\n" ++
  "      --config <FILE>      Configuration file [default: <DIR>/liftoff.toml]\n" ++
  "  -s, --stage <STAGE>      Stage, after the command\n" ++
  "      --region <REGION>    Provider region, after the command\n" ++
  "      --skip-hooks         Do not invoke the post-deploy functions, after deploy\n" ++
  "  -h, --help               Print help\n" ++
  "  -V, --version            Print version\n"

/-- What is wrong with arguments that do not ask for a run. -/
def UsageError.message : UsageError → String
  | .unknownArgument => "unexpected argument"
  | .invalidSubcommand => "unrecognized subcommand"
  | .invalidValue => "a value is required for an option but none was supplied"
  | .argumentConflict => "an option cannot be used multiple times"
  | .tooManyValues => "unexpected value for an option that takes none"
  | .missingSubcommand => "a command is required but none was given"
  | .displayHelp | .displayVersion | .displayHelpForNothing => ""

end Rollout.CommandLine
