import Rollout.Text.Split

/-!
The arguments of the command line. Options may stand before the command and, all but the one
for the version, after it; an option given after the command counts more than before it. Values
stand apart or behind an equals sign, short options may be joined, and no option that takes a
value or says yes may be given twice on one side of the command.
-/

namespace Rollout.CommandLine

/-- The commands. -/
inductive CommandName where
  | deploy
  | destroy
  | plan
deriving DecidableEq, Repr

/-- The name of a command. -/
def CommandName.text : CommandName → String
  | .deploy => "deploy"
  | .destroy => "destroy"
  | .plan => "plan"

/-- The command with a given name. -/
def CommandName.ofText? (text : String) : Option CommandName :=
  [CommandName.deploy, .destroy, .plan].find? fun c => c.text = text

/-- Why arguments do not ask for a run. -/
inductive UsageError where
  | unknownArgument
  | invalidSubcommand
  | invalidValue
  | argumentConflict
  | tooManyValues
  | missingSubcommand
  | displayHelp
  | displayVersion
  /-- Nothing was asked for. -/
  | displayHelpForNothing
deriving DecidableEq, Repr

/-- The kind of a usage error in one word. -/
def UsageError.kind : UsageError → String
  | .unknownArgument => "UnknownArgument"
  | .invalidSubcommand => "InvalidSubcommand"
  | .invalidValue => "InvalidValue"
  | .argumentConflict => "ArgumentConflict"
  | .tooManyValues => "TooManyValues"
  | .missingSubcommand => "MissingSubcommand"
  | .displayHelp => "DisplayHelp"
  | .displayVersion => "DisplayVersion"
  | .displayHelpForNothing => "DisplayHelpOnMissingArgumentOrSubcommand"

/-- The options. -/
inductive Flag where
  | json
  | verbose
  | projectDir
  | config
  | stage
  | region
  | skipHooks
  | help
  | version
deriving DecidableEq, Repr

/-- Whether a value belongs to an option. -/
def Flag.takesValue : Flag → Bool
  | .projectDir | .config | .stage | .region => true
  | _ => false

/-- The options known before the command, or after it, by their long names. -/
def longNames : Option CommandName → List (String × Flag)
  | none => common ++ [("version", .version)]
  | some .deploy => common ++ ofStage ++ [("skip-hooks", .skipHooks)]
  | some _ => common ++ ofStage
where
  /-- The options known everywhere. -/
  common : List (String × Flag) :=
    [("json", .json), ("verbose", .verbose), ("project-dir", .projectDir), ("config", .config),
     ("help", .help)]
  /-- The options of a command on a stage. -/
  ofStage : List (String × Flag) := [("stage", .stage), ("region", .region)]

/-- The options known before the command, or after it, by their letters. -/
def shortNames : Option CommandName → List (Char × Flag)
  | none => common ++ [('V', .version)]
  | some _ => common ++ [('s', .stage)]
where
  /-- The options known everywhere. -/
  common : List (Char × Flag) := [('v', .verbose), ('C', .projectDir), ('h', .help)]

/-- The option of a name in a list. -/
def flagOf? {κ : Type} [DecidableEq κ] (name : κ) : List (κ × Flag) → Option Flag
  | [] => none
  | (n, f) :: rest => if n = name then some f else flagOf? name rest

/-- What was given on one side of the command. -/
structure Given where
  json : Bool
  verbose : Option Nat
  skipHooks : Bool
  values : List (Flag × String)
deriving DecidableEq, Repr

namespace Given

/-- Nothing was given. -/
def nothing : Given := ⟨false, none, false, []⟩

/-- Whether nothing was given. -/
def isNothing (g : Given) : Bool :=
  !g.json && g.verbose.isNone && !g.skipHooks && g.values.isEmpty

/-- The value given for an option. -/
def value? (g : Given) (f : Flag) : Option String :=
  (g.values.find? fun v => v.1 = f).map (·.2)

/-- The greatest verbosity. -/
def verboseLimit : Nat := 255

/-- With an option that takes no value. -/
def flag (g : Given) : Flag → Except UsageError Given
  | .json => if g.json then .error .argumentConflict else .ok { g with json := true }
  | .skipHooks =>
    if g.skipHooks then .error .argumentConflict else .ok { g with skipHooks := true }
  | .verbose => .ok { g with verbose := some (min (g.verbose.getD 0 + 1) verboseLimit) }
  | .help => .error .displayHelp
  | .version => .error .displayVersion
  | _ => .ok g

/-- With an option and its value. A path must not be empty. -/
def value (g : Given) (f : Flag) (v : String) : Except UsageError Given :=
  if (g.value? f).isSome then .error .argumentConflict
  else if v = "" && (f = .projectDir || f = .config) then .error .invalidValue
  else .ok { g with values := g.values ++ [(f, v)] }

end Given

/-- One side of the command while it is read. The last option that takes a value is open until
something else is read; its value may still be missing. -/
structure Side where
  given : Given
  opened : Option (Flag × Option String)

namespace Side

/-- Before the first argument. -/
def start : Side := ⟨.nothing, none⟩

/-- Whether a value is missing. -/
def awaitsValue (s : Side) : Bool :=
  match s.opened with
  | some (_, none) => true
  | _ => false

/-- Closes the open option; its value must have been given. -/
def close (s : Side) : Except UsageError Given :=
  match s.opened with
  | none => .ok s.given
  | some (_, none) => .error .invalidValue
  | some (f, some v) => s.given.value f v

/-- With an option that takes no value. -/
def flag (s : Side) (f : Flag) : Except UsageError Side := do
  return ⟨← (← s.close).flag f, none⟩

/-- With an option and the value behind it. -/
def attached (s : Side) (f : Flag) (v : String) : Except UsageError Side := do
  return ⟨← (← s.close).value f v, none⟩

/-- With an option whose value is the next argument. -/
def openValue (s : Side) (f : Flag) : Except UsageError Side := do
  return ⟨← s.close, some (f, none)⟩

end Side

/-- The value of a short option that is joined to it. -/
def joinedValue : List Char → String
  | '=' :: v => String.ofList v
  | v => String.ofList v

/-- Reads joined short options. -/
def readShort (known : List (Char × Flag)) : List Char → Side → Except UsageError Side
  | [], s => .ok s
  | c :: rest, s =>
    match flagOf? c known with
    | none => .error .unknownArgument
    | some f =>
      if f.takesValue then
        if rest.isEmpty then s.openValue f else s.attached f (joinedValue rest)
      else
        match s.flag f with
        | .error e => .error e
        | .ok s => readShort known rest s

/-- Reads a long option, without its hyphens. -/
def readLong (known : List (String × Flag)) (cs : List Char) (s : Side) :
    Except UsageError Side :=
  let (name, v) :=
    match Text.splitFirst '=' cs with
    | some (name, v) => (String.ofList name, some (String.ofList v))
    | none => (String.ofList cs, none)
  match flagOf? name known, v with
  | none, _ => .error .unknownArgument
  | some f, some v => if f.takesValue then s.attached f v else .error .tooManyValues
  | some f, none => if f.takesValue then s.openValue f else s.flag f

/-- The error about an argument that is nothing at all. -/
def strayError (side : Option CommandName) : UsageError :=
  match side with
  | none => .invalidSubcommand
  | some _ => .unknownArgument

/-- The word that asks for help. -/
def helpWord : String := "help"

/-- Whether an argument is a command, or the word that asks for help. -/
def isCommandWord (arg : String) : Bool :=
  (CommandName.ofText? arg).isSome || arg = helpWord

/-- Reads what follows two hyphens alone: nothing may. -/
def readTrailing (side : Option CommandName) (s : Side) : List String → Except UsageError Side
  | [] => .ok s
  | arg :: _ =>
    if side.isNone && isCommandWord arg then .error .unknownArgument else .error (strayError side)

/-- Reads one argument that is neither a command nor two hyphens alone. -/
def readArgument (side : Option CommandName) (arg : String) (s : Side) :
    Except UsageError Side :=
  match arg.toList with
  | '-' :: '-' :: cs => readLong (longNames side) cs s
  | '-' :: c :: cs => readShort (shortNames side) (c :: cs) s
  | _ =>
    match s.opened with
    | some (f, none) => .ok { s with opened := some (f, some arg) }
    | _ => .error (strayError side)

/-- Reads the arguments after the command. -/
def readAfter (c : CommandName) : List String → Side → Except UsageError Given
  | [], s => s.close
  | arg :: args, s =>
    if arg = "--" then (readTrailing (some c) s args).bind Side.close
    else (readArgument (some c) arg s).bind (readAfter c args)

/-- Reads what help is asked for: a command at most. -/
def readHelp : List String → UsageError
  | [] => .displayHelp
  | [arg] => if isCommandWord arg then .displayHelp else .invalidSubcommand
  | _ => .invalidSubcommand

/-- A command with what was given before and after it. -/
structure Parsed where
  command : CommandName
  before : Given
  after : Given
deriving DecidableEq, Repr

/-- The error where no command was given. -/
def withoutCommand (s : Side) : Except UsageError Parsed :=
  match s.close with
  | .error e => .error e
  | .ok g => .error (if g.isNothing then .displayHelpForNothing else .missingSubcommand)

/-- Reads all arguments; `s` is what was given so far. The part after the command is read before
the open option in front of it is closed. -/
def readAll : List String → Side → Except UsageError Parsed
  | [], s => withoutCommand s
  | arg :: args, s =>
    if !s.awaitsValue && arg = helpWord then .error (readHelp args)
    else
      match if s.awaitsValue then none else CommandName.ofText? arg with
      | some c => do
        let after ← readAfter c args .start
        return ⟨c, ← s.close, after⟩
      | none =>
        if arg = "--" then (readTrailing none s args).bind withoutCommand
        else (readArgument none arg s).bind (readAll args)

/-- What a command line asks for. -/
structure Arguments where
  command : CommandName
  stage : Option String
  region : Option String
  skipHooks : Bool
  json : Bool
  verbose : Nat
  projectDir : String
  config : Option String
deriving DecidableEq, Repr

/-- The value of an option that may stand on both sides of the command. -/
def Parsed.value? (p : Parsed) (f : Flag) : Option String :=
  (p.after.value? f).or (p.before.value? f)

/-- What both sides of the command ask for together. -/
def Parsed.arguments (p : Parsed) : Arguments :=
  { command := p.command
    stage := p.after.value? .stage
    region := p.after.value? .region
    skipHooks := p.after.skipHooks
    json := p.after.json || p.before.json
    verbose := (p.after.verbose.or p.before.verbose).getD 0
    projectDir := (p.value? .projectDir).getD "."
    config := p.value? .config }

/-- What the arguments of the program ask for. -/
def parse (args : List String) : Except UsageError Arguments :=
  (readAll args .start).map Parsed.arguments

end Rollout.CommandLine
