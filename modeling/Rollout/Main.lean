import Rollout.Clock.Utc
import Rollout.CommandLine.Invocation
import Rollout.CommandLine.Usage
import Rollout.Event.Json
import Rollout.Event.Log
import Std.Time.DateTime.Timestamp

/-!
The program on a real machine. Each request of a run is answered as on a machine that is a
value: the files the request is about are read from the disk into a tree, the answer is taken
there, and what it changed in the tree is written back.
-/

namespace Rollout.Machine

/-- The text of a location. -/
def pathText (l : Location) : String := "/" ++ Text.join "/" l

/-- What stands at a location of the disk, if all above it are directories. A link is told by
where it leads in the end; one that leads nowhere is as good as nothing. -/
def entryAt? (l : Location) : IO (Option Entry) := do
  let text := pathText l
  try
    let real ← IO.FS.realPath text
    if real.toString ≠ text then return some (.link real.toString)
    if ← real.isDir then return some .dir
    return some (.file (← IO.FS.readBinFile text))
  catch _ => return none

mutual

/-- Adds what stands at a location, and everything below it, to a tree. -/
partial def readBelow (t : FileTree) (l : Location) : IO FileTree := do
  match ← entryAt? l with
  | none => return t
  | some (.link target) =>
    if t.entry? l = some (.link target) then return t
    readAlong true (t.put l (.link target)) [] (Path.ofString target).names
  | some (.file content) => return t.put l (.file content)
  | some .dir =>
    let mut t := t.put l .dir
    for item in ← (← IO.FS.realPath (pathText l)).readDir do
      t ← readBelow t (l ++ [item.fileName])
    return t

/-- Adds what stands on the way along some names to a tree, and if asked for everything below
its end. -/
partial def readAlong (all : Bool) (t : FileTree) (here : Location) (names : List String) :
    IO FileTree := do
  match names with
  | [] => if all then readBelow t here else return t
  | ".." :: rest => readAlong all t here.dropLast rest
  | name :: rest =>
    let there := here ++ [name]
    match ← entryAt? there with
    | none => return t
    | some (.link target) =>
      let t := t.put there (.link target)
      readAlong all t [] ((Path.ofString target).names ++ rest)
    | some e => readAlong all (t.put there e) there rest

end

/-- Adds what a path leads to to a tree, and if asked for everything below it. -/
def readPath (all : Bool) (t : FileTree) (p : Path) : IO FileTree :=
  readAlong all t (if p.isAbsolute then [] else t.workDir) p.names

/-- A tree of nothing but the working directory. -/
def workTree : IO FileTree := do
  let dir := Path.ofString (← IO.currentDir).toString
  readPath false { FileTree.empty with workDir := dir.names } dir

/-- The files that some paths lead to. -/
def readPaths (paths : List Path) : IO FileTree := do
  paths.foldlM (readPath true) (← workTree)

/-- Makes the disk what a tree of its files has become. A file is put in its place at once. -/
def writeBack (before after : FileTree) : IO Unit := do
  for (l, e) in before.entries.reverse do
    if (after.entry? l).isNone then
      match e with
      | .dir => IO.FS.removeDir (pathText l)
      | _ => IO.FS.removeFile (pathText l)
  for (l, e) in after.entries do
    if before.entry? l ≠ some e then
      match e with
      | .dir => IO.FS.createDir (pathText l)
      | .link _ => pure ()
      | .file content =>
        let temporary := pathText l ++ ".tmp"
        IO.FS.writeBinFile temporary content
        IO.FS.rename temporary (pathText l)

/-- The paths that a request is about. -/
def pathsOf (site : Site) (cloudRoot : Path) : Request → List Path
  | .store _ | .stack _ | .hook _ => [cloudRoot]
  | .record (.load stage) | .record (.save stage _) | .record (.delete stage) =>
    [site.records.path stage]
  | .onMachine .project | .onMachine (.template ..) => [site.descriptors.dir]
  | .onMachine (.fingerprint _) => [site.build.dir]
  | .onMachine (.read p) | .onMachine (.source p) => [p]
  | .control _ => []

/-- The milliseconds since the beginning of 1970. -/
def now : IO Nat := do
  return (← Std.Time.Timestamp.now).toMillisecondsSinceUnixEpoch.val.toNat

/-- Writes to standard output at once. -/
def say (text : String) : IO Unit := do
  let output ← IO.getStdout
  output.putStr text
  output.flush

/-- Writes a line of the log if the filter of the run shows it. -/
def log (filter source : String) (level : LogLevel) (message : String) : IO Unit := do
  if LogFilter.shows filter source level.rank then
    IO.eprintln (Utc.text (← now) ++ " " ++ level.text ++ " " ++ message)

/-- Where the log lines about the events of a run come from. -/
def eventLogSource : String := "liftoff::events"

/-- Reports an event as it happens. -/
def report (a : CommandLine.Arguments) (filter : String) (e : Event) : IO Unit := do
  if a.json then say (e.line (Utc.text (← now)))
  else log filter eventLogSource e.level e.message

/-- Answers the requests of a program until it ends. -/
def perform {α : Type} (answer : (r : Request) → IO r.Answer) : Program α → IO (Option α)
  | .done a => return some a
  | .ask r next => do perform answer (next (← answer r))
  | .unfinished => return none

/-- The answer to a request of a run that began at `start`. -/
def answer (site : Site) (cloudRoot : Path) (start : Nat) (tell : Event → IO Unit) :
    (r : Request) → IO r.Answer
  | .control .isCancelled => return false
  | .control .now => return (← IO.monoMsNow) - start
  | .control (.sleep duration) => IO.sleep duration.toUInt32
  | .control (.emit e) => tell e
  | r => do
    let before ← readPaths (pathsOf site cloudRoot r)
    let (a, w) := site.answer r (.start before)
    writeBack before w.files
    return a

/-- How often a loop without a bound is gone round. -/
def patience : Nat := 1000000000

open CommandLine in
/-- Runs a command whose lock is taken, if it needs one. -/
def runCommand (env : Environment) (a : Arguments) (c : Context) (tell : Event → IO Unit) :
    IO Ended := do
  match c.config.cloudRoot c.settings.projectRoot with
  | .error f => return .failed [] [] (.failed f)
  | .ok cloudRoot =>
    let site := c.settings.site (.atRoot (← readPaths [cloudRoot]) cloudRoot)
    let start ← IO.monoMsNow
    match ← perform (answer site cloudRoot start tell) (commandRun a c patience).run with
    | some outcome => return concluded env a [] [] outcome
    | none => throw (IO.userError "the run does not end")

open CommandLine in
/-- Runs a command under the lock of its project. The system lets go of the lock when the
program ends. -/
def runLocked (env : Environment) (a : Arguments) (c : Context) (tell : Event → IO Unit) :
    IO Ended := do
  if !a.command.needsLock then return ← runCommand env a c tell
  let before ← readPaths [c.settings.stateDir.joinText lockFileName]
  let (taken, after) := takeLock c.settings lockHolder before
  writeBack before after
  match taken with
  | .error trouble => return .failed [] [] trouble
  | .ok path =>
    let handle ← IO.FS.Handle.mk path.text .append
    if !(← handle.tryLock) then return .failed [] [] (.failed (.locked path))
    let ended ← runCommand env a c tell
    handle.unlock
    return ended

/-- The variables of the environment that matter. -/
def readEnvironment : IO Environment := do
  let mut found : List (String × String) := []
  for name in Config.variableNames ++ [CommandLine.logVariable, CommandLine.terminalVariable] do
    if let some value ← IO.getEnv name then found := (name, value) :: found
  return .ofList found

/-- The files that say how a command is configured. -/
def configurationFiles (a : CommandLine.Arguments) : IO FileTree := do
  let dir := Path.ofString a.projectDir
  let t ← readPath false (← workTree) dir
  match t.canonical dir with
  | .error _ => return t
  | .ok root => readPath true t (root.joinText (a.config.getD configFileName))

open CommandLine in
/-- Runs what the arguments ask for. -/
def run (a : Arguments) : IO Ended := do
  let env ← readEnvironment
  let filter := LogFilter.text a.verbose a.json (env.get? logVariable)
  match configure (← configurationFiles a) env a with
  | .error trouble => return .failed [] [] trouble
  | .ok configured =>
    for w in configured.warnings do log filter configLogSource .warn w.text
    match configured.context a with
    | .error trouble => return .failed [] [] trouble
    | .ok c => runLocked env a c (report a filter)

open CommandLine in
/-- Tells how an invocation ended. -/
def conclude (ended : Ended) : IO UInt32 := do
  for part in ended.output do
    if let .text s := part then say s
  if let some message := ended.error then IO.eprintln message
  return ended.exitCode.toUInt32

open CommandLine in
/-- Tells how the program is used, and what was wrong. -/
def concludeUsage (e : UsageError) : IO UInt32 := do
  match e with
  | .displayHelp => say usageText
  | .displayHelpForNothing => IO.eprintln usageText
  | .displayVersion => pure ()
  | _ => IO.eprintln ("error: " ++ e.message ++ "\n\n" ++ usageText)
  conclude (.usage e)

end Rollout.Machine

/-- The program. -/
def main (args : List String) : IO UInt32 := do
  match Rollout.CommandLine.parse args with
  | .error e => Rollout.Machine.concludeUsage e
  | .ok a =>
    try Rollout.Machine.conclude (← Rollout.Machine.run a)
    catch e => do
      IO.eprintln ("error: " ++ toString e)
      return 1
