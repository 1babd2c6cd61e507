import Rollout.Record.Format
import Rollout.Files.Update

/-!
The records of a project on disk, a file for each stage, in a directory of their own below the
state directory. The run lock lies beside that directory, so no stage can be named after it.
-/

namespace Rollout

/-- Where the records of a project are kept. -/
structure RecordStore where
  stateDir : Path
deriving DecidableEq, Repr

namespace RecordStore

/-- The directory of the records in a state directory. -/
def directoryName : String := "records"

/-- The file of a stage. -/
def path (s : RecordStore) (stage : Stage) : Path :=
  (s.stateDir.joinText directoryName).joinText (stage.name ++ ".lock")

/-- A fault of the file of a stage as an error. -/
def errorOf (p : Path) : RecordFault → RecordError
  | .unreadable => .unreadable p "not a deployment record"
  | .format found => .format p found Record.currentFormat

/-- The record of a stage; a stage without a file has an empty one. -/
def load (s : RecordStore) (t : FileTree) (stage : Stage) : Except RecordError Record :=
  let p := s.path stage
  if !t.exists? p then .ok .empty
  else
    match t.readText p with
    | .error e => .error (.files p e.message)
    | .ok text => (Record.parse text).mapError (errorOf p)

/-- What saving a record does. -/
def saveEffect (s : RecordStore) (stage : Stage) (r : Record) : Effect :=
  .replace (s.path stage) r.text.toUTF8

/-- Saves the record of a stage. -/
def save (s : RecordStore) (stage : Stage) (r : Record) : Disk RecordError Unit :=
  (s.saveEffect stage r).perform.mapError fun e => .files (s.path stage) e.message

/-- Deletes the record of a stage, if there is one. -/
def delete (s : RecordStore) (stage : Stage) : Disk RecordError Unit :=
  (Effect.discard (s.path stage)).perform.mapError fun e => .files (s.path stage) e.message

end RecordStore

end Rollout
