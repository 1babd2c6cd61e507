import Rollout.Build
import Rollout.Clock
import Rollout.Cloud.OnDisk
import Rollout.Config.Settings
import Rollout.Record.Store
import Rollout.Run.Program

/-!
The world of a run on one machine whose cloud is on disk: every request is answered out of the
tree of files, but for those about the run itself.
-/

namespace Rollout

/-- Where a run finds what it asks for: the directories of its project and its cloud. -/
structure Site where
  descriptors : ProjectFiles
  build : BuildOutput
  records : RecordStore
  cloud : DiskCloud
deriving DecidableEq

/-- The site of a run with given settings and a cloud. -/
def Settings.site (s : Settings) (cloud : DiskCloud) : Site :=
  ⟨⟨s.descriptorDir⟩, ⟨s.buildDir⟩, ⟨s.stateDir⟩, cloud⟩

/-- The state of the world: the files, the clock, whether the run was asked to stop, and what it
has reported so far. -/
structure World where
  files : FileTree
  clock : Clock
  cancelled : Bool
  events : List Event

namespace World

/-- The world before a run. -/
def start (files : FileTree) : World := ⟨files, .start, false, []⟩

end World

/-- A reading of the tree as an answer. -/
def readingAnswer {ε α : Type} (r : Except ε α) (t : FileTree) : Except ε α × FileTree := (r, t)

/-- How an object store on disk answers. -/
def ObjectStore.answer (s : ObjectStore) :
    (c : StoreCall) → FileTree → Except StoreError c.Result × FileTree
  | .put bucket key body, t => s.put bucket key body t
  | .get bucket key, t => readingAnswer (s.get t bucket key) t
  | .url bucket key, t => readingAnswer (.ok (ObjectStore.objectUrl bucket key)) t
  | .listObjects bucket token, t => readingAnswer (s.listObjects t bucket token) t
  | .delete bucket key, t => s.delete bucket key t
  | .listVersions bucket cursor, t => readingAnswer (s.listVersions t bucket cursor) t
  | .deleteVersion bucket key id, t => s.deleteVersion bucket key id t
  | .deleteBucket bucket, t => s.deleteBucket bucket t

/-- How a stack provider on disk answers. -/
def StackProvider.answer (s : StackProvider) :
    (c : StackCall) → FileTree → Except ProviderError c.Result × FileTree
  | .create name body, t => s.create name body t
  | .update name url, t => s.update name url t
  | .delete name, t => s.delete name t
  | .status name, t => readingAnswer (s.status t name) t
  | .listExports token, t => readingAnswer (s.listExports t token) t

/-- How the records on disk answer. -/
def RecordStore.answer (s : RecordStore) :
    (c : RecordCall) → FileTree → Except RecordError c.Result × FileTree
  | .load stage, t => readingAnswer (s.load t stage) t
  | .save stage r, t => s.save stage r t
  | .delete stage, t => s.delete stage t

/-- How an invoker on disk answers. -/
def HookInvoker.answer (h : HookInvoker) (name : String) (t : FileTree) : HookOutcome × FileTree :=
  ((.answered (h.invoke name t).1), (h.invoke name t).2)

/-- What a machine shows. -/
def Site.look (site : Site) (t : FileTree) : (c : LocalCall) → c.Answer
  | .project => site.descriptors.load t
  | .template kind stage => site.descriptors.template t kind stage
  | .fingerprint f => site.build.fingerprint t f
  | .read p => t.read p
  | .source p => t.uploadSource p

/-- How the world answers about the run itself; of jobs side by side, one is done after the
other. -/
def World.answerControl (w : World) : (c : ControlCall) → c.Answer × World
  | .isCancelled => (w.cancelled, w)
  | .now => (w.clock.elapsed, w)
  | .sleep duration => ((), { w with clock := w.clock.sleep duration })
  | .emit e => ((), { w with events := w.events ++ [e] })
  | .schedule jobs _ => (.inOrder jobs, w)

/-- How the world answers a request made at a site. -/
def Site.answer (site : Site) : (r : Request) → World → r.Answer × World
  | .store c, w =>
    let (a, files) := site.cloud.objects.answer c w.files
    (a, { w with files })
  | .stack c, w =>
    let (a, files) := site.cloud.provider.answer c w.files
    (a, { w with files })
  | .hook name, w =>
    let (a, files) := site.cloud.hooks.answer name w.files
    (a, { w with files })
  | .record c, w =>
    let (a, files) := site.records.answer c w.files
    (a, { w with files })
  | .onMachine c, w => (site.look w.files c, w)
  | .control c, w => w.answerControl c

/-- The world as the handler of the requests made at a site. -/
def Site.handler (site : Site) : Handler World := ⟨site.answer⟩

end Rollout
