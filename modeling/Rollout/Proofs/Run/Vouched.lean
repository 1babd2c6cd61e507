import Rollout.Proofs.Run.CommitSafety
import Rollout.Proofs.Run.Prediction
import Rollout.Proofs.Redeploy.Decision

/-!
What a commit leaves for the next run. The timestamp of the compilation goes two ways: into the
record, which is printed and parsed, and into the marker, which is read back without the blanks at
its two ends. The record comes back as it was saved, so the marker vouches for it exactly if the
timestamp has no blanks there.
-/

namespace Rollout

open FileTree

namespace Text

/-- What is left of a list that is not blank begins with a character that is not. -/
theorem exists_dropWhile {cs : List Char} (h : cs.all isBlank = false) :
    ∃ c rest, cs.dropWhile isBlank = c :: rest ∧ isBlank c = false := by
  induction cs with
  | nil => cases h
  | cons c cs ih =>
    cases hc : isBlank c with
    | false => exact ⟨c, cs, by rw [List.dropWhile_cons_of_neg (by simp [hc])], hc⟩
    | true =>
      rw [List.all_cons, hc, Bool.true_and] at h
      rw [List.dropWhile_cons_of_pos hc]
      exact ih h

/-- A text that is not blank is not empty when it is trimmed. -/
theorem trim_ne_empty {text : String} (h : isBlankText text = false) : trim text ≠ "" := by
  obtain ⟨c, rest, hfirst, hc⟩ := exists_dropWhile h
  have hlast : (c :: rest).reverse.all isBlank = false := by
    rw [List.all_reverse, List.all_cons, hc, Bool.false_and]
  obtain ⟨c', rest', htrimmed, -⟩ := exists_dropWhile hlast
  intro hempty
  have hnil := congrArg String.toList hempty
  rw [trim, String.toList_ofList, trimList, hfirst, htrimmed, List.reverse_cons] at hnil
  simp at hnil

end Text

/-- The timestamp of a project without a fault is not blank. -/
theorem Project.timestamp_of_fault? {p : Project} (hp : p.fault? = none) :
    Text.isBlankText p.timestamp = false := by
  unfold Project.fault? at hp
  split at hp
  · cases hp
  split at hp
  · cases hp
  · simpa using ‹¬Text.isBlankText p.timestamp = true›

/-! ## Reading back -/

namespace Artifacts

/-- The marker that is read back where a timestamp was published. -/
theorem markerOf_toUTF8 {timestamp : String} (h : Text.isBlankText timestamp = false) :
    markerOf (some timestamp.toUTF8) = some (Text.trim timestamp) := by
  rw [markerOf, Option.map_some, Text.decodeLossy_toUTF8]
  simp [Text.trim_ne_empty h]

/-- The marker that a run is told. -/
theorem outcome_readMarker {σ : Type} (h : Handler σ) (s : σ) {bucket : String}
    {body : Option ByteArray}
    (hget : (h.answer (.store (.get bucket markerKey)) s).1 = .ok body) :
    ((readMarker bucket).outcome h s).1 = some (.ok (markerOf body)) := by
  have hrun : (readMarker bucket).run = .ask (.store (.get bucket markerKey)) fun
      | .ok body => .done (.ok (markerOf body))
      | .error e => .done (.error (.download bucket markerKey e)) := by
    refine congrArg (Program.ask (.store (.get bucket markerKey))) (funext fun a => ?_)
    cases a <;> rfl
  rw [Run.outcome, hrun, Program.run, hget]
  rfl

end Artifacts

namespace Tracking

/-- The record that a run is told. -/
theorem run_load {σ : Type} (h : Handler σ) (s : σ) {stage : Stage} {r : Record}
    (hload : (h.answer (.record (.load stage)) s).1 = .ok r) :
    ((load stage).run h s).1 = some ⟨r, none⟩ := by
  rw [load, Program.run, hload]
  rfl

end Tracking

/-! ## After a commit -/

variable {site : Site} {top : Location} {t t₁ t' : FileTree} {stage : Stage} {bucket key : String}
  {r : Record} {body : ByteArray}

/-- A record that was saved and an object that was stored after it are both there. -/
theorem Site.saved_and_stored (hsteady : site.cloud.objects.Steady top t)
    (hrecords : Within t.workDir top site.records.stateDir) (hroom : site.cloud.objects.Room t 1)
    (hformat : r.format = Record.currentFormat) (hordered : r.functions.Ordered)
    (hsave : site.records.save stage r t = (.ok (), t₁))
    (hput : site.cloud.objects.put bucket key body t₁ = (.ok (), t')) :
    site.records.load t' stage = .ok r ∧
      site.cloud.objects.get t' bucket key = .ok (some body) := by
  obtain ⟨ht₁, htouched, hdone, -⟩ := RecordStore.save_spec hsteady.tidy hrecords hsave
  obtain ⟨husable, hentry⟩ := hdone rfl
  have hkept := RecordStore.kept_of_save hsteady ht₁ htouched
  obtain ⟨hkept', -, -⟩ := ObjectStore.put_spec hkept.steady hput
  obtain ⟨-, hcontent⟩ := ObjectStore.content_of_put hkept.steady (hkept.room 1 hroom).1 hput
  refine ⟨?_, ObjectStore.content_eq_some_of_get.1 hcontent⟩
  have hwork : t'.workDir = t.workDir := hkept'.touched.work.trans htouched.work
  refine RecordStore.load_of_entry hkept'.steady.tidy (hwork.symm ▸ hrecords) husable ?_ hformat
    hordered
  -- the object lies in the store, and records do not
  rw [hkept'.touched.work]
  refine (hkept'.touched.file_iff fun hin => ?_).2 (htouched.work ▸ hentry)
  exact RecordStore.not_inStore_place site.records site.cloud.objects t₁.workDir stage ⟨bucket, hin⟩

/-- A record is trusted by the marker that names its compilation. -/
theorem Record.isTrustedBy_iff {timestamp found : String} (h : r.timestamp = some timestamp) :
    r.isTrustedBy (some found) = true ↔ timestamp = found := by
  simp [isTrustedBy, h]

namespace Redeploy

/-- The record of a plan can be written, and names the compilation. -/
theorem record_of_plan (p : Project) (stage : Stage) (previous : Record) (marker : Option String)
    (hasher : FunctionSpec → Except HashError ContentHash) :
    (plan p stage previous marker hasher).record.format = Record.currentFormat ∧
      (plan p stage previous marker hasher).record.timestamp = some p.timestamp ∧
      (plan p stage previous marker hasher).record.functions.Ordered :=
  record_spec

/-- A plan is incremental exactly if the marker names the compilation of the record. -/
theorem mode_of_marker {q : Project} (hq : q.assemble = true) (stage : Stage) (found : String)
    (hasher : FunctionSpec → Except HashError ContentHash) {timestamp : String}
    (h : r.timestamp = some timestamp) :
    (plan q stage r (some found) hasher).mode = .incremental ↔ found = timestamp := by
  refine mode_eq_incremental.trans ?_
  simp [hq, h]

end Redeploy

/-- What the next run is told after the commit of a record: the record, and the timestamp without the
blanks at its ends. -/
structure Told (d : DiskWorld site) (w : d.State) (stage : Stage) (bucket : String)
    (r : Record) (timestamp : String) : Prop where
  record : ((Tracking.load stage).run d.handler w).1 = some ⟨r, none⟩
  marker : ((Artifacts.readMarker bucket).outcome d.handler w).1 =
    some (.ok (some (Text.trim timestamp)))

theorem told_of_commit (d : DiskWorld site) {w w' : d.State}
    (hsteady : site.cloud.objects.Steady top (d.files w))
    (hrecords : Within (d.files w).workDir top site.records.stateDir)
    (hroom : site.cloud.objects.Room (d.files w) 1) {timestamp : String}
    (hblank : Text.isBlankText timestamp = false) (hformat : r.format = Record.currentFormat)
    (htimestamp : r.timestamp = some timestamp) (hordered : r.functions.Ordered)
    (hcommit : (Tracking.commit stage r bucket).outcome d.handler w = (some (.ok ()), w')) :
    Told d w' stage bucket r timestamp := by
  have hanswer {r : Request} {w₁ w₂ : d.State} {a : r.Answer} (h : d.handler.answer r w₁ = (a, w₂)) :
      site.Answers r (d.files w₁) a (d.files w₂) := by
    have := d.answers r w₁
    rwa [h] at this
  obtain ⟨t₁, hsave, hput⟩ : ∃ t₁, site.records.save stage r (d.files w) = (.ok (), t₁) ∧
      site.cloud.objects.put bucket markerKey timestamp.toUTF8 t₁ = (.ok (), d.files w') := by
    rcases Tracking.commit_cases d.handler stage bucket htimestamp w with
      ⟨e, w₁, -, -, hout⟩ | ⟨w₁, hsave, a, w₂, hput, -, hout⟩
    · cases hout.symm.trans hcommit
    · obtain ⟨ha, rfl⟩ := Prod.mk.inj (hout.symm.trans hcommit)
      cases a with
      | error e => cases ha
      | ok done => exact ⟨d.files w₁, hanswer hsave, hanswer hput⟩
  obtain ⟨hload, hget⟩ := Site.saved_and_stored hsteady hrecords hroom hformat hordered hsave hput
  have hread := d.answers (.record (.load stage)) w'
  have hbody := d.answers (.store (.get bucket markerKey)) w'
  refine ⟨Tracking.run_load d.handler w' ((Prod.mk.inj hread).1.symm.trans hload), ?_⟩
  rw [Artifacts.outcome_readMarker d.handler w' ((Prod.mk.inj hbody).1.symm.trans hget),
    Artifacts.markerOf_toUTF8 hblank]

/-- After the commit of a plan, the next run is told the record that was saved and the timestamp
without the blanks at its ends. If there were none, the record is trusted and whatever is planned
from the two for a project with artifacts of its own is incremental; it is not if there were. -/
theorem trusted_after_commit (d : DiskWorld site) {w w' : d.State}
    (hsteady : site.cloud.objects.Steady top (d.files w))
    (hrecords : Within (d.files w).workDir top site.records.stateDir)
    (hroom : site.cloud.objects.Room (d.files w) 1) {p : Project} (hp : p.fault? = none)
    (previous : Record) (marker : Option String)
    (hasher : FunctionSpec → Except HashError ContentHash)
    (hcommit : (Tracking.commit stage (Redeploy.plan p stage previous marker hasher).record
      bucket).outcome d.handler w = (some (.ok ()), w')) :
    ∃ record found, record = (Redeploy.plan p stage previous marker hasher).record ∧
      found = Text.trim p.timestamp ∧
      ((Tracking.load stage).run d.handler w').1 = some ⟨record, none⟩ ∧
      ((Artifacts.readMarker bucket).outcome d.handler w').1 = some (.ok (some found)) ∧
      (record.isTrustedBy (some found) = true ↔ Text.trim p.timestamp = p.timestamp) ∧
      ∀ (q : Project) (stage' : Stage) (hasher' : FunctionSpec → Except HashError ContentHash),
        q.assemble = true →
        ((Redeploy.plan q stage' record (some found) hasher').mode = .incremental ↔
          Text.trim p.timestamp = p.timestamp) := by
  obtain ⟨hformat, htimestamp, hordered⟩ :=
    Redeploy.record_of_plan p stage previous marker hasher
  have htold := told_of_commit d hsteady hrecords hroom (Project.timestamp_of_fault? hp) hformat
    htimestamp hordered hcommit
  refine ⟨_, _, rfl, rfl, htold.record, htold.marker, ?_, fun q stage' hasher' hq => ?_⟩
  · exact (Record.isTrustedBy_iff htimestamp).trans eq_comm
  · exact Redeploy.mode_of_marker hq stage' (Text.trim p.timestamp) hasher' htimestamp

namespace Deploy.Sample

/-- The project with a given timestamp. -/
def dated (timestamp : String) : Project := { project with timestamp }

/-- Fingerprints that cannot be taken. -/
def unhashed (f : FunctionSpec) : Except HashError ContentHash := .error (.notFound f.entryPoint)

/-- What goes on where there is nothing but one run. -/
def quiet : DiskWorld (settings.site cloud) := (settings.site cloud).world

/-- The world before a commit. -/
def still : quiet.State := World.start disk

/-- The commit of a plan for the project with a given timestamp. -/
def commitOf (timestamp : String) : Run Unit :=
  Tracking.commit .dev (Redeploy.plan (dated timestamp) .dev record none unhashed).record "b"

theorem commitOf_spec :
    ((commitOf "1").outcome quiet.handler still).1.map Except.toOption = some (some ()) ∧
      ((commitOf " 1").outcome quiet.handler still).1.map Except.toOption = some (some ()) := by
  decide +kernel

theorem eq_of_ended {σ : Type} {x : Option (Except Failure Unit) × σ}
    (h : x.1.map Except.toOption = some (some ())) : x = (some (.ok ()), x.2) := by
  obtain ⟨r, hr, hok⟩ := Option.map_eq_some_iff.1 h
  rw [Outcome.ok_of_toOption hok] at hr
  exact Prod.ext hr rfl

theorem room_one : cloud.objects.Room (quiet.files still) 1 := by
  have hroom := room
  rw [load_disk] at hroom
  exact hroom.mono (by decide)

end Deploy.Sample

open Deploy.Sample (dated unhashed quiet still commitOf commitOf_spec eq_of_ended)

/-- The commit of a compilation with a plain timestamp is trusted by the next run. -/
theorem trusted_after_commit_sample : ∃ record,
    ((Tracking.load .dev).run quiet.handler
      ((commitOf "1").outcome quiet.handler still).2).1 = some ⟨record, none⟩ ∧
    ((Artifacts.readMarker "b").outcome quiet.handler
      ((commitOf "1").outcome quiet.handler still).2).1 = some (.ok (some "1")) ∧
    record.isTrustedBy (some "1") = true ∧
    (Redeploy.plan (dated "1") .dev record (some "1") unhashed).mode = .incremental := by
  have hp : (dated "1").fault? = none := by decide
  have htrim : Text.trim (dated "1").timestamp = (dated "1").timestamp := by decide
  have hcommit := eq_of_ended commitOf_spec.1
  unfold commitOf at hcommit
  obtain ⟨record, found, -, rfl, hload, hmarker, htrusted, hmode⟩ :=
    trusted_after_commit (w := still) quiet Deploy.Sample.layout.settled.steady
      Deploy.Sample.layout.settled.records Deploy.Sample.room_one hp Deploy.Sample.record none
      unhashed hcommit
  rw [htrim] at hmarker htrusted hmode
  exact ⟨record, hload, hmarker, htrusted.2 htrim, (hmode (dated "1") .dev unhashed rfl).2 htrim⟩

/-- The commit of a compilation whose timestamp begins with a blank is not: the marker that is read
back is another text, and the next run deploys everything again. -/
theorem untrusted_after_commit : (dated " 1").fault? = none ∧ (dated " 1").assemble = true ∧
    ((commitOf " 1").outcome quiet.handler still).1 = some (.ok ()) ∧ ∃ record,
      ((Tracking.load .dev).run quiet.handler
        ((commitOf " 1").outcome quiet.handler still).2).1 = some ⟨record, none⟩ ∧
      ((Artifacts.readMarker "b").outcome quiet.handler
        ((commitOf " 1").outcome quiet.handler still).2).1 = some (.ok (some "1")) ∧
      record.isTrustedBy (some "1") = false ∧
      (Redeploy.plan (dated " 1") .dev record (some "1") unhashed).mode ≠ .incremental := by
  have hp : (dated " 1").fault? = none := by decide
  have hcommit := eq_of_ended commitOf_spec.2
  obtain ⟨hformat, htimestamp, hordered⟩ :=
    Redeploy.record_of_plan (dated " 1") .dev Deploy.Sample.record none unhashed
  have htold := told_of_commit (w := still) quiet Deploy.Sample.layout.settled.steady
    Deploy.Sample.layout.settled.records Deploy.Sample.room_one (Project.timestamp_of_fault? hp)
    hformat htimestamp hordered hcommit
  have htrim : Text.trim (dated " 1").timestamp = "1" := by decide
  have hmarker := htold.marker
  rw [htrim] at hmarker
  refine ⟨hp, rfl, congrArg Prod.fst hcommit, _, htold.record, hmarker, ?_, ?_⟩
  · rw [← Bool.not_eq_true, Record.isTrustedBy_iff htimestamp]
    decide
  · intro hmode
    have hfound := (Redeploy.mode_of_marker rfl .dev "1" unhashed htimestamp).1 hmode
    exact absurd hfound (by decide)

end Rollout
