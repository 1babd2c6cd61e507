import Rollout.Proofs.Cloud.Refinement
import Rollout.Proofs.Files.Beyond
import Rollout.Proofs.Run.Evaluation
import Rollout.Proofs.Run.Forecast
import Rollout.Proofs.Run.Resumption

/-!
Batches and the buckets they go to. What comes of a batch is foretold by the disk as it is before:
if the index of the bucket cannot be read, nothing is stored, and if the bucket is as the operations
of the store leave it, everything is whose file can be read. So the order in which the uploads end
decides nothing, neither about what is told of the batch nor about what the keys yield afterwards.

On other disks it does: something may be in the way of one version and not of the next.
-/

namespace Rollout

open FileTree Outcome

/-- The first value of a key, where no key has two. -/
theorem lookup_eq_some_iff {α β : Type} [BEq α] [LawfulBEq α] {l : List (α × β)} {a : α} {b : β}
    (hl : ∀ e ∈ l, ∀ e' ∈ l, e.1 = e'.1 → e.2 = e'.2) : l.lookup a = some b ↔ (a, b) ∈ l := by
  induction l with
  | nil => simp
  | cons e l ih =>
    obtain ⟨a', b'⟩ := e
    have hrest := ih fun e₁ h₁ e₂ h₂ => hl e₁ (List.mem_cons_of_mem _ h₁) e₂ (List.mem_cons_of_mem _ h₂)
    rw [List.lookup_cons, List.mem_cons, Prod.mk.injEq]
    by_cases ha : a = a'
    · subst ha
      rw [BEq.rfl]
      constructor
      · intro hb
        exact .inl ⟨rfl, (Option.some.inj hb).symm⟩
      · rintro (⟨-, rfl⟩ | hb)
        · rfl
        · exact congrArg some (hl _ List.mem_cons_self _ (List.mem_cons_of_mem _ hb) rfl)
    · rw [beq_eq_false_iff_ne.2 ha, hrest]
      exact ⟨.inr, fun hb => hb.elim (fun hb => absurd hb.1 ha) id⟩

namespace ObjectStore

variable {s : ObjectStore} {top : Location} {limit : Nat} {A : VersionedStore} {t : FileTree}
  {bucket key : String} {B : VersionedBucket} {us : List PendingUpload}

/-! ## The store -/

/-- What the operations of a store leave is steady. -/
theorem Represents.steady (h : s.Represents top limit A t) (hlimit : limit ≤ UInt64.size) :
    s.Steady top t := by
  refine ⟨h.tidy, h.within, fun bucket dir i hread => ?_⟩
  have hname : isBucketName bucket = true := isBucketName_of_readable ⟨_, hread⟩
  cases hA : A bucket with
  | none =>
    rw [h.readIndex_of_absent hname hA] at hread
    cases hread
  | some B =>
    rw [h.readIndex hlimit hA] at hread
    cases hread
    have hsound := (h.held bucket B hA).sound
    refine ⟨VersionedBucket.ordered_index hsound, fun key v hv => ?_, fun key key' v hv v' hv' hid => ?_⟩
    · rw [VersionedBucket.versions_index, List.mem_map] at hv
      obtain ⟨r, hr, rfl⟩ := hv
      exact ⟨r.number, hsound.numbered key r hr, rfl⟩
    · rw [VersionedBucket.versions_index, List.mem_map] at hv hv'
      obtain ⟨r, hr, rfl⟩ := hv
      obtain ⟨r', hr', rfl⟩ := hv'
      exact hsound.apart key key' r hr r' hr' (versionId_inj hid)

/-- A bucket after objects were stored one after the other. -/
def stored (B : VersionedBucket) (puts : List (String × ByteArray)) : VersionedBucket :=
  puts.foldl (fun B e => B.put e.1 e.2) B

theorem minted_stored (puts : List (String × ByteArray)) (B : VersionedBucket) :
    (stored B puts).minted = B.minted + puts.length := by
  induction puts generalizing B with
  | nil => rfl
  | cons e puts ih =>
    rw [stored, List.foldl_cons, ← stored, ih, List.length_cons, Nat.add_comm puts.length,
      ← Nat.add_assoc]
    rfl

theorem get_stored (puts : List (String × ByteArray)) (B : VersionedBucket) (key : String) :
    (stored B puts).get key = (puts.reverse.lookup key).or (B.get key) := by
  induction puts generalizing B with
  | nil => rfl
  | cons e puts ih =>
    rw [stored, List.foldl_cons, ← stored, ih, List.reverse_cons, List.lookup_append,
      Option.or_assoc]
    congr 1
    rw [List.lookup_cons]
    by_cases hkey : key = e.1
    · subst hkey
      rw [VersionedBucket.get_put, BEq.rfl]
      rfl
    · rw [VersionedBucket.get_put_of_ne (Ne.symm hkey), beq_eq_false_iff_ne.2 hkey]
      rfl

theorem stored_append (B : VersionedBucket) (puts : List (String × ByteArray))
    (e : String × ByteArray) : stored B (puts ++ [e]) = (stored B puts).put e.1 e.2 :=
  List.foldl_concat ..

/-! ## What a batch comes to -/

/-- What is foretold of a batch by the disk before it. -/
def forecast (s : ObjectStore) (t : FileTree) (bucket : String) : Artifacts.Forecast :=
  ⟨t.read, (s.readIndex t bucket).map fun _ => ()⟩

/-- What a key yields after a batch: the file named by the key if it can be read, and what the key
yielded before otherwise. -/
def contentAfter (s : ObjectStore) (t : FileTree) (bucket : String) (us : List PendingUpload)
    (key : String) : Except StoreError (Option ByteArray) :=
  (s.get t bucket key).map fun old =>
    ((us.flatMap (s.forecast t bucket).writes).lookup key).or old

/-- The buckets about which a disk says what becomes of a batch. -/
inductive Fit (s : ObjectStore) (bucket : String) (us : List PendingUpload) (t : FileTree) : Prop
  /-- The index cannot be read, be it that there is no such bucket. -/
  | unreadable {e : StoreError} (hread : s.readIndex t bucket = .error e)
  /-- The store is as its own operations leave it, the bucket has ids left for all uploads, and the
  files lie beside the store. -/
  | represented {top : Location} {limit : Nat} {A : VersionedStore} {B : VersionedBucket}
    (h : s.Represents top limit A t) (hA : A bucket = some B) (hlimit : limit ≤ UInt64.size)
    (hroom : B.minted + us.length < limit) (hbeyond : ∀ u ∈ us, t.Beyond top u.path)

theorem mem_writes {F : Artifacts.Forecast} {u : PendingUpload} {e : String × ByteArray} :
    e ∈ F.writes u ↔ F.reads u.path = .ok e.2 ∧ e.1 = u.key := by
  unfold Artifacts.Forecast.writes
  obtain ⟨key, body⟩ := e
  cases F.reads u.path with
  | error e => simp [Except.toOption]
  | ok body' => simp [Except.toOption, eq_comm, and_comm]

/-- The same objects stored in any order: a key yields the one that was stored for it. -/
theorem lookup_reverse_of_perm {F : Artifacts.Forecast} (hconsistent : F.Consistent us)
    {puts : List (String × ByteArray)} (hperm : puts.Perm (us.flatMap F.writes)) (key : String) :
    puts.reverse.lookup key = (us.flatMap F.writes).lookup key := by
  have hone : ∀ e ∈ us.flatMap F.writes, ∀ e' ∈ us.flatMap F.writes, e.1 = e'.1 → e.2 = e'.2 := by
    intro e he e' he' hkey
    obtain ⟨u, hu, he⟩ := List.mem_flatMap.1 he
    obtain ⟨v, hv, he'⟩ := List.mem_flatMap.1 he'
    obtain ⟨hread, hu'⟩ := mem_writes.1 he
    obtain ⟨hread', hv'⟩ := mem_writes.1 he'
    rw [hconsistent u hu v hv (hu' ▸ hv' ▸ hkey), hread'] at hread
    exact (Except.ok.inj hread).symm
  have hmem (e : String × ByteArray) : e ∈ puts.reverse ↔ e ∈ us.flatMap F.writes := by
    rw [List.mem_reverse, hperm.mem_iff]
  refine Option.ext fun body => ?_
  rw [lookup_eq_some_iff hone, lookup_eq_some_iff, hmem]
  intro e he e' he'
  exact hone e ((hmem e).1 he) e' ((hmem e').1 he')

/-- A world on disk answers a batch as the disk foretells, and then the keys yield what is
foretold. -/
theorem Fit.foretells {site : Site} (d : DiskWorld site)
    (hfit : site.cloud.objects.Fit bucket us t)
    (hconsistent : (site.cloud.objects.forecast t bucket).Consistent us) :
    ∃ I : List (String × ByteArray) → d.State → Prop,
      (site.cloud.objects.forecast t bucket).Foretells d.handler bucket us I ∧
      (∀ w, d.files w = t → I [] w) ∧
      ∀ puts w, puts.Perm (us.flatMap (site.cloud.objects.forecast t bucket).writes) → I puts w →
        ∀ key, site.cloud.objects.get (d.files w) bucket key =
          site.cloud.objects.contentAfter t bucket us key := by
  cases hfit with
  | @unreadable e hread =>
    refine ⟨fun _ w => d.files w = t, ⟨?_, ?_, ?_⟩, fun _ => id, ?_⟩
    · intro puts w hw u hu
      obtain ⟨hanswer, hsame⟩ := d.answers (.onMachine (.read u.path)) w
      exact ⟨by rw [← hanswer, hw]; rfl, hsame.trans hw⟩
    · intro puts w hw hroom key body
      have hput : site.cloud.objects.put bucket key body (d.files w) = _ :=
        d.answers (.store (.put bucket key body)) w
      have heffects : site.cloud.objects.putEffects t bucket key body = .error e := by
        rw [putEffects, hread]
        rfl
      rw [hw, ObjectStore.put, performing_of_error _ heffects, Prod.mk.injEq] at hput
      refine ⟨?_, hput.2.symm⟩
      rw [← hput.1, forecast, hread]
      rfl
    · intro puts w hw c
      exact (d.answers (.control c) w).trans hw
    · intro puts w _ hw key
      have hget : site.cloud.objects.get t bucket key = .error e := by
        rw [ObjectStore.get, hread]
        rfl
      rw [hw, contentAfter, hget]
      rfl
  | @represented top limit A B h hA hlimit hroom hbeyond =>
    have hname := (h.held bucket B hA).nameable
    have hpos : 0 < limit := Nat.lt_of_le_of_lt (Nat.zero_le _) hroom
    refine ⟨fun puts w =>
      site.cloud.objects.Represents top limit (Becomes A bucket (stored B puts)) (d.files w) ∧
        Touched top (top <+: ·) t (d.files w), ⟨?_, ?_, ?_⟩, ?_, ?_⟩
    · rintro puts w ⟨hrepresents, htouched⟩ u hu
      obtain ⟨hanswer, hsame⟩ := d.answers (.onMachine (.read u.path)) w
      refine ⟨?_, hsame.symm ▸ ⟨hrepresents, htouched⟩⟩
      rw [← hanswer]
      exact (hbeyond u hu).read_eq hrepresents.tidy htouched
    · rintro puts w ⟨hrepresents, htouched⟩ hlength key body
      have hput : site.cloud.objects.put bucket key body (d.files w) = _ :=
        d.answers (.store (.put bucket key body)) w
      have hbucket : Becomes A bucket (stored B puts) bucket = some (stored B puts) :=
        Function.update_self ..
      obtain ⟨hanswer, hafter⟩ := hrepresents.act hpos hlimit (.call (.put bucket key body))
        ⟨hname, (hrepresents.canMint_iff hlimit hbucket).2 fun _ => by rw [minted_stored]; omega⟩
      rw [show site.cloud.objects.act (.call (.put bucket key body)) (d.files w) = _ from hput]
        at hanswer hafter
      rw [VersionedStore.act, VersionedStore.answer, VersionedStore.change_of_some hbucket,
        Becomes, Function.update_idem] at hafter
      rw [VersionedStore.act, VersionedStore.answer, VersionedStore.change_of_some hbucket]
        at hanswer
      obtain ⟨hkept, -⟩ := put_spec (hrepresents.steady hlimit) hput
      refine ⟨?_, ?_, htouched.trans (hkept.touched.mono fun l hl => ?_)⟩
      · rw [forecast, h.readIndex hlimit hA]
        exact hanswer
      · rw [stored_append]
        exact hafter
      · exact InStore.below hrepresents.within ⟨bucket, hl⟩
    · rintro puts w ⟨hrepresents, htouched⟩ c
      have hsame : d.files (d.handler.answer (.control c) w).2 = d.files w := d.answers (.control c) w
      rw [hsame]
      exact ⟨hrepresents, htouched⟩
    · rintro w rfl
      refine ⟨?_, .refl ..⟩
      rw [Becomes, Function.update_eq_self_iff.2 hA.symm]
      exact h
    · rintro puts w hperm ⟨hrepresents, -⟩ key
      have hbucket : Becomes A bucket (stored B puts) bucket = some (stored B puts) :=
        Function.update_self ..
      rw [hrepresents.get hlimit hname.name, VersionedStore.look_of_some hbucket, get_stored,
        lookup_reverse_of_perm hconsistent hperm, contentAfter, h.get hlimit hname.name,
        VersionedStore.look_of_some hA]
      rfl

/-- A batch does not depend on its schedule, on a disk that says what becomes of it. Workers side by
side come to an end whoever of them moves when, at the latest after so many moves; and each time
every upload was attempted once, each of those that succeeded was reported once with the counts from
one to their number, the same is told of the batch, and every key of the bucket yields the same. So
it is for the attempts one after the other, in whatever order. What is told is a success if all the
uploads succeed, and exactly the failures, in the order of their keys, otherwise. -/
theorem uploads_independent {site : Site} (d : DiskWorld site) (bucket : String)
    (us : List PendingUpload) (t : FileTree) (hfit : site.cloud.objects.Fit bucket us t)
    (hconsistent : ∀ u ∈ us, ∀ v ∈ us, u.key = v.key → t.read u.path = t.read v.path)
    (workers : Nat) (hworkers : 0 < workers) (w : d.State) (hw : d.files w = t) :
    let forecast := site.cloud.objects.forecast t bucket
    (∀ n c, Artifacts.Crew.Steps d.handler bucket us n (.start (min workers us.length) w) c →
      n ≤ 7 * us.length ∧
      (¬c.Finished → ∃ c', Artifacts.Crew.Step d.handler bucket us c c') ∧
      (c.Finished → forecast.Settles bucket us c.board.log c.board.result ∧
        ∀ key, site.cloud.objects.get (d.files c.board.world) bucket key =
          site.cloud.objects.contentAfter t bucket us key)) ∧
    (∃ w' log, (Artifacts.uploadAll bucket workers us).outcome d.handler w =
        (some (forecast.verdict us), w') ∧
      (Artifacts.uploadAll bucket workers us).run.asked d.handler w =
        .control (.schedule us.length (min workers us.length)) :: log ∧
      forecast.Settles bucket us log (forecast.verdict us) ∧
      ∀ key, site.cloud.objects.get (d.files w') bucket key =
        site.cloud.objects.contentAfter t bucket us key) ∧
    (forecast.verdict us = .ok () ↔ ∀ u ∈ us, forecast.attempt u = .ok ()) ∧
    ∀ failure, forecast.verdict us = .error failure → ∃ failures : List UploadFailure,
      failure = .uploadsFailed failures ∧ failures.Perm (us.filterMap forecast.failure?) ∧
        failures.Pairwise fun a b => Text.precedes b.key a.key = false := by
  obtain ⟨I, hforetells, hstart, hcontent⟩ := hfit.foretells d hconsistent
  refine ⟨fun n c hsteps => ?_, ?_, Artifacts.Forecast.verdict_eq_ok,
    fun failure => Artifacts.Forecast.verdict_eq_error⟩
  · obtain ⟨hbound, hmore, hend⟩ := hforetells.crew hconsistent
      (fun hne => by have := List.length_pos_iff.2 hne; omega) (hstart w hw) hsteps
    refine ⟨by omega, hmore, fun hfinished => ?_⟩
    obtain ⟨hsettles, hI⟩ := hend hfinished
    exact ⟨hsettles, hcontent _ _ hsettles.puts_perm hI⟩
  · obtain ⟨w', puts, log, houtcome, hasked, hsettles, hI, hperm⟩ :=
      hforetells.uploadAll hconsistent workers (hstart w hw)
    exact ⟨w', log, houtcome, hasked, hsettles, hcontent _ _ hperm hI⟩

namespace Sample

/-- One file that is there, to go under one key, and one that is not, to go under another. -/
def batch : List PendingUpload :=
  [⟨.ofString "d/project.json", "k"⟩, ⟨.ofString "d/missing", "l"⟩]

theorem fit_batch : Destroy.Sample.site.cloud.objects.Fit "b" batch (Destroy.Sample.disk .empty) := by
  have hrepresents := Destroy.Sample.represents_disk (B := .empty) .empty (by decide) nofun
  have hentries : ∀ x ∈ (Destroy.Sample.disk .empty).entries,
      x.2 = .dir ∨ ∃ content, x.2 = .file content := by
    simp [Destroy.Sample.disk, Destroy.Sample.bare]
  refine .represented hrepresents (Function.update_self ..) (Nat.le_refl _) (by decide)
    fun u hu => .of_beside ?_ (fun _ target _ => ne_link_of_entries hentries target) ?_
  · revert u
    decide
  · revert u
    decide

theorem consistent_batch : ∀ u ∈ batch, ∀ v ∈ batch, u.key = v.key →
    (Destroy.Sample.disk .empty).read u.path = (Destroy.Sample.disk .empty).read v.path := by
  simp [batch]

end Sample

/-- However two workers upload the sample, they are told of the one failure. -/
theorem uploads_independent_sample :
    Destroy.Sample.site.cloud.objects.Fit "b" Sample.batch (Destroy.Sample.disk .empty) ∧
      (∀ u ∈ Sample.batch, ∀ v ∈ Sample.batch, u.key = v.key →
        (Destroy.Sample.disk .empty).read u.path = (Destroy.Sample.disk .empty).read v.path) ∧
      ∀ n c, Artifacts.Crew.Steps (Destroy.Sample.site.during Destroy.Sample.course).handler "b"
        Sample.batch n (.start 2 (Destroy.Sample.disk .empty, 0)) c → c.Finished →
          c.board.result ≠ .ok () := by
  refine ⟨Sample.fit_batch, Sample.consistent_batch, fun n c hsteps hfinished hok => ?_⟩
  obtain ⟨hcrew, -, hsucceeds, -⟩ := uploads_independent
    (Destroy.Sample.site.during Destroy.Sample.course) "b" Sample.batch _ Sample.fit_batch
    Sample.consistent_batch 2 (by decide) (Destroy.Sample.disk .empty, 0) rfl
  obtain ⟨hsettles, -⟩ := (hcrew n c hsteps).2.2 hfinished
  rw [hsettles.result] at hok
  have hmissing : ((Destroy.Sample.site.cloud.objects.forecast (Destroy.Sample.disk .empty)
      "b").attempt ⟨.ofString "d/missing", "l"⟩).isOk = false := by decide +kernel
  rw [hsucceeds.1 hok _ (by decide)] at hmissing
  cases hmissing

namespace Sample

/-- The disk with something in the way of the second version. -/
def blocked : FileTree :=
  { Destroy.Sample.disk .empty with
    entries := (Destroy.Sample.disk .empty).entries ++
      [(["t", "c", "buckets", "b", "blobs", "v000000000002"], .dir)] }

/-- A course on which the second of two jobs ends first. -/
def crossed : Course := ⟨fun _ => false, fun _ => 0, fun _ jobs =>
  match jobs with
  | 2 => ⟨[1, 0], by decide⟩
  | n => .inOrder n⟩

/-- The keys of the failures of which a batch of two uploads of one file tells. -/
def failedKeys (course : Course) : List String :=
  match ((Artifacts.uploadAll "b" 2 [⟨.ofString "d/project.json", "k"⟩,
    ⟨.ofString "d/project.json", "l"⟩]).outcome (Destroy.Sample.site.during course).handler
      (blocked, 0)).1 with
  | some (.error (.uploadsFailed failures)) => failures.map UploadFailure.key
  | _ => []

end Sample

/-- Where something is in the way of the second version, the upload that ends first succeeds and
the other fails. -/
theorem uploads_dependent :
    Sample.failedKeys Destroy.Sample.course = ["l"] ∧ Sample.failedKeys Sample.crossed = ["k"] := by
  rw [Sample.failedKeys, Sample.failedKeys, Documents.during_quick, Documents.during_quick]
  decide +kernel

end ObjectStore

end Rollout
