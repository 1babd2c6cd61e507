import Rollout.Proofs.Run.CommitSafety
import Rollout.Proofs.Run.Interleaved

/-!
What is live after deploys of one stage that ran side by side. No lock keeps runs apart that have
different state directories, so they may come to store their templates, to update the stack and to
publish their markers in any order. The marker names the run that published it last. The stack has
the template that lay in the bucket when it was updated last, whoever updated it.
-/

namespace Rollout

open FileTree

namespace Deploy

/-- A disk on which several runs deploy one stage, each out of a build of its own. -/
structure SideBySide {ι : Type} (s : ι → Settings) (cloud : DiskCloud) (top : Location) (stage : Stage)
    (stack : String) (project : ι → Project) (t : FileTree) : Prop where
  layout : ∀ x, Layout (s x) cloud top stage t
  logs : cloud.LogsAtRoot
  loads : ∀ x, ((s x).site cloud).descriptors.load t = .ok (project x)
  named : ∀ x, stage.stackName (project x).name = stack

/-- The stack has the template that is rendered for a plan. -/
def HasTemplate (s : Settings) (cloud : DiskCloud) (stage : Stage) (p : Prepared)
    (t : FileTree) : Prop :=
  ∃ text value doc, (s.site cloud).descriptors.template t .update stage = .ok text ∧
    Json.parse? (p.plan.tokens.render text) = some value ∧
    cloud.provider.load t p.stack = .ok (some doc) ∧
    (value.integersOnly = true → doc.template = value)

/-! ## Two deploys that cross -/

namespace Crossing

/-- Two builds of one project, by the run that deploys them. -/
def build (x : Bool) : String := if x then "two" else "one"

/-- When they were compiled. -/
def timestamp (x : Bool) : String := if x then "2" else "1"

/-- The project as each was built. -/
def project (x : Bool) : Project := ⟨"p", timestamp x, [], [], [], [], true, none⟩

/-- Its descriptor. -/
def descriptor (x : Bool) : Json :=
  .obj [("project_name", .str "p"), ("compilation_timestamp", .str (timestamp x)),
    ("functions", .arr [])]

/-- The export of the deployment bucket. -/
def outputs : Json :=
  .obj [("B", .obj [("Value", .str "b"),
    ("Export", .obj [("Name", .str "p-dev-DeploymentBucketName")])])]

/-- Its template. -/
def template (x : Bool) : Json := .obj [("Code", .str (timestamp x)), ("Outputs", outputs)]

/-- What a build leaves. -/
def built (x : Bool) : List (Location × Entry) :=
  [(["w", build x], .dir), (["w", build x, "project.json"], Sample.document (descriptor x)),
    (["w", build x, "stack-create-dev.json"], Sample.file ""),
    (["w", build x, "stack-update-dev.json"], Sample.document (template x))]

/-- A disk with both builds, and a stack with an empty bucket. -/
def disk : FileTree where
  workDir := ["w"]
  locks := []
  entries := (["w"], .dir) :: built false ++ built true ++
    [(["w", ".liftoff"], .dir), (["w", ".liftoff", "cloud"], .dir),
      (["w", ".liftoff", "cloud", "stacks"], .dir),
      (["w", ".liftoff", "cloud", "stacks", "p-dev.json"],
        Sample.document (.obj [("status", .str ""), ("template", .obj [("Outputs", outputs)])])),
      (["w", ".liftoff", "cloud", "buckets"], .dir),
      (["w", ".liftoff", "cloud", "buckets", "b"], .dir),
      (["w", ".liftoff", "cloud", "buckets", "b", "index.json"],
        Sample.document BucketIndex.empty.toJson),
      (["w", ".liftoff", "cloud", "buckets", "b", "blobs"], .dir)]

/-- Each run has a state directory of its own. -/
def settings (x : Bool) : Settings :=
  ⟨.ofString ".", .dev, .ofString (build x), .ofString (build x),
    .ofString (".liftoff/" ++ build x), 1, .standard, .standard⟩

/-- The cloud that they share. -/
def cloud : DiskCloud := .atRoot disk (.ofString ".liftoff/cloud")

theorem disk_spec :
    (∀ x, (((settings x).site cloud).descriptors.load disk).toOption = some (project x)) ∧
      ((cloud.provider.load disk "p-dev").toOption.bind id).isSome = true ∧
      (∀ x, (Json.parse? (template x).compact).map
        (fun v => (v.integersOnly, (v.path? ["Code"]).bind Json.str?)) =
          some (true, some (timestamp x))) ∧
      BucketIndex.parse? BucketIndex.empty.toJson.compact = some .empty := by
  rw [Documents.project_quick, Documents.load_quick, Documents.index_compact_quick]
  simp only [Documents.parse?_compact_quick]
  decide +kernel

theorem load_disk (x : Bool) : ((settings x).site cloud).descriptors.load disk = .ok (project x) :=
  Outcome.ok_of_toOption (disk_spec.1 x)

theorem load_stack : ∃ doc, cloud.provider.load disk "p-dev" = .ok (some doc) := by
  obtain ⟨doc, hdoc⟩ := Option.isSome_iff_exists.1 disk_spec.2.1
  obtain ⟨found, hload, rfl⟩ := Option.bind_eq_some_iff.1 hdoc
  exact ⟨doc, Outcome.ok_of_toOption hload⟩

theorem code_of_parse {x : Bool} {v : Json} (h : Json.parse? (template x).compact = some v) :
    v.integersOnly = true ∧ (v.path? ["Code"]).bind Json.str? = some (timestamp x) := by
  have hparse := disk_spec.2.2.1 x
  rw [h] at hparse
  exact Prod.mk.inj (Option.some.inj hparse)

theorem entries_disk : ∀ x ∈ disk.entries, x.2 = .dir ∨ ∃ content, x.2 = .file content := by
  simp [disk, built, Sample.file, Sample.document]

theorem tidy : disk.Tidy Sample.top where
  wf := .of_entries (by decide) (by decide)
  free _ target _ := ne_link_of_entries entries_disk target
  base := by decide

theorem within : Within disk.workDir Sample.top cloud.objects.root where
  plain := by decide
  below := by decide

theorem readIndex_disk {bucket : String} {dir : Path} {i : BucketIndex}
    (h : cloud.objects.readIndex disk bucket = .ok (dir, i)) : i = BucketIndex.empty := by
  obtain ⟨-, -, content, text, hentry, htext, hparse⟩ :=
    (ObjectStore.readIndex_eq_ok tidy within).1 h
  have honly : ∀ x ∈ disk.entries, x.1.getLast? = some "index.json" →
      x.2 = Sample.document BucketIndex.empty.toJson := by
    simp [disk, built, build]
  rcases mem_entries hentry with ⟨-, he⟩ | hmem
  · cases he
  cases honly _ hmem (by simp [ObjectStore.indexPlace])
  rw [Text.fromUTF8?_toUTF8] at htext
  cases htext
  rw [disk_spec.2.2.2] at hparse
  exact (Option.some.inj hparse).symm

theorem beyond {p : Path} (hplain : p.Plain) (hout : ¬Sample.top <+: p.place disk.workDir) :
    disk.Beyond Sample.top p :=
  .of_beside hplain (fun _ target _ => ne_link_of_entries entries_disk target) hout

theorem layout (x : Bool) : Layout (settings x) cloud Sample.top .dev disk where
  settled :=
    { steady := ⟨tidy, within, fun _ _ _ h => by
        rw [readIndex_disk h]
        exact BucketIndex.Sound.empty⟩
      provider := rfl
      root := rfl
      records := by cases x <;> exact ⟨by decide, by decide⟩ }
  descriptor := by cases x <;> exact beyond (by decide) (by decide)
  template := by cases x <;> exact beyond (by decide) (by decide)
  artifacts p hp f hf := by
    obtain rfl : project x = p := Except.ok.inj ((load_disk x).symm.trans hp)
    cases hf
  stack p hp := by
    obtain rfl : project x = p := Except.ok.inj ((load_disk x).symm.trans hp)
    cases x <;> exact ⟨by decide, by decide⟩

theorem sideBySide : SideBySide settings cloud Sample.top .dev "p-dev" project disk where
  layout := layout
  logs := DiskCloud.logsAtRoot_atRootWith ..
  loads := load_disk
  named x := by cases x <;> decide

theorem injective_timestamp : Function.Injective fun x => (project x).timestamp := by
  decide

/-- How the disk answers the requests of each run. -/
def respond (x : Bool) (r : Request) (t : FileTree) : r.Answer × FileTree :=
  let (a, w) := ((settings x).site cloud).answer r (.start t)
  (a, w.files)

theorem answers_respond (x : Bool) (r : Request) (t : FileTree) :
    ((settings x).site cloud).Answers r t (respond x r t).1 (respond x r t).2 :=
  ((settings x).site cloud).world.answers r (.start t)

/-- The two deploys. -/
def runs (x : Bool) : Program (Except Failure DeployReport) :=
  (deploy (settings x) 10 ⟨.dev, true⟩).run

/-- The first gets as far as storing its template. Then it is slow, and the second deploys before
it goes on. -/
def turns : List Bool := .replicate 16 false ++ .replicate 30 true ++ .replicate 12 false

/-- What they come to. -/
def crossed : History Bool × (Bool → Program (Except Failure DeployReport)) × FileTree :=
  History.takeTurns respond turns runs disk

theorem crossed_spec : History.Passes (fun x => (settings x).site cloud) crossed.1 disk crossed.2.2 ∧
    ∀ x a, crossed.2.1 x = .done a → (runs x).Exchanges (History.told crossed.1 x) a := by
  rw [crossed]
  exact History.takeTurns_spec answers_respond turns runs disk

/-- The report of a run that succeeded. -/
def report? (p : Program (Except Failure DeployReport)) : Option DeployReport :=
  match p with
  | .done (.ok r) => some r
  | _ => none

theorem eq_done_of_report? {p : Program (Except Failure DeployReport)} {r : DeployReport}
    (h : report? p = some r) : p = .done (.ok r) := by
  unfold report? at h
  split at h
  · cases h
    rfl
  · cases h

/-- What was stored as a template. -/
def stored : Request → Option ByteArray
  | .store (.put _ key body) => if key = templateKey then some body else none
  | _ => none

theorem respond_quick : respond = fun x r t =>
    let (a, w) := Documents.quick.answer ((settings x).site cloud) r (.start t)
    (a, w.files) := by
  funext x r t
  rw [respond, Documents.answer_quick]

/-- Both succeed. The first publishes last, and the stack is updated last when the template of the
second is in the bucket. -/
theorem crossed_ends :
    (∀ x, (report? (crossed.2.1 x)).map (fun r => (r.bucket, r.files)) = some ("b", [])) ∧
      crossed.1.length ≤ 60 ∧ History.StoredLast crossed.1 "b" markerKey false ∧
      History.UpdatedLast crossed.1 (fun _ => "b") true ∧
      ∀ x, ((History.told crossed.1 x).filterMap fun e => stored e.request).map
        (fun b => b.data.toList) = [(template x).compact.toUTF8.data.toList] := by
  rw [crossed, respond_quick]
  decide +kernel

theorem succeeded : ∃ report : Bool → DeployReport,
    (∀ x, (deploy (settings x) 10 ⟨.dev, true⟩).Exchanges (History.told crossed.1 x) (report x)) ∧
      ∀ x, (report x).bucket = "b" ∧ (report x).files = [] := by
  have hend (x : Bool) : ∃ r, crossed.2.1 x = .done (.ok r) ∧ r.bucket = "b" ∧ r.files = [] := by
    obtain ⟨r, hr, hreport⟩ := Option.map_eq_some_iff.1 (crossed_ends.1 x)
    exact ⟨r, eq_done_of_report? hr, Prod.mk.inj hreport⟩
  choose report hdone hreport using hend
  exact ⟨report, fun x => crossed_spec.2 x _ (hdone x), hreport⟩

theorem room : cloud.objects.Room disk crossed.1.length := by
  refine .mono ⟨by decide, fun bucket dir i h => ?_⟩ crossed_ends.2.1
  rw [readIndex_disk h]
  decide

end Crossing

/-! ## What deploys leave -/

variable {ι : Type} {s : ι → Settings} {cloud : DiskCloud} {top : Location} {stage : Stage}
  {stack : String} {project : ι → Project} {t t' : FileTree} {h : History ι}

namespace SideBySide

theorem contained [Nonempty ι] (hs : SideBySide s cloud top stage stack project t) :
    StackProvider.Contained stack := by
  obtain ⟨x⟩ := ‹Nonempty ι›
  rw [← hs.named x]
  exact (hs.layout x).stack _ (hs.loads x)

theorem steady [Nonempty ι] (hs : SideBySide s cloud top stage stack project t) :
    cloud.objects.Steady top t := by
  obtain ⟨x⟩ := ‹Nonempty ι›
  exact (hs.layout x).settled.steady

theorem within [Nonempty ι] (hs : SideBySide s cloud top stage stack project t) :
    Within t.workDir top cloud.provider.root := by
  obtain ⟨x⟩ := ‹Nonempty ι›
  exact (hs.layout x).settled.within

theorem of_kept (hs : SideBySide s cloud top stage stack project t) {S : Location → Prop}
    {K : String → String → Prop} {n : Nat} (hkept : cloud.objects.Kept top S K n t t')
    (hS : ∀ l, S l → top <+: l) : SideBySide s cloud top stage stack project t' where
  layout x := (hs.layout x).of_kept hkept hS
  logs := hs.logs
  loads x :=
    (load_eq_of_beyond (hs.layout x).descriptor hkept.steady.tidy (hkept.touched.mono hS)).trans
      (hs.loads x)
  named := hs.named

variable [Nonempty ι]

/-- What the requests of deploys leave of the cloud, however they are interleaved. -/
theorem kept (hs : SideBySide s cloud top stage stack project t)
    (hh : ∀ m ∈ h, m.2.request.Deploys stack)
    (hpasses : h.Passes (fun x => (s x).site cloud) t t') :
    cloud.objects.Kept top (top <+: ·) (fun b k => ∃ m ∈ h, m.2.request.putKey? b = some k)
      h.length t t' := by
  induction hpasses with
  | nil t => exact .refl hs.steady ..
  | @cons x e h t t₁ t' he hrest ih =>
    obtain ⟨hfirst, hh⟩ := List.forall_mem_cons.1 hh
    obtain ⟨S, hkept, hS, -⟩ :=
      Site.kept_of_deploys (hs.layout x).settled hs.logs hs.contained hfirst he
    refine (hkept.mono hS (fun b k hk => ?_) (Nat.le_refl _)).extend hs.steady
      (ih (hs.of_kept hkept hS) hh) (fun _ => id) (fun b k hk => ?_) ?_
    · exact ⟨_, List.mem_cons_self, hk⟩
    · obtain ⟨m, hm, hk⟩ := hk
      exact ⟨m, List.mem_cons_of_mem _ hm, hk⟩
    · rw [List.length_cons, Nat.add_comm]

/-- As long as no deploy updates it, a stack keeps its document. -/
theorem hasFile (hs : SideBySide s cloud top stage stack project t)
    (hh : ∀ m ∈ h, m.2.request.Deploys stack) (hnone : ∀ m ∈ h, ¬m.2.request.IsUpdate)
    (hpasses : h.Passes (fun x => (s x).site cloud) t t') {content : ByteArray}
    (hdoc : cloud.provider.HasFile t stack content) :
    cloud.provider.HasFile t' stack content := by
  induction hpasses with
  | nil t => exact hdoc
  | @cons x e h t t₁ t' he hrest ih =>
    obtain ⟨hfirst, hh⟩ := List.forall_mem_cons.1 hh
    obtain ⟨hfirst', hnone⟩ := List.forall_mem_cons.1 hnone
    have hset := (hs.layout x).settled
    obtain ⟨S, hkept, hS, hstays⟩ := Site.kept_of_deploys hset hs.logs hs.contained hfirst he
    have hbeside := hstays hfirst' (hdoc.load_ne_none hset.steady.tidy hset.within hs.contained)
    refine ih (hs.of_kept hkept hS) hh hnone ⟨hdoc.1, ?_⟩
    rw [hkept.touched.work]
    exact (hkept.touched.file_iff hbeside).2 hdoc.2

/-- What was stored last under a key is its content in the end. -/
theorem content_of_storedLast (hs : SideBySide s cloud top stage stack project t)
    (hh : ∀ m ∈ h, m.2.request.Deploys stack)
    (hpasses : h.Passes (fun x => (s x).site cloud) t t')
    (hroom : cloud.objects.Room t h.length) {bucket key : String} {body : ByteArray} {x : ι}
    (hlast : h.StoredLast bucket key x)
    (hbody : ∀ e, (x, e) ∈ h → e.request.putKey? bucket = some key →
      e = ⟨.store (.put bucket key body), .ok ()⟩) :
    cloud.objects.content t' bucket key = some body := by
  obtain ⟨h₁, e, h₂, rfl, hkey, hnone⟩ := hlast
  obtain rfl := hbody e (List.mem_append_right _ List.mem_cons_self) hkey
  rw [List.forall_mem_append, List.forall_mem_cons] at hh
  obtain ⟨hh₁, -, hh₂⟩ := hh
  obtain ⟨t₁, hpasses₁, hpasses₂⟩ := hpasses.append
  cases hpasses₂ with
  | @cons _ _ _ _ t₂ _ hput hpasses₂ =>
    have hput : cloud.objects.put bucket key body t₁ = (.ok (), t₂) := hput
    have hkept₁ := hs.kept hh₁ hpasses₁
    have hs₁ := hs.of_kept hkept₁ fun _ => id
    have hroom₁ : cloud.objects.Room t₁ (h₂.length + 1) :=
      (hkept₁.room _ (hroom.mono (by simp; omega))).1
    obtain ⟨hkept, -⟩ := ObjectStore.put_spec hs₁.steady hput
    have hs₂ := hs₁.of_kept hkept fun l hl =>
      ObjectStore.InStore.below hs₁.steady.within ⟨bucket, hl⟩
    rw [(hs₂.kept hh₂ hpasses₂).content_eq (hkept.room _ hroom₁).1]
    · exact (ObjectStore.content_of_put hs₁.steady (hroom₁.mono (by omega)) hput).2
    · rintro ⟨m, hm, hk⟩
      exact hnone m hm hk

/-- As long as no deploy updates it, a stack stays as it is. -/
theorem load_of_load (hs : SideBySide s cloud top stage stack project t)
    (hh : ∀ m ∈ h, m.2.request.Deploys stack) (hnone : ∀ m ∈ h, ¬m.2.request.IsUpdate)
    (hpasses : h.Passes (fun x => (s x).site cloud) t t') {doc : StackDoc}
    (hload : cloud.provider.load t stack = .ok (some doc)) :
    cloud.provider.load t' stack = .ok (some doc) := by
  have hkept := hs.kept hh hpasses
  have hs' := hs.of_kept hkept fun _ => id
  obtain ⟨content, hfile⟩ :=
    StackProvider.hasFile_of_load hs.steady.tidy hs.within hs.contained hload
  exact (hfile.load_iff (hs.hasFile hh hnone hpasses hfile) hs.steady.tidy hs'.steady.tidy
    hs.within hs'.within hs.contained).2 hload

/-- After the last update of a stack, whose run was told of no failure, the stack has the template
that was fetched. -/
theorem load_of_updated (hs : SideBySide s cloud top stage stack project t)
    (hh : ∀ m ∈ h, m.2.request.Deploys stack) (hnone : ∀ m ∈ h, ¬m.2.request.IsUpdate)
    (hpasses : h.Passes (fun x => (s x).site cloud) t t') {t₀ : FileTree} {url : String}
    {outcome : UpdateOutcome} {template : Json}
    (hupdated : cloud.provider.Updated t₀ t stack url outcome template)
    (hready : outcome = .updating → ∃ x status, status.isFailure = false ∧
      (x, ⟨.stack (.status stack), .ok status⟩) ∈ h) :
    ∃ doc, cloud.provider.load t' stack = .ok (some doc) ∧
      (template.integersOnly = true → doc.template = template) := by
  cases outcome with
  | noChanges =>
    obtain ⟨doc, hload, htemplate⟩ :=
      hupdated.load hs.steady.tidy hs.within hs.contained (by rintro ⟨⟩)
    exact ⟨doc, hs.load_of_load hh hnone hpasses hload, htemplate⟩
  | updating =>
    -- the document that the run was told about is the one that its update had left
    obtain ⟨x, status, hfailure, hmem⟩ := hready rfl
    obtain ⟨h₁, h₂, t₁, t₂, rfl, hpasses₁, hanswer, hpasses₂⟩ := hpasses.split hmem
    have hanswer : readingAnswer (cloud.provider.status t₁ stack) t₁ = (.ok status, t₂) := hanswer
    obtain ⟨hstatus, rfl⟩ := Prod.mk.inj hanswer
    rw [List.forall_mem_append, List.forall_mem_cons] at hh hnone
    have hs₁ := hs.of_kept (hs.kept hh.1 hpasses₁) fun _ => id
    have hlater := hupdated.later fun doc hstored => hs.hasFile hh.1 hnone.1 hpasses₁ hstored
    obtain ⟨doc, hload, htemplate⟩ := hlater.load hs₁.steady.tidy hs₁.within hs₁.contained
      fun _ => ⟨status, hstatus, hfailure⟩
    exact ⟨doc, hs₁.load_of_load hh.2.2 hnone.2.2 hpasses₂ hload, htemplate⟩

/-- Whenever it reads its project, a run reads that of its own build. -/
theorem project_eq (hs : SideBySide s cloud top stage stack project t)
    (hh : ∀ m ∈ h, m.2.request.Deploys stack)
    (hpasses : h.Passes (fun x => (s x).site cloud) t t') {x : ι} {q : Project}
    (hq : (x, ⟨.onMachine .project, .ok q⟩) ∈ h) : q = project x := by
  obtain ⟨h₁, h₂, t₁, t₂, rfl, hpasses₁, ⟨hread, -⟩, -⟩ := hpasses.split hq
  have hs₁ := hs.of_kept (hs.kept (fun m hm => hh m (List.mem_append_left _ hm)) hpasses₁)
    fun _ => id
  exact Except.ok.inj (hread.symm.trans (hs₁.loads x))

end SideBySide

/-! ## What runs were told that delivered -/

section Delivered

variable [DecidableEq ι] {p : ι → Prepared} {report : ι → DeployReport}

/-- All requests are those of deploys to the one stack. -/
theorem requests_deploy [Nonempty ι] (hs : SideBySide s cloud top stage stack project t)
    (hpasses : h.Passes (fun x => (s x).site cloud) t t')
    (hname : ∀ x, (p x).stack = stage.stackName (p x).project.name)
    (hfirst : ∀ x, ∃ es, h.told x = ⟨.onMachine .project, .ok (p x).project⟩ :: es)
    (d : ∀ x, Delivery stage (p x) (report x).files (h.told x)) :
    ∀ m ∈ h, m.2.request.Deploys stack := by
  -- a run knows its stack once it has read its project, and up to there nothing changes that
  have hpart (h₁ h₂ : History ι) (hh : h = h₁ ++ h₂) : ∀ m ∈ h₁, m.2.request.Deploys stack := by
    induction h₁ using List.reverseRecOn generalizing h₂ with
    | nil =>
      intro m hm
      cases hm
    | append_singleton h₁ m ih =>
      obtain ⟨x, e⟩ := m
      rw [List.append_assoc, List.singleton_append] at hh
      have hbefore := ih _ hh
      rw [List.forall_mem_append, List.forall_mem_singleton]
      refine ⟨hbefore, ?_⟩
      have htold : h.told x = History.told h₁ x ++ e :: h₂.told x := by
        rw [hh, History.told_append_cons]
      have hmem : e ∈ h.told x := by simp [htold]
      obtain ⟨es, hes⟩ := hfirst x
      rw [htold] at hes
      cases htold₁ : History.told h₁ x with
      | nil =>
        rw [htold₁] at hes
        obtain rfl := (List.cons.inj hes).1
        trivial
      | cons e' es' =>
        rw [htold₁] at hes
        obtain rfl := (List.cons.inj hes).1
        have hread : (x, ⟨.onMachine .project, .ok (p x).project⟩) ∈ h₁ := by
          rw [← History.mem_told, htold₁]
          exact List.mem_cons_self
        obtain ⟨t₁, hpasses₁, -⟩ := (hh ▸ hpasses).append
        rw [← hs.named x, ← hs.project_eq hbefore hpasses₁ hread, ← hname x]
        exact (d x).request_deploys hmem
  exact hpart h [] (List.append_nil h).symm

/-- Every run updates the stack out of its own bucket. -/
theorem url_eq (hpasses : h.Passes (fun x => (s x).site cloud) t t')
    (d : ∀ x, Delivery stage (p x) (report x).files (h.told x)) (x : ι) :
    (d x).url = ObjectStore.objectUrl (p x).bucket templateKey := by
  obtain ⟨_, _, t₁, t₂, -, -, hurl, -⟩ :=
    hpasses.split (History.mem_told.1 ((d x).mem_iff.2 (.inr (.inr (.inl (d x).addressed)))))
  exact (Except.ok.inj (Prod.mk.inj hurl).1).symm

/-- Every run reads the template of its own build. -/
theorem template_eq [Nonempty ι] (hs : SideBySide s cloud top stage stack project t)
    (hh : ∀ m ∈ h, m.2.request.Deploys stack)
    (hpasses : h.Passes (fun x => (s x).site cloud) t t')
    (d : ∀ x, Delivery stage (p x) (report x).files (h.told x)) (x : ι) :
    ((s x).site cloud).descriptors.template t .update stage = .ok (d x).text := by
  obtain ⟨h₁, h₂, t₁, t₂, hsplit, hpasses₁, ⟨hread, -⟩, -⟩ :=
    hpasses.split (History.mem_told.1 ((d x).mem_iff.2 (.inl (d x).read)))
  have hkept := hs.kept (fun m hm => hh m (hsplit ▸ List.mem_append_left _ hm)) hpasses₁
  rw [← template_eq_of_beyond (hs.layout x).template hkept.steady.tidy hkept.touched]
  exact hread

/-- The stack has the template of a run if that is what the run stored. -/
theorem hasTemplate_iff [Nonempty ι] (hs : SideBySide s cloud top stage stack project t)
    (hh : ∀ m ∈ h, m.2.request.Deploys stack)
    (hpasses : h.Passes (fun x => (s x).site cloud) t t') (hstack : ∀ x, (p x).stack = stack)
    (d : ∀ x, Delivery stage (p x) (report x).files (h.told x)) (x : ι) :
    HasTemplate (s x) cloud stage (p x) t' ↔
      ∃ value doc, Json.parse? (d x).rendered = some value ∧
        cloud.provider.load t' stack = .ok (some doc) ∧
        (value.integersOnly = true → doc.template = value) := by
  have hkept := hs.kept hh hpasses
  have htext := template_eq hs hh hpasses d x
  rw [← template_eq_of_beyond (hs.layout x).template hkept.steady.tidy hkept.touched] at htext
  rw [HasTemplate, htext, hstack]
  constructor
  · rintro ⟨_, value, doc, ⟨⟩, hdoc⟩
    exact ⟨value, doc, hdoc⟩
  · rintro ⟨value, doc, hdoc⟩
    exact ⟨_, value, doc, rfl, hdoc⟩

/-- A run that updates the stack has stored its template before, and is told of no failure then. -/
theorem told_of_update (hpasses : h.Passes (fun x => (s x).site cloud) t t')
    (hstack : ∀ x, (p x).stack = stack)
    (d : ∀ x, Delivery stage (p x) (report x).files (h.told x)) {h₁ h₂ : History ι} {x : ι}
    {e : Exchange} (hh : h = h₁ ++ (x, e) :: h₂) (hupdate : e.request.IsUpdate) :
    ∃ outcome,
      e = ⟨.stack (.update stack (ObjectStore.objectUrl (p x).bucket templateKey)), .ok outcome⟩ ∧
      (∃ m ∈ h₁, m.2.request.putKey? (p x).bucket = some templateKey) ∧
      (outcome = .updating → ∃ x status, status.isFailure = false ∧
        (x, ⟨.stack (.status stack), .ok status⟩) ∈ h₂) := by
  have htold : h.told x = h₁.told x ++ e :: h₂.told x := by
    rw [hh, History.told_append_cons]
  obtain ⟨hbefore, he, hafter⟩ := (d x).eq_of_isUpdate htold hupdate
  rw [hstack, url_eq hpasses d] at he
  refine ⟨(d x).outcome, he, ?_, fun houtcome => ?_⟩
  · have hstored : (x, ⟨.store (.put (p x).bucket templateKey (d x).rendered.toUTF8), .ok ()⟩) ∈
        h₁ := by
      rw [← History.mem_told, hbefore]
      exact List.mem_append_right _ List.mem_cons_self
    exact ⟨_, hstored, if_pos rfl⟩
  · obtain ⟨status, hfailure, hmem⟩ := (d x).ready houtcome
    refine ⟨x, status, hfailure, History.mem_told.1 ?_⟩
    rw [hafter, ← hstack x]
    exact List.mem_append_left _ hmem

/-- The stack has the template that lay in the bucket when it was updated for the last time. -/
theorem hasTemplate_of_updatedLast [Nonempty ι]
    (hs : SideBySide s cloud top stage stack project t)
    (hh : ∀ m ∈ h, m.2.request.Deploys stack)
    (hpasses : h.Passes (fun x => (s x).site cloud) t t') (hroom : cloud.objects.Room t h.length)
    (hstack : ∀ x, (p x).stack = stack)
    (d : ∀ x, Delivery stage (p x) (report x).files (h.told x))
    (hfiles : ∀ x y, templateKey ∉ fileKeys (p x).bucket (report y).files) {x : ι}
    (hlive : h.UpdatedLast (fun y => (p y).bucket) x) :
    HasTemplate (s x) cloud stage (p x) t' := by
  rw [hasTemplate_iff hs hh hpasses hstack d]
  obtain ⟨h₁, y, e, h₂, hsplit, hupdate, hnone, hlast⟩ := hlive
  obtain ⟨outcome, rfl, -, hready⟩ := told_of_update hpasses hstack d hsplit hupdate
  rw [hsplit, List.forall_mem_append, List.forall_mem_cons] at hh
  rw [hsplit] at hpasses hroom
  obtain ⟨t₁, hpasses₁, hpasses₂⟩ := hpasses.append
  cases hpasses₂ with
  | @cons _ _ _ _ t₂ _ hupdate hpasses₂ =>
    have hupdate : cloud.provider.update stack
        (ObjectStore.objectUrl (p y).bucket templateKey) t₁ = (.ok outcome, t₂) := hupdate
    have hs₁ := hs.of_kept (hs.kept hh.1 hpasses₁) fun _ => id
    have hcontent : cloud.objects.content t₁ (p y).bucket templateKey =
        some (d x).rendered.toUTF8 :=
      hs.content_of_storedLast hh.1 hpasses₁ (hroom.mono (by simp)) hlast fun e he hkey =>
        (d x).put_template (History.mem_told.2 (hsplit ▸ List.mem_append_left _ he)) hkey
          (hfiles y x)
    have hset := (hs₁.layout y).settled
    have hs₂ := hs₁.of_kept (Site.kept_of_update hset hs.contained hupdate) fun l hl =>
      hl.below hset.rooted hset.within hs.contained
    obtain ⟨template, hupdated⟩ := StackProvider.update_spec (hset.provider.symm ▸ hset.steady)
      hset.rooted hs.contained hupdate
    have hparse : Json.parse? (d x).rendered = some template := by
      refine hupdated.parse_eq ?_
      show cloud.provider.objects.content t₁ (p y).bucket templateKey = _
      rw [show cloud.provider.objects = cloud.objects from hset.provider, hcontent]
    obtain ⟨doc, hload, htemplate⟩ :=
      hs₂.load_of_updated hh.2.2 hnone hpasses₂ hupdated hready
    exact ⟨template, doc, hparse, hload, htemplate⟩

/-- The marker is the timestamp of the run that was the last to publish. -/
theorem content_of_publishedLast [Nonempty ι] (hs : SideBySide s cloud top stage stack project t)
    (hh : ∀ m ∈ h, m.2.request.Deploys stack)
    (hpasses : h.Passes (fun x => (s x).site cloud) t t') (hroom : cloud.objects.Room t h.length)
    (hproject : ∀ x, (p x).project = project x)
    (d : ∀ x, Delivery stage (p x) (report x).files (h.told x)) {bucket : String} {x : ι}
    (hfiles : markerKey ∉ fileKeys bucket (report x).files)
    (hlast : h.StoredLast bucket markerKey x) :
    cloud.objects.content t' bucket markerKey = some (project x).timestamp.toUTF8 := by
  rw [← hproject x]
  exact hs.content_of_storedLast hh hpasses hroom hlast fun e he hkey =>
    (d x).put_marker (History.mem_told.2 he) hkey hfiles

/-- Deploys that all succeeded have all delivered, to the one stack. -/
theorem exists_delivered [Nonempty ι] {patience : ι → Nat} {skipHooks : ι → Bool}
    (hs : SideBySide s cloud top stage stack project t)
    (hruns : ∀ x, (deploy (s x) (patience x) ⟨stage, skipHooks x⟩).Exchanges (h.told x) (report x))
    (hpasses : h.Passes (fun x => (s x).site cloud) t t') :
    ∃ p : ι → Prepared,
      (∀ x, (prepare ((s x).waiting (patience x)) stage).Reaches (h.told x) (p x)) ∧
      (∀ m ∈ h, m.2.request.Deploys stack) ∧
      (∀ x, (p x).project = project x ∧ (p x).stack = stack ∧ (report x).bucket = (p x).bucket) ∧
      Nonempty (∀ x, Delivery stage (p x) (report x).files (h.told x)) := by
  choose p hreaches hplanned hfirst hbucket hd using fun x => exchanges_deploy (hruns x)
  have d : ∀ x, Delivery stage (p x) (report x).files (h.told x) := fun x => (hd x).some
  have hh := requests_deploy hs hpasses (fun x => (hplanned x).stack) hfirst d
  have hproject (x : ι) : (p x).project = project x := by
    obtain ⟨es, hes⟩ := hfirst x
    exact hs.project_eq hh hpasses (History.mem_told.1 (hes ▸ List.mem_cons_self))
  refine ⟨p, hreaches, hh, fun x => ⟨hproject x, ?_, hbucket x⟩, ⟨d⟩⟩
  rw [(hplanned x).stack, hproject, hs.named]

end Delivered

/-! ## Marker and stack -/

/-- What is live after deploys of one stage that all succeeded, in whatever order they came to make
their requests. A run finds its timestamp in the marker exactly if it was the last to publish, and
the stack has the template of the run that was the last to store one when the stack was updated
for the last time. So if the marker names a run, and the run that published last is the one whose
template was taken last, then the stack has the template of the run that is named. -/
theorem marker_names_live [Nonempty ι] [DecidableEq ι] {patience : ι → Nat} {skipHooks : ι → Bool}
    {report : ι → DeployReport} (hs : SideBySide s cloud top stage stack project t)
    (hapart : Function.Injective fun x => (project x).timestamp)
    (hruns : ∀ x, (deploy (s x) (patience x) ⟨stage, skipHooks x⟩).Exchanges (h.told x) (report x))
    (hpasses : h.Passes (fun x => (s x).site cloud) t t') (hroom : cloud.objects.Room t h.length)
    (hfiles : ∀ x y, ∀ key ∈ [templateKey, markerKey],
      key ∉ fileKeys (report x).bucket (report y).files) :
    ∃ p : ι → Prepared,
      (∀ x, (prepare ((s x).waiting (patience x)) stage).Reaches (h.told x) (p x)) ∧
      (∃ x, h.UpdatedLast (fun y => (report y).bucket) x) ∧
      ∀ x,
        (cloud.objects.content t' (report x).bucket markerKey =
            some (project x).timestamp.toUTF8 ↔
          h.StoredLast (report x).bucket markerKey x) ∧
        (h.UpdatedLast (fun y => (report y).bucket) x →
          HasTemplate (s x) cloud stage (p x) t') := by
  obtain ⟨p, hreaches, hh, hp, ⟨d⟩⟩ := exists_delivered hs hruns hpasses
  have hproject (x : ι) : (p x).project = project x := (hp x).1
  have hstack (x : ι) : (p x).stack = stack := (hp x).2.1
  have hbucket (x : ι) : (report x).bucket = (p x).bucket := (hp x).2.2
  simp only [hbucket] at hfiles ⊢
  have hpublished (x y : ι) :=
    content_of_publishedLast hs hh hpasses hroom hproject d (hfiles x y markerKey (by simp))
  refine ⟨p, hreaches, ?_, fun x => ⟨⟨fun hnames => ?_, fun hlast => ?_⟩, fun hlive => ?_⟩⟩
  · obtain ⟨x⟩ := ‹Nonempty ι›
    have hupdates : ∃ m ∈ h, m.2.request.IsUpdate :=
      ⟨_, History.mem_told.1 (d x).mem_update, trivial⟩
    obtain ⟨h₁, ⟨y, e⟩, h₂, hsplit, hupdate, hnone⟩ := History.exists_last hupdates
    obtain ⟨-, -, hstored, -⟩ := told_of_update hpasses hstack d hsplit hupdate
    obtain ⟨z, hz⟩ := History.exists_storedLast hstored
    exact ⟨z, h₁, y, e, h₂, hsplit, hupdate, hnone, hz⟩
  · obtain ⟨y, hlast⟩ :=
      History.exists_storedLast ⟨_, History.mem_told.1 (d x).mem_marker, if_pos rfl⟩
    rw [hpublished x y hlast, Option.some.injEq] at hnames
    have hsame := congrArg String.fromUTF8? hnames
    rw [Text.fromUTF8?_toUTF8, Text.fromUTF8?_toUTF8, Option.some.injEq] at hsame
    obtain rfl := hapart hsame
    exact hlast
  · exact hpublished x x hlast
  · exact hasTemplate_of_updatedLast hs hh hpasses hroom hstack d
      (fun x y => hfiles x y templateKey (by simp)) hlive

theorem marker_names_live_sample :
    ∃ report : Bool → DeployReport,
      SideBySide Crossing.settings Crossing.cloud Sample.top .dev "p-dev" Crossing.project
        Crossing.disk ∧
      (Function.Injective fun x => (Crossing.project x).timestamp) ∧
      (∀ x, (deploy (Crossing.settings x) 10 ⟨.dev, true⟩).Exchanges
        (History.told Crossing.crossed.1 x) (report x)) ∧
      Crossing.crossed.1.Passes (fun x => (Crossing.settings x).site Crossing.cloud) Crossing.disk
        Crossing.crossed.2.2 ∧
      Crossing.cloud.objects.Room Crossing.disk Crossing.crossed.1.length ∧
      (∀ x y, ∀ key ∈ [templateKey, markerKey],
        key ∉ fileKeys (report x).bucket (report y).files) ∧
      ∃ p : Bool → Prepared,
        (∀ x, (prepare ((Crossing.settings x).waiting 10) .dev).Reaches
          (History.told Crossing.crossed.1 x) (p x)) ∧
        (∃ x, History.UpdatedLast Crossing.crossed.1 (fun y => (report y).bucket) x) ∧
        ∀ x,
          (Crossing.cloud.objects.content Crossing.crossed.2.2 (report x).bucket markerKey =
              some (Crossing.project x).timestamp.toUTF8 ↔
            History.StoredLast Crossing.crossed.1 (report x).bucket markerKey x) ∧
          (History.UpdatedLast Crossing.crossed.1 (fun y => (report y).bucket) x →
            HasTemplate (Crossing.settings x) Crossing.cloud .dev (p x) Crossing.crossed.2.2) := by
  obtain ⟨report, hruns, hreport⟩ := Crossing.succeeded
  have hfiles (x y : Bool) (key : String) (_ : key ∈ [templateKey, markerKey]) :
      key ∉ fileKeys (report x).bucket (report y).files := by
    simp [(hreport y).2, fileKeys]
  exact ⟨report, Crossing.sideBySide, Crossing.injective_timestamp, hruns, Crossing.crossed_spec.1,
    Crossing.room, hfiles,
    marker_names_live Crossing.sideBySide Crossing.injective_timestamp hruns
      Crossing.crossed_spec.1 Crossing.room hfiles⟩

/-- Of two deploys that cross, the marker may name the one while the stack has the template of the
other. -/
theorem marker_names_other :
    (Crossing.settings false).stateDir ≠ (Crossing.settings true).stateDir ∧
      (∃ doc, Crossing.cloud.provider.load Crossing.disk "p-dev" = .ok (some doc)) ∧
      Crossing.crossed.1.Passes (fun x => (Crossing.settings x).site Crossing.cloud) Crossing.disk
        Crossing.crossed.2.2 ∧
      ∃ (report : Bool → DeployReport) (p : Bool → Prepared),
        (∀ x, (deploy (Crossing.settings x) 10 ⟨.dev, true⟩).Exchanges
          (History.told Crossing.crossed.1 x) (report x)) ∧
        (∀ x, (prepare ((Crossing.settings x).waiting 10) .dev).Reaches
          (History.told Crossing.crossed.1 x) (p x)) ∧
        Crossing.cloud.objects.content Crossing.crossed.2.2 (report false).bucket markerKey =
          some (Crossing.project false).timestamp.toUTF8 ∧
        ¬HasTemplate (Crossing.settings false) Crossing.cloud .dev (p false)
          Crossing.crossed.2.2 := by
  obtain ⟨report, hruns, hreport⟩ := Crossing.succeeded
  obtain ⟨-, -, hpublished, hupdated, hstored⟩ := Crossing.crossed_ends
  have hs := Crossing.sideBySide
  have hpasses := Crossing.crossed_spec.1
  obtain ⟨p, hreaches, hh, hp, ⟨d⟩⟩ := exists_delivered hs hruns hpasses
  have hstack (x : Bool) : (p x).stack = "p-dev" := (hp x).2.1
  have hbucket (x : Bool) : (p x).bucket = "b" := (hp x).2.2.symm.trans (hreport x).1
  have hfiles (x : Bool) (bucket key : String) : key ∉ fileKeys bucket (report x).files := by
    simp [(hreport x).2, fileKeys]
  refine ⟨by decide, Crossing.load_stack, hpasses, report, p, hruns, hreaches, ?_, ?_⟩
  · rw [(hreport false).1]
    exact content_of_publishedLast hs hh hpasses Crossing.room (fun x => (hp x).1) d
      (hfiles false "b" markerKey) hpublished
  -- what each run rendered is the template of its build
  have hrendered (x : Bool) : (d x).rendered = (Crossing.template x).compact := by
    have hmem : (d x).rendered.toUTF8 ∈
        (History.told Crossing.crossed.1 x).filterMap fun e => Crossing.stored e.request :=
      List.mem_filterMap.2 ⟨_, (d x).mem_iff.2 (.inr (.inl rfl)), by simp [Crossing.stored]⟩
    have hbytes := List.mem_map_of_mem (f := fun b => b.data.toList) hmem
    rw [hstored x, List.mem_singleton] at hbytes
    have hsame := congrArg String.fromUTF8? (ByteArray.ext (Array.toList_inj.1 hbytes))
    rwa [Text.fromUTF8?_toUTF8, Text.fromUTF8?_toUTF8, Option.some.injEq] at hsame
  have hlive : HasTemplate (Crossing.settings true) Crossing.cloud .dev (p true)
      Crossing.crossed.2.2 := by
    refine hasTemplate_of_updatedLast hs hh hpasses Crossing.room hstack d
      (fun x y => hfiles y _ templateKey) ?_
    simpa only [hbucket] using hupdated
  intro hother
  rw [hasTemplate_iff hs hh hpasses hstack d, hrendered] at hlive hother
  obtain ⟨value, doc, hparse, hload, htemplate⟩ := hlive
  obtain ⟨value', doc', hparse', hload', htemplate'⟩ := hother
  rw [hload] at hload'
  cases hload'
  obtain ⟨hinteger, hcode⟩ := Crossing.code_of_parse hparse
  obtain ⟨hinteger', hcode'⟩ := Crossing.code_of_parse hparse'
  rw [← htemplate hinteger, htemplate' hinteger', hcode'] at hcode
  exact absurd hcode (by decide)

end Deploy

end Rollout
