import Mathlib.Data.List.Nodup
import Rollout.Proofs.Redeploy.Decision

/-!
The versions that a sequence of planner runs issues. A version is the timestamp of its compilation
and the name of an artifact with a slash between them. Either may have slashes of its own, so two
compilations give out one version exactly if the timestamp of one goes on, behind a slash, with
what an artifact of the other begins with. Apart from that, compilations with different timestamps
share no key, and no entry point is issued a version twice.
-/

namespace Rollout

/-- Whether the slash of a version can be taken for another one: the second timestamp is the first
with something behind a slash, and with the same the first artifact begins. -/
def FunctionVersion.Overlap (timestamp artifact timestamp' artifact' : String) : Prop :=
  ∃ between, timestamp' = timestamp ++ "/" ++ between ∧ artifact = between ++ "/" ++ artifact'

namespace FunctionVersion

variable {timestamp timestamp' artifact artifact' : String}

theorem mint_eq_of_overlap (h : Overlap timestamp artifact timestamp' artifact') :
    mint timestamp artifact = mint timestamp' artifact' := by
  obtain ⟨between, rfl, rfl⟩ := h
  simp only [mint, String.append_assoc]

/-- A version read from its front: where the second timestamp is the longer one, it has taken in
the slash of the first. -/
theorem overlap_of_append {rest : List Char} (hrest : rest ≠ [])
    (htimestamp : timestamp'.toList = timestamp.toList ++ rest)
    (hartifact : '/' :: artifact.toList = rest ++ '/' :: artifact'.toList) :
    Overlap timestamp artifact timestamp' artifact' := by
  cases rest with
  | nil => exact absurd rfl hrest
  | cons c between =>
    obtain ⟨rfl, hartifact⟩ := List.cons.inj hartifact
    refine ⟨String.ofList between, String.toList_inj.1 ?_, String.toList_inj.1 ?_⟩
    · simpa using htimestamp
    · simpa using hartifact

/-- Compilations with different timestamps give out the same version only by an overlap. -/
theorem mint_eq_iff (h : timestamp ≠ timestamp') :
    mint timestamp artifact = mint timestamp' artifact' ↔
      Overlap timestamp artifact timestamp' artifact' ∨
        Overlap timestamp' artifact' timestamp artifact := by
  constructor
  · intro heq
    have hchars : timestamp.toList ++ '/' :: artifact.toList =
        timestamp'.toList ++ '/' :: artifact'.toList := by
      simpa [mint, ← String.toList_inj] using heq
    have hne {rest : List Char} (heq : timestamp'.toList = timestamp.toList ++ rest ∨
        timestamp.toList = timestamp'.toList ++ rest) : rest ≠ [] := by
      rintro rfl
      rw [List.append_nil, List.append_nil, String.toList_inj, String.toList_inj] at heq
      exact heq.elim (fun heq => h heq.symm) h
    rcases List.append_eq_append_iff.1 hchars with ⟨rest, hlong, hrest⟩ | ⟨rest, hlong, hrest⟩
    · exact .inl (overlap_of_append (hne (.inl hlong)) hlong hrest)
    · exact .inr (overlap_of_append (hne (.inr hlong)) hlong hrest)
  · rintro (h | h)
    · exact mint_eq_of_overlap h
    · exact (mint_eq_of_overlap h).symm

end FunctionVersion

namespace Redeploy

/-- A run of the planner on a valid project, with all that it looks at. -/
structure Planning where
  project : Project
  valid : project.fault? = none
  stage : Stage
  previous : Record
  marker : Option String
  hasher : FunctionSpec → Except HashError ContentHash

namespace Planning

/-- The plan that a run comes to. -/
def plan (r : Planning) : RedeployPlan :=
  Redeploy.plan r.project r.stage r.previous r.marker r.hasher

/-- The compilation that a run is about. -/
def timestamp (r : Planning) : String := r.project.timestamp

/-- The freshly issued versions, each with its entry point: what the record of the plan has for the
functions to deploy. -/
def issued (r : Planning) : List (String × FunctionVersion) :=
  r.plan.toDeploy.filterMap fun f =>
    (r.plan.record.get? f.entryPoint).map fun d => (f.entryPoint, d.version)

/-- Whether a version is one that two runs both come to, by taking the slash of one for another
one. -/
def Confuses (r r' : Planning) (version : FunctionVersion) : Prop :=
  ∃ f ∈ r.plan.toDeploy, ∃ g ∈ r'.plan.toDeploy,
    FunctionVersion.Overlap r.timestamp (artifactOf r.project f) r'.timestamp
        (artifactOf r'.project g) ∧
      version = .mint r.timestamp (artifactOf r.project f)

variable {r r' : Planning} {version : FunctionVersion} {entryPoint : String}

/-! ## One run -/

/-- Every function to deploy is issued the version of its artifact in this compilation. -/
theorem issued_eq (r : Planning) :
    r.issued = r.plan.toDeploy.map fun f =>
      (f.entryPoint, .mint r.timestamp (artifactOf r.project f)) := by
  unfold issued
  rw [← List.filterMap_eq_map]
  refine List.filterMap_congr fun f hf => ?_
  rw [plan, toDeploy_plan, List.mem_filter] at hf
  rw [plan, get?_record r.valid hf.1, deployed_of_not_keeps (of_decide_eq_true hf.2)]
  rfl

theorem mem_versions :
    version ∈ r.issued.map Prod.snd ↔
      ∃ f ∈ r.plan.toDeploy, version = .mint r.timestamp (artifactOf r.project f) := by
  rw [issued_eq, List.map_map, List.mem_map]
  exact exists_congr fun f => and_congr_right fun _ => eq_comm

/-- The keys to upload to are those of the issued versions. -/
theorem mem_uploadKeys : version.key ∈ r.plan.uploadKeys ↔ version ∈ r.issued.map Prod.snd := by
  rw [mem_versions, RedeployPlan.uploadKeys, List.mem_map]
  constructor
  · rintro ⟨u, hu, hkey⟩
    obtain ⟨f, hf, rfl⟩ := mem_uploads.1 hu
    exact ⟨f, hf, FunctionVersion.mk.injEq .. ▸ hkey.symm⟩
  · rintro ⟨f, hf, rfl⟩
    exact ⟨_, mem_uploads.2 ⟨f, hf, rfl⟩, rfl⟩

/-- One run issues an entry point one version. -/
theorem nodup_issued (r : Planning) : r.issued.Nodup := by
  rw [issued_eq]
  refine List.Nodup.of_map Prod.fst ?_
  rw [List.map_map]
  refine List.pairwise_map.2 ?_
  rw [plan, toDeploy_plan]
  exact (apart_active r.valid r.stage).filter _

/-! ## Two runs -/

/-- What two compilations share is what they confuse. -/
theorem shared_iff (h : r.timestamp ≠ r'.timestamp) :
    version ∈ r.issued.map Prod.snd ∧ version ∈ r'.issued.map Prod.snd ↔
      Confuses r r' version ∨ Confuses r' r version := by
  rw [mem_versions, mem_versions]
  constructor
  · rintro ⟨⟨f, hf, rfl⟩, g, hg, heq⟩
    rcases (FunctionVersion.mint_eq_iff h).1 heq with hoverlap | hoverlap
    · exact .inl ⟨f, hf, g, hg, hoverlap, rfl⟩
    · exact .inr ⟨g, hg, f, hf, hoverlap, heq⟩
  · rintro (⟨f, hf, g, hg, hoverlap, rfl⟩ | ⟨g, hg, f, hf, hoverlap, rfl⟩)
    · exact ⟨⟨f, hf, rfl⟩, g, hg, FunctionVersion.mint_eq_of_overlap hoverlap⟩
    · exact ⟨⟨f, hf, FunctionVersion.mint_eq_of_overlap hoverlap⟩, g, hg, rfl⟩

/-- A compilation confuses nothing with one that has no slash in its timestamp. -/
theorem not_confuses (h : '/' ∉ r'.timestamp.toList) : ¬Confuses r r' version := by
  rintro ⟨f, -, g, -, ⟨between, htimestamp, -⟩, -⟩
  rw [htimestamp] at h
  simp at h

/-- So they share no version of an entry point if they confuse none. -/
theorem disjoint_issued (h : r.timestamp ≠ r'.timestamp)
    (hclear : ∀ version, ¬Confuses r r' version ∧ ¬Confuses r' r version) :
    r.issued.Disjoint r'.issued := by
  intro e he he'
  have hshared : Confuses r r' e.2 ∨ Confuses r' r e.2 :=
    (shared_iff h).1 ⟨List.mem_map_of_mem he, List.mem_map_of_mem he'⟩
  exact hshared.elim (hclear e.2).1 (hclear e.2).2

/-! ## Any number of runs -/

/-- Compilations with different timestamps share a key to upload to, or a version, exactly if they
confuse it; and over all the runs of a planner, as long as no two confuse a version, no entry point
is issued one twice. -/
theorem issued_once {runs : List Planning} (h : runs.Pairwise (·.timestamp ≠ ·.timestamp)) :
    (runs.Pairwise fun r r' => ∀ version : FunctionVersion,
      (version.key ∈ r.plan.uploadKeys ∧ version.key ∈ r'.plan.uploadKeys ↔
          Confuses r r' version ∨ Confuses r' r version) ∧
        (version ∈ r.issued.map Prod.snd ∧ version ∈ r'.issued.map Prod.snd ↔
          Confuses r r' version ∨ Confuses r' r version)) ∧
      ((runs.Pairwise fun r r' => ∀ version, ¬Confuses r r' version ∧ ¬Confuses r' r version) →
        (runs.flatMap issued).Nodup) := by
  constructor
  · refine h.imp fun hne version => ?_
    rw [mem_uploadKeys, mem_uploadKeys]
    exact ⟨shared_iff hne, shared_iff hne⟩
  · intro hclear
    refine List.nodup_flatMap.2 ⟨fun r _ => nodup_issued r, ?_⟩
    exact h.imp₂ (fun _ _ => disjoint_issued) hclear

namespace Sample

/-- The sample project planned from the record of the compilation before. -/
def second : Planning :=
  ⟨Redeploy.Sample.project, by decide, .dev, Redeploy.Sample.recorded, some "t1",
    Redeploy.Sample.hashes⟩

/-- A later compilation of it, planned from what the second one leaves. -/
def third : Planning :=
  ⟨{ Redeploy.Sample.project with timestamp := "t3" }, by decide, .dev, second.plan.record,
    some "t2", Redeploy.Sample.hashes⟩

end Sample

/-- Both runs issue the mail function, which has no fingerprint, a version. -/
theorem issued_once_sample :
    [Sample.second, Sample.third].Pairwise (·.timestamp ≠ ·.timestamp) ∧
      ([Sample.second, Sample.third].flatMap issued).Nodup := by
  have hdifferent : [Sample.second, Sample.third].Pairwise (·.timestamp ≠ ·.timestamp) := by decide
  refine ⟨hdifferent, (issued_once hdifferent).2 ?_⟩
  refine List.pairwise_pair.2 fun version => ⟨not_confuses ?_, not_confuses ?_⟩
  · decide
  · decide

namespace Sample

/-- A project of one function. -/
def single (timestamp artifact : String) : Project :=
  { Redeploy.Sample.project with
    timestamp := timestamp
    functions := [{ Redeploy.Sample.function "cart" ["dev"] with artifact := artifact }] }

/-- A first deployment of an artifact that lies in a directory. -/
def nested : Planning :=
  ⟨single "a" "b/c", by decide, .dev, .empty, none, Redeploy.Sample.hashes⟩

/-- The compilation after, whose timestamp has the name of that directory behind a slash. -/
def slashed : Planning :=
  ⟨single "a/b" "c", by decide, .dev, nested.plan.record, some "a", fun _ => .ok (.ofText "new")⟩

end Sample

/-- Two compilations with different timestamps issue one entry point the same version, and upload
to the same key. -/
theorem issued_twice :
    Sample.nested.timestamp ≠ Sample.slashed.timestamp ∧
      Sample.nested.issued = [("cart", ⟨"a/b/c"⟩)] ∧ Sample.slashed.issued = [("cart", ⟨"a/b/c"⟩)] ∧
      Sample.nested.plan.uploadKeys = ["a/b/c"] ∧ Sample.slashed.plan.uploadKeys = ["a/b/c"] ∧
      Sample.slashed.plan.reissued = ["cart"] := by
  decide

end Planning

end Redeploy

end Rollout
