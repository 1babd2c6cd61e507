import Rollout.Proofs.Cloud.Represented
import Rollout.Proofs.Cloud.StackProvider
import Rollout.Proofs.Files.Pruned
import Rollout.Run.World

/-!
Deleting on disk. What deleting objects and versions does stays in the directory of the bucket, and
deleting the bucket takes that directory away; deleting a stack takes its buckets away and its
document. Nothing is added, and everything that is read elsewhere stays what it was.
-/

namespace Rollout

open FileTree Outcome

namespace ObjectStore

variable {s : ObjectStore} {top : Location} {limit : Nat} {A : VersionedStore} {t t' : FileTree}
  {bucket key id : String} {B : VersionedBucket}

/-! ## In the directory of a bucket -/

/-- Effects on the index of a bucket, or those that take contents away. -/
inductive Deletes (dir : Path) : Effect → Prop where
  | index (i : BucketIndex) : Deletes dir (writeIndex dir i)
  | blob (n : Nat) : Deletes dir (.discard (blobPath dir (versionId n)))

/-- The directory of a bucket. -/
theorem Represents.dir (h : s.Represents top limit A t) (hA : A bucket = some B) :
    t.entry? (s.bucketPlace t.workDir bucket) = some .dir :=
  h.tidy.wf.entry?_of_prefix (h.held bucket B hA).index (bucketPlace_prefix_index _)
    (by simp [indexPlace])

theorem bucketPlace_ne_nil (work : Location) : s.bucketPlace work bucket ≠ [] := by
  simp [bucketPlace]

theorem beside_of_deletes (ht : t.Tidy top) (hin : Within t.workDir top s.root)
    (hname : isBucketName bucket = true) (hu : Usable (indexPath (s.dirPath bucket)))
    (hdir : t.entry? (s.bucketPlace t.workDir bucket) = some .dir) {e : Effect}
    (he : Deletes (s.dirPath bucket) e) {r : Except FileError Unit} (hrun : e.perform t = (r, t')) :
    SameBeside (s.bucketPlace t.workDir bucket) t t' ∧ t'.Tidy top ∧
      t'.entry? (s.bucketPlace t.workDir bucket) = some .dir := by
  have hstands {l : Location} (hl : s.bucketPlace t.workDir bucket ≠ l)
      (htouched : Touched top (· = l) t t') :
      t'.entry? (s.bucketPlace t.workDir bucket) = some .dir := by
    rcases htouched.same _ hl with hsame | ⟨-, hmade, -⟩
    · rw [hsame, hdir]
    · exact hmade
  cases he with
  | index i =>
    obtain ⟨hbelow, hplace⟩ := below_index hin (bucketDir_of_name hname)
    obtain ⟨htidy, htouched, -⟩ := Effect.replace_spec ht hbelow hrun
    have habove : t.entry? ((indexPath (s.dirPath bucket)).place t.workDir).dropLast =
        some .dir := by
      rw [hplace, indexPlace, List.dropLast_concat, hdir]
    rw [hplace] at htouched
    exact ⟨replace_beside ht hbelow hu habove (hplace ▸ bucketPlace_prefix_index _) hrun, htidy,
      hstands (by simp [indexPlace]) htouched⟩
  | blob n =>
    obtain ⟨hbelow, hplace⟩ := below_blob hin (bucketDir_of_name hname) (isEntry_versionId n)
    obtain ⟨htidy, htouched⟩ := Effect.discard_spec ht hbelow hrun
    rw [hplace] at htouched
    exact ⟨discard_beside ht.free hbelow (hplace ▸ bucketPlace_prefix_blob _ _) hrun, htidy,
      hstands (by simp [blobPlace]) htouched⟩

theorem beside_of_performAll (ht : t.Tidy top) (hin : Within t.workDir top s.root)
    (hname : isBucketName bucket = true) (hu : Usable (indexPath (s.dirPath bucket)))
    (hdir : t.entry? (s.bucketPlace t.workDir bucket) = some .dir) {es : List Effect}
    (hes : ∀ e ∈ es, Deletes (s.dirPath bucket) e) {r : Except FileError Unit}
    (hrun : Effect.performAll es t = (r, t')) :
    SameBeside (s.bucketPlace t.workDir bucket) t t' := by
  induction es generalizing t with
  | nil =>
    obtain ⟨rfl, -⟩ := performAll_nil hrun
    exact .refl ..
  | cons e es ih =>
    have he := hes e List.mem_cons_self
    rcases performAll_cons hrun with ⟨hfirst, -⟩ | ⟨t₁, hfirst, hrest⟩
    · exact (beside_of_deletes ht hin hname hu hdir he hfirst).1
    · obtain ⟨hbeside, htidy, hdir'⟩ := beside_of_deletes ht hin hname hu hdir he hfirst
      rw [← hbeside.work] at hdir' hin
      have hmore := ih htidy hin hdir' (fun e he => hes e (List.mem_cons_of_mem _ he)) hrest
      rw [hbeside.work] at hmore
      exact hbeside.trans hmore

theorem Represents.beside (h : s.Represents top limit A t) (hA : A bucket = some B)
    {effects : FileTree → Except StoreError (List Effect)}
    (hes : ∀ es, effects t = .ok es → ∀ e ∈ es, Deletes (s.dirPath bucket) e) :
    SameBeside (s.bucketPlace t.workDir bucket) t (performing effects t).2 := by
  have hB := h.held bucket B hA
  rcases performing_eq (Prod.eta (performing effects t)).symm with ⟨hsame, -⟩ | ⟨es, r, he, hrun, -⟩
  · rw [hsame]
    exact .refl ..
  · have hpos : 0 < limit := Nat.lt_of_le_of_lt (Nat.zero_le _) hB.room
    exact beside_of_performAll h.tidy h.within hB.nameable.name (hB.nameable.index hpos)
      (h.dir hA) (hes es he) hrun

/-- Deleting an object changes nothing beside the bucket. -/
theorem Represents.beside_delete (h : s.Represents top limit A t) (hlimit : limit ≤ UInt64.size)
    (hA : A bucket = some B) (key : String) :
    SameBeside (s.bucketPlace t.workDir bucket) t (s.delete bucket key t).2 := by
  refine h.beside hA fun es hes e he => ?_
  rw [deleteEffects, h.readIndex hlimit hA, ok_bind] at hes
  simp only at hes
  split at hes
  · cases hes
    rw [List.mem_singleton.1 he]
    exact .index _
  · cases hes
    rcases List.mem_cons.1 he with rfl | he
    · exact .index _
    · obtain ⟨v, hv, rfl⟩ := List.mem_map.1 he
      rw [VersionedBucket.versions_index] at hv
      obtain ⟨r, -, rfl⟩ := List.mem_map.1 hv
      exact .blob r.number

/-- Nor does deleting a version. -/
theorem Represents.beside_deleteVersion (h : s.Represents top limit A t)
    (hlimit : limit ≤ UInt64.size) (hA : A bucket = some B) {r : Revision}
    (hid : versionId r.number = id) (key : String) :
    SameBeside (s.bucketPlace t.workDir bucket) t (s.deleteVersion bucket key id t).2 := by
  refine h.beside hA fun es hes e he => ?_
  rw [deleteVersionEffects, h.readIndex hlimit hA, ok_bind] at hes
  cases hes
  rcases List.mem_cons.1 he with rfl | he
  · exact .index _
  · rw [List.mem_singleton.1 he, ← hid]
    exact .blob r.number

/-- A bucket that was deleted takes its directory along. -/
theorem deleteBucket_eq (ht : t.Tidy top) (hin : Within t.workDir top s.root)
    {r : Except StoreError Unit} (hrun : s.deleteBucket bucket t = (r, t')) :
    t' = t.dropAll (s.bucketPlace t.workDir bucket) ∨ (t' = t ∧ r ≠ .ok ()) := by
  rcases performing_eq hrun with hsame | ⟨es, r', hes, hperform, hok⟩
  · exact .inr hsame
  simp only [deleteBucketEffects, bind_eq_ok, throw_bind, guard_eq_ok] at hes
  obtain ⟨⟨dir, i⟩, hread, -, hes⟩ := hes
  cases hes
  obtain ⟨hbelow, hplace⟩ := within_bucket hin ((readIndex_eq_ok ht hin).1 hread).1
  have hstep {a : Except FileError Unit} {t₁ : FileTree}
      (hfirst : (Effect.removeTree dir).perform t = (a, t₁)) :
      t₁ = t.dropAll (s.bucketPlace t.workDir bucket) ∨ (t₁ = t ∧ a ≠ .ok ()) := by
    simp only [Effect.perform, Disk.step] at hfirst
    split at hfirst
    · rename_i hremove
      cases hfirst
      exact .inl (hplace ▸ removeTree_eq ht.free hbelow hremove)
    · cases hfirst
      exact .inr ⟨rfl, by rintro ⟨⟩⟩
  rcases performAll_cons hperform with ⟨hfirst, hfails⟩ | ⟨t₁, hfirst, hrest⟩
  · exact (hstep hfirst).imp id fun hsame => ⟨hsame.1, fun h => hfails (hok h)⟩
  · obtain ⟨rfl, -⟩ := performAll_nil hrest
    exact (hstep hfirst).imp id fun hsame => absurd rfl hsame.2

/-! ## A bucket that is gone -/

/-- A bucket that is not there says so. -/
theorem readIndex_of_missing (hname : isBucketName bucket = true) :
    s.readIndex t bucket = .error (.noSuchBucket bucket) ↔
      t.exists? (indexPath (s.dirPath bucket)) = false := by
  rw [readIndex, bucketDir_of_name hname, ok_bind]
  cases hexists : t.exists? (indexPath (s.dirPath bucket)) with
  | false => exact iff_of_true rfl rfl
  | true =>
    refine iff_of_false (fun h => ?_) (by rintro ⟨⟩)
    cases htext : t.readText (indexPath (s.dirPath bucket)) with
    | error e =>
      rw [htext] at h
      cases h
    | ok text =>
      rw [htext] at h
      simp only [Except.mapError, ok_bind, Bool.not_true, Bool.false_eq_true, if_false] at h
      split at h <;> cases h

end ObjectStore

/-- Calls that go to a bucket. The URL of an object is made without a look at the bucket. -/
def StoreCall.GoesTo (bucket : String) : StoreCall → Prop
  | .put b _ _ | .get b _ | .listObjects b _ | .delete b _ | .listVersions b _
  | .deleteVersion b _ _ | .deleteBucket b => b = bucket
  | .url _ _ => False

namespace ObjectStore

variable {s : ObjectStore} {t : FileTree} {bucket : String}

/-- Every call to a bucket whose index cannot be read is answered so. -/
theorem answer_of_error {e : StoreError} (h : s.readIndex t bucket = .error e) {c : StoreCall}
    (hc : c.GoesTo bucket) : s.answer c t = (.error e, t) := by
  cases c with
  | url b key => exact hc.elim
  | put b key body =>
    obtain rfl : b = bucket := hc
    simp only [answer, put, performing, putEffects, h]
    rfl
  | get b key =>
    obtain rfl : b = bucket := hc
    simp only [answer, get, h]
    rfl
  | listObjects b token =>
    obtain rfl : b = bucket := hc
    simp only [answer, listObjects, h]
    rfl
  | delete b key =>
    obtain rfl : b = bucket := hc
    simp only [answer, delete, performing, deleteEffects, h]
    rfl
  | listVersions b cursor =>
    obtain rfl : b = bucket := hc
    simp only [answer, listVersions, h]
    rfl
  | deleteVersion b key id =>
    obtain rfl : b = bucket := hc
    simp only [answer, deleteVersion, performing, deleteVersionEffects, h]
    rfl
  | deleteBucket b =>
    obtain rfl : b = bucket := hc
    simp only [answer, deleteBucket, performing, deleteBucketEffects, h]
    rfl

end ObjectStore

namespace StackProvider

variable {p : StackProvider} {t t' : FileTree} {top : Location} {name bucket : String}
  {limit : Nat} {A : VersionedStore}

/-! ## What is read of stacks -/

theorem not_bucket_stackPlace {work : Location} (hroot : p.objects.root = p.root)
    (hn : Contained name) : ¬p.objects.bucketsPlace work <+: p.stackPlace work name := by
  rw [stackPlace_eq work hn, ← hroot, ObjectStore.bucketsPlace, List.prefix_append_right_inj,
    List.cons_prefix_cons]
  intro h
  exact absurd h.1 (by decide)

/-- The stacks of a project without a slash in its name lie among the stacks. -/
theorem contained_stackName {project : String} (h : '/' ∉ project.toList) (stage : Stage) :
    Contained (stage.stackName project) := by
  refine .of_isEntry (isEntry_document ?_)
  simp only [Stage.stackName, String.toList_append, List.mem_append]
  rintro ((hmem | hmem) | hmem)
  · exact h hmem
  · exact absurd hmem (by decide)
  · exact stage.slash_not_mem hmem

/-- The stacks of two stages have documents of their own. -/
theorem stackPlace_inj {work : Location} {project : String} {stage other : Stage}
    (h : p.stackPlace work (stage.stackName project) = p.stackPlace work (other.stackName project)) :
    stage = other := by
  obtain ⟨start, last, hparts⟩ := Path.parts_ofString_append project
  have hlast (s : Stage) : (p.stackPlace work (s.stackName project)).getLast? =
      some (last ++ ("-" ++ s.name ++ documentEnding)) := by
    have hslash : '/' ∉ ("-" ++ s.name ++ documentEnding).toList := by
      intro hmem
      simp only [String.toList_append, List.mem_append] at hmem
      rcases hmem with (hmem | hmem) | hmem
      · exact absurd hmem (by decide)
      · exact s.slash_not_mem hmem
      · exact absurd hmem (by decide)
    obtain ⟨start', hparts'⟩ := Path.parts_joinText p.stacksDir (hparts _ hslash)
    have hname : s.stackName project ++ documentEnding =
        project ++ ("-" ++ s.name ++ documentEnding) := by
      simp only [Stage.stackName, String.append_assoc]
    rw [stackPlace, stackPath, hname]
    refine Path.getLast?_place hparts' (isName_of_ending (c := 'n') ?_ (by decide)) work
    rw [← String.append_assoc, String.toList_append, List.getLast?_append,
      show documentEnding.toList.getLast? = some 'n' by decide]
    rfl
  have hnames : stage.name = other.name := by
    have heq := congrArg List.getLast? h
    rw [hlast, hlast] at heq
    simpa [String.append_right_inj, String.append_left_inj] using heq
  obtain ⟨name, valid⟩ := stage
  obtain rfl : name = other.name := hnames
  rfl

/-- What is loaded of a stack depends on what stands in the place of its document alone. -/
theorem load_congr (ht : t.Tidy top) (ht' : t'.Tidy top) (hp : Within t.workDir top p.root)
    (hn : Contained name) (hwork : t'.workDir = t.workDir)
    (hentry : t'.entry? (p.stackPlace t.workDir name) = t.entry? (p.stackPlace t.workDir name)) :
    p.load t' name = p.load t name := by
  have hexists := exists?_congr ht ht' (below_stack hp hn) hwork hentry
  cases he : t.exists? (p.stackPath name) with
  | false => simp [load, hexists, he]
  | true =>
    obtain ⟨e, hfind, hfind'⟩ := find_of_exists ht ht' (below_stack hp hn) hwork hentry he
    simp only [load, hexists, readText, FileTree.read, hfind, hfind']

section Beside

variable (ht : t.Tidy top) (ht' : t'.Tidy top) (hp : Within t.workDir top p.root)
  (hroot : p.objects.root = p.root) (h : SameBeside (p.objects.bucketPlace t.workDir bucket) t t')

include ht ht' hp hroot h

/-- What happens in the directory of a bucket makes no difference to a stack, -/
theorem load_beside (hn : Contained name) : p.load t' name = p.load t name := by
  refine load_congr ht ht' hp hn h.work (h.entry (ObjectStore.bucketPlace_ne_nil _) ?_)
  intro hin
  rw [ObjectStore.bucketPlace_eq] at hin
  exact not_bucket_stackPlace hroot hn ((List.prefix_append _ _).trans hin)

theorem status_beside (hn : Contained name) : p.status t' name = p.status t name := by
  rw [status, status, load_beside ht ht' hp hroot h hn]

theorem stackNames_beside : p.stackNames t' = p.stackNames t := by
  have hplace : p.stacksDir.place t.workDir = p.root.place t.workDir ++ ["stacks"] :=
    isEntry_stacks.place_joinText _ _
  have hbucket : p.objects.bucketPlace t.workDir bucket =
      p.root.place t.workDir ++ ["buckets", bucket] := by
    rw [ObjectStore.bucketPlace, hroot]
  have hout : ¬p.objects.bucketPlace t.workDir bucket <+: p.stacksDir.place t.workDir := by
    rw [hplace, hbucket, List.prefix_append_right_inj]
    simp
  have hon : ¬p.stacksDir.place t.workDir <+: p.objects.bucketPlace t.workDir bucket := by
    rw [hplace, hbucket, List.prefix_append_right_inj]
    simp
  have hbelow : Below t.workDir top p.stacksDir := hp.entry isEntry_stacks
  have hentry := h.entry (ObjectStore.bucketPlace_ne_nil _) hout
  have hexists := exists?_congr ht ht' hbelow h.work hentry
  cases he : t.exists? p.stacksDir with
  | false => simp [stackNames, hexists, he]
  | true =>
    obtain ⟨e, hfind, hfind'⟩ := find_of_exists ht ht' hbelow h.work hentry he
    have hlist : t'.list p.stacksDir = t.list p.stacksDir := by
      simp only [list, hfind, hfind', ok_bind]
      cases e with
      | dir => exact congrArg Except.ok (h.children hon hout)
      | file content => rfl
      | link target => rfl
    simp only [stackNames, hexists, hlist]

/-- nor to what all stacks export. -/
theorem listExports_beside
    (hnames : ∀ names, p.stackNames t = .ok names → ∀ name ∈ names, Contained name)
    (token : Option String) : p.listExports t' token = p.listExports t token := by
  have hload (names : List String) (hall : ∀ name ∈ names, Contained name) :
      p.loadAll t' names = p.loadAll t names := by
    induction names with
    | nil => rfl
    | cons name names ih =>
      rw [loadAll, loadAll, load_beside ht ht' hp hroot h (hall name List.mem_cons_self),
        ih fun n hn => hall n (List.mem_cons_of_mem _ hn)]
  have hexports : p.allExports t' = p.allExports t := by
    rw [allExports, allExports, stackNames_beside ht ht' hp hroot h]
    refine bind_congr_ok fun names hstacks => ?_
    rw [hload names (hnames names hstacks)]
  rw [listExports, listExports, hexports]

end Beside

/-! ## Deleting a stack -/

/-- Deleting buckets takes away what is in the directory of the buckets, and no object. -/
theorem deleteBuckets_spec (h : p.objects.Represents top limit A t) (hlimit : limit ≤ UInt64.size)
    (buckets : List String) {r : Except ProviderError Unit}
    (hrun : p.deleteBuckets buckets t = (r, t')) :
    (∃ A', p.objects.Represents top limit A' t' ∧ ∀ b, A'.object b = A.object b) ∧
      Pruned (p.objects.bucketsPlace t.workDir <+: ·) t t' := by
  induction buckets generalizing t A with
  | nil =>
    cases hrun
    exact ⟨⟨A, h, fun _ => rfl⟩, .refl ..⟩
  | cons bucket buckets ih =>
    rw [deleteBuckets] at hrun
    rcases bind_eq hrun with ⟨e, he, -⟩ | ⟨t₁, t₂, hget, hrun⟩
    · cases he
    cases hget
    by_cases hexists : p.objects.bucketExists t bucket = true
    · simp only [hexists, if_true] at hrun
      have hname : ObjectStore.isBucketName bucket = true := by
        unfold ObjectStore.bucketExists at hexists
        split at hexists
        · rename_i dir hdir
          exact (ObjectStore.bucketDir_eq_ok.1 hdir).1
        · cases hexists
      have hfirst {a : Except ProviderError Unit} {t₁ : FileTree}
          (hdelete : forStack (p.objects.deleteBucket bucket) t = (a, t₁)) :
          (∃ A', p.objects.Represents top limit A' t₁ ∧ ∀ b, A'.object b = A.object b) ∧
            Pruned (p.objects.bucketsPlace t.workDir <+: ·) t t₁ := by
        obtain ⟨a', hdelete, -⟩ := mapError_eq hdelete
        have hrepresents := (h.deleteBucket hlimit hname).2
        rw [hdelete] at hrepresents
        refine ⟨⟨_, hrepresents, VersionedStore.object_deleteBucket A bucket⟩, ?_⟩
        rcases ObjectStore.deleteBucket_eq h.tidy h.within hdelete with rfl | ⟨rfl, -⟩
        · refine (pruned_dropAll (ObjectStore.bucketPlace_ne_nil _)).mono fun l hl => ?_
          rw [ObjectStore.bucketPlace_eq] at hl
          exact (List.prefix_append _ _).trans hl
        · exact .refl ..
      rcases bind_eq hrun with ⟨e, hdelete, -⟩ | ⟨⟨⟩, t₁, hdelete, hrest⟩
      · exact hfirst hdelete
      · obtain ⟨⟨A₁, h₁, hobjects⟩, hpruned⟩ := hfirst hdelete
        obtain ⟨⟨A', h', hobjects'⟩, hmore⟩ := ih h₁ hrest
        rw [hpruned.work] at hmore
        exact ⟨⟨A', h', fun b => (hobjects' b).trans (hobjects b)⟩, hpruned.trans hmore⟩
    · simp only [hexists] at hrun
      exact ih h hrun

/-- A stack that was deleted is gone with its document, or is marked as one that could not be. -/
theorem delete_spec (h : p.objects.Represents top limit A t) (hlimit : limit ≤ UInt64.size)
    (hroot : p.objects.root = p.root) (hn : Contained name)
    (hrun : p.delete name t = (.ok (), t')) :
    (t'.Tidy top ∧ p.load t' name = .ok none ∧
      Pruned (fun l => p.objects.bucketsPlace t.workDir <+: l ∨ l = p.stackPlace t.workDir name)
        t t') ∨
    ∃ doc : StackDoc, doc.status = StackStatus.deleteFailed.text ∧ doc.buckets.Ordered ∧
      p.save name doc t = (.ok (), t') := by
  rw [delete] at hrun
  rcases reading_bind_eq hrun with ⟨-, e, he⟩ | ⟨found, hload, hrun⟩
  · cases he
  cases found with
  | none =>
    cases hrun
    exact .inl ⟨h.tidy, hload, .refl ..⟩
  | some doc =>
    rcases reading_bind_eq hrun with ⟨-, e, he⟩ | ⟨filled, -, hrun⟩
    · cases he
    cases filled with
    | true =>
      have hordered : doc.buckets.Ordered := by
        obtain ⟨-, content, text, -, -, hdoc⟩ :=
          (load_eq_some h.tidy (hroot ▸ h.within) hn).1 hload
        exact (StackDoc.canonical_of_parse? hdoc).2
      exact .inr ⟨{ doc with status := StackStatus.deleteFailed.text }, rfl, hordered, hrun⟩
    | false =>
      rcases bind_eq hrun with ⟨e, -, he⟩ | ⟨⟨⟩, t₁, hbuckets, hrun⟩
      · cases he
      obtain ⟨⟨A', h', -⟩, hpruned⟩ := deleteBuckets_spec h hlimit _ hbuckets
      obtain ⟨r', hremove, hok⟩ := mapError_eq hrun
      obtain rfl := hok () rfl
      have hp' : Within t₁.workDir top p.root := hroot ▸ h'.within
      have hbelow := below_stack hp' hn
      obtain ⟨htidy, hpruned', hnone⟩ := Effect.remove_spec h'.tidy hbelow hremove
      refine .inl ⟨htidy, ?_, (hpruned.mono fun _ => .inl).trans (hpruned'.mono ?_)⟩
      · refine load_of_absent htidy (hpruned'.work ▸ hp') hn ?_
        rw [hpruned'.work]
        exact hnone rfl
      · rintro l rfl
        exact .inr (by rw [stackPlace, hpruned.work])

/-- A stack whose status is no failure after it was deleted is gone. -/
theorem gone_of_delete (h : p.objects.Represents top limit A t) (hlimit : limit ≤ UInt64.size)
    (hroot : p.objects.root = p.root) (hn : Contained name)
    (hrun : p.delete name t = (.ok (), t')) {st : StackStatus} (hst : p.status t' name = .ok st)
    (hfailure : st.isFailure = false) :
    t'.Tidy top ∧ p.load t' name = .ok none ∧
      Pruned (fun l => p.objects.bucketsPlace t.workDir <+: l ∨ l = p.stackPlace t.workDir name)
        t t' := by
  rcases delete_spec h hlimit hroot hn hrun with hgone | ⟨doc, hmarked, hordered, hsave⟩
  · exact hgone
  -- what was saved is read back as a failure
  have hp : Within t.workDir top p.root := hroot ▸ h.within
  have hbelow := below_stack hp hn
  obtain ⟨r', hreplace, hok⟩ := mapError_eq hsave
  obtain ⟨htidy, htouched, hdone, -⟩ := Effect.replace_spec h.tidy hbelow hreplace
  obtain ⟨husable, hentry⟩ := hdone (hok () rfl)
  have hstored : p.Stored t' name doc := by
    refine ⟨husable, ?_⟩
    rw [htouched.work]
    exact hentry
  unfold status at hst
  cases hload' : p.load t' name with
  | error e =>
    rw [hload'] at hst
    cases hst
  | ok found =>
    obtain ⟨doc', rfl, hdoc'⟩ := load_of_stored htidy (htouched.work.symm ▸ hp) hn hstored hload'
    obtain ⟨hsame, -⟩ := StackDoc.status_of_parse?_toJson hordered hdoc'
    rw [hload'] at hst
    have hread : StackStatus.ofText doc'.status = st := Except.ok.inj hst
    rw [hsame, hmarked] at hread
    subst hread
    exact absurd hfailure (by decide)

end StackProvider

end Rollout
