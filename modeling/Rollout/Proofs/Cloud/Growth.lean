import Rollout.Proofs.Cloud.StackCalls

/-!
Stores that grow. Making buckets and keeping their versions takes nothing from a store: a bucket
that was there stays with every version that is in it, and one that was not there is empty.
-/

namespace Rollout

open FileTree Outcome

namespace ObjectStore

variable {s : ObjectStore} {top : Location} {t t' t'' : FileTree} {bucket key : String}
  {B B' V V' : String → Prop} {dir : Path} {i : BucketIndex}

/-! ## What a look depends on -/

/-- Whether a bucket is there depends on what stands in its place alone, -/
theorem bucketExists_congr (ht : t.Tidy top) (ht' : t'.Tidy top) (hs : Within t.workDir top s.root)
    (hwork : t'.workDir = t.workDir)
    (hentry : t'.entry? (s.bucketPlace t.workDir bucket) =
      t.entry? (s.bucketPlace t.workDir bucket)) :
    s.bucketExists t' bucket = s.bucketExists t bucket := by
  unfold bucketExists
  cases hdir : s.bucketDir bucket with
  | error e => rfl
  | ok dir =>
    obtain ⟨hbelow, hplace⟩ := within_bucket hs hdir
    exact exists?_congr ht ht' hbelow hwork (by rw [hplace, hentry])

/-- and its index on what stands in the place of that. -/
theorem readIndex_congr (ht : t.Tidy top) (ht' : t'.Tidy top) (hs : Within t.workDir top s.root)
    (hwork : t'.workDir = t.workDir)
    (hentry : t'.entry? (s.indexPlace t.workDir bucket) =
      t.entry? (s.indexPlace t.workDir bucket)) :
    s.readIndex t' bucket = s.readIndex t bucket := by
  refine bind_congr_ok fun dir hdir => ?_
  obtain ⟨hbelow, hplace⟩ := below_index hs hdir
  have hentry' : t'.entry? ((indexPath dir).place t.workDir) =
      t.entry? ((indexPath dir).place t.workDir) := by rw [hplace, hentry]
  have hexists := exists?_congr ht ht' hbelow hwork hentry'
  cases he : t.exists? (indexPath dir) with
  | false => simp [hexists, he]; rfl
  | true =>
    obtain ⟨e, hfind, hfind'⟩ := find_of_exists ht ht' hbelow hwork hentry' he
    have hread : t'.readText (indexPath dir) = t.readText (indexPath dir) := by
      simp only [readText, FileTree.read, hfind, hfind']
    rw [hexists, he, hread]

/-- A bucket is there if its directory is. -/
theorem bucketExists_eq_true (ht : t.Tidy top) (hs : Within t.workDir top s.root)
    (hdir : s.bucketDir bucket = .ok dir) : s.bucketExists t bucket = true ↔
      Usable dir ∧ ∃ e, t.entry? (s.bucketPlace t.workDir bucket) = some e := by
  obtain ⟨hbelow, hplace⟩ := within_bucket hs hdir
  rw [bucketExists, hdir]
  dsimp only
  rw [exists?_eq_true ht.wf ht.free hbelow.near hbelow.file, hplace]

/-- A bucket with an index is there. -/
theorem exists_of_opened (ht : t.Tidy top) (hs : Within t.workDir top s.root)
    (hdir : s.bucketDir bucket = .ok dir) (hu : Usable (indexPath dir)) (ho : s.Opened t bucket) :
    s.bucketExists t bucket = true := by
  obtain ⟨content, hentry⟩ := ho
  obtain ⟨hname, hpath⟩ := bucketDir_eq_ok.1 hdir
  obtain ⟨start, hstart⟩ :=
    (isEntry_of_isBucketName hname).parts_joinText (s.root.joinText "buckets")
  rw [← hpath] at hstart
  refine (bucketExists_eq_true ht hs hdir).2
    ⟨hu.of_joinText hstart (isEntry_of_isBucketName hname).isName isEntry_index, .dir, ?_⟩
  have habove := ht.wf.above _ _ hentry
  rwa [indexPlace, List.dropLast_concat] at habove

/-- A bucket whose index is read is there. -/
theorem exists_of_readIndex (ht : t.Tidy top) (hs : Within t.workDir top s.root)
    (hread : s.readIndex t bucket = .ok (dir, i)) : s.bucketExists t bucket = true := by
  obtain ⟨hdir, hu, content, -, hentry, -⟩ := (readIndex_eq_ok ht hs).1 hread
  exact exists_of_opened ht hs hdir hu ⟨content, hentry⟩

/-! ## Growing -/

/-- What comes of a store in which buckets of `B` may be made, and the versions of buckets of `V`
kept from now on. -/
structure Grown (s : ObjectStore) (B V : String → Prop) (t t' : FileTree) : Prop where
  work : t'.workDir = t.workDir
  stays : ∀ b, s.bucketExists t b = true → s.bucketExists t' b = true
  fresh : ∀ b, s.bucketExists t' b = true → s.bucketExists t b = true ∨ B b
  index : ∀ b, s.bucketExists t b = true → s.readIndex t' b = s.readIndex t b ∨
    V b ∧ s.readIndex t' b =
      (s.readIndex t b).map fun found => (found.1, { found.2 with versioned := true })
  files : ∀ b, s.bucketExists t b = true → ∀ l, s.bucketPlace t.workDir b <+: l →
    l ≠ s.indexPlace t.workDir b → t'.entry? l = t.entry? l
  empty : ∀ b dir i, s.bucketExists t b = false → s.readIndex t' b = .ok (dir, i) → i.objects = []

namespace Grown

theorem refl (ht : t.Tidy top) (hs : Within t.workDir top s.root) (B V : String → Prop) :
    s.Grown B V t t where
  work := rfl
  stays _ := id
  fresh _ := .inl
  index _ _ := .inl rfl
  files _ _ _ _ _ := rfl
  empty b dir i hno hread := by
    rw [exists_of_readIndex ht hs hread] at hno
    cases hno

theorem mono (h : s.Grown B V t t') (hB : ∀ b, B b → B' b) (hV : ∀ b, V b → V' b) :
    s.Grown B' V' t t' :=
  { h with
    fresh := fun b hb => (h.fresh b hb).imp_right (hB b)
    index := fun b hb => (h.index b hb).imp_right (And.imp_left (hV b)) }

theorem trans (h : s.Grown B V t t') (h' : s.Grown B V t' t'') : s.Grown B V t t'' where
  work := h'.work.trans h.work
  stays b hb := h'.stays b (h.stays b hb)
  fresh b hb := (h'.fresh b hb).elim (h.fresh b) .inr
  index b hb := by
    rcases h'.index b (h.stays b hb) with hsame' | ⟨hV, hkept'⟩
    · rw [hsame']
      exact h.index b hb
    · refine .inr ⟨hV, ?_⟩
      rcases h.index b hb with hsame | ⟨-, hkept⟩
      · rw [hkept', hsame]
      · rw [hkept', hkept]
        cases s.readIndex t b <;> rfl
  files b hb l hl hne := by
    rw [h'.files b (h.stays b hb) l (h.work.symm ▸ hl) (h.work.symm ▸ hne), h.files b hb l hl hne]
  empty b dir i hno hread := by
    by_cases hb : s.bucketExists t' b = true
    · rcases h'.index b hb with hsame | ⟨-, hkept⟩
      · exact h.empty b dir i hno (hsame ▸ hread)
      · rw [hkept] at hread
        cases hread' : s.readIndex t' b with
        | error e =>
          rw [hread'] at hread
          cases hread
        | ok found =>
          rw [hread'] at hread
          cases hread
          exact h.empty b _ found.2 hno hread'
    · exact h'.empty b dir i (by simpa using hb) hread

/-- The objects of a bucket that was there keep their content. -/
theorem content (h : s.Grown B V t t') (hsteady : s.Steady top t) (hsteady' : s.Steady top t')
    (hb : s.bucketExists t bucket = true) :
    s.content t' bucket key = s.content t bucket key := by
  have hblob (dir : Path) (i : BucketIndex) (v : StoredVersion) :
      t'.entry? (s.blobPlace t.workDir bucket v.id) = t.entry? (s.blobPlace t.workDir bucket v.id) :=
    h.files bucket hb _ (bucketPlace_prefix_blob _ _) (Ne.symm indexPlace_ne_blobPlace)
  refine Option.ext fun body => ?_
  rw [content_eq_some_of_sound hsteady'.tidy hsteady'.within hsteady'.sound,
    content_eq_some_of_sound hsteady.tidy hsteady.within hsteady.sound, h.work]
  constructor
  · rintro ⟨dir, i, v, hread, hv, hu, hbody⟩
    rw [hblob dir i v] at hbody
    rcases h.index bucket hb with hsame | ⟨-, hkept⟩
    · exact ⟨dir, i, v, hsame ▸ hread, hv, hu, hbody⟩
    · rw [hkept] at hread
      cases hread' : s.readIndex t bucket with
      | error e =>
        rw [hread'] at hread
        cases hread
      | ok found =>
        rw [hread'] at hread
        cases hread
        exact ⟨found.1, found.2, v, rfl, hv, hu, hbody⟩
  · rintro ⟨dir, i, v, hread, hv, hu, hbody⟩
    rw [← hblob dir i v] at hbody
    rcases h.index bucket hb with hsame | ⟨-, hkept⟩
    · exact ⟨dir, i, v, hsame ▸ hread, hv, hu, hbody⟩
    · rw [hread] at hkept
      exact ⟨dir, { i with versioned := true }, v, hkept, hv, hu, hbody⟩

end Grown

/-- Where all that is in buckets is the same, nothing came of the store. -/
theorem Steady.grown_of_same (h : s.Steady top t) (ht' : t'.Tidy top)
    (hwork : t'.workDir = t.workDir)
    (hsame : ∀ b l, s.bucketPlace t.workDir b <+: l → t'.entry? l = t.entry? l)
    (B V : String → Prop) : s.Grown B V t t' := by
  have hexists (b : String) : s.bucketExists t' b = s.bucketExists t b :=
    bucketExists_congr h.tidy ht' h.within hwork (hsame b _ List.prefix_rfl)
  have hindex (b : String) : s.readIndex t' b = s.readIndex t b :=
    readIndex_congr h.tidy ht' h.within hwork (hsame b _ (bucketPlace_prefix_index _))
  refine ⟨hwork, fun b hb => hexists b ▸ hb, fun b hb => .inl (hexists b ▸ hb),
    fun b _ => .inl (hindex b), fun b _ l hl _ => hsame b l hl, fun b dir i hno hread => ?_⟩
  rw [hindex] at hread
  rw [exists_of_readIndex h.tidy h.within hread] at hno
  cases hno

/-- What is done to one bucket is known once it is known of that bucket. -/
theorem Steady.grown_of_around (h : s.Steady top t) (ht' : t'.Tidy top)
    (haround : Around (· = s.bucketPlace t.workDir bucket) t t')
    (hstays : s.bucketExists t bucket = true → s.bucketExists t' bucket = true ∧
      (s.readIndex t' bucket = s.readIndex t bucket ∨ V bucket ∧ s.readIndex t' bucket =
        (s.readIndex t bucket).map fun found => (found.1, { found.2 with versioned := true })) ∧
      ∀ l, s.bucketPlace t.workDir bucket <+: l → l ≠ s.indexPlace t.workDir bucket →
        t'.entry? l = t.entry? l)
    (hfresh : s.bucketExists t bucket = false → B bucket ∧
      ∀ dir i, s.readIndex t' bucket = .ok (dir, i) → i.objects = []) :
    s.Grown B V t t' := by
  have hother {b : String} (hb : b ≠ bucket) {l : Location}
      (hl : s.bucketPlace t.workDir b <+: l) : t'.entry? l = t.entry? l := by
    refine haround.entry l fun spot hspot => ?_
    rw [bucketPlace_eq] at hl
    exact beside_of_ne (Ne.symm hb) (by rw [hspot, bucketPlace_eq]) hl
  have hexists {b : String} (hb : b ≠ bucket) : s.bucketExists t' b = s.bucketExists t b :=
    bucketExists_congr h.tidy ht' h.within haround.work (hother hb List.prefix_rfl)
  have hindex {b : String} (hb : b ≠ bucket) : s.readIndex t' b = s.readIndex t b :=
    readIndex_congr h.tidy ht' h.within haround.work (hother hb (bucketPlace_prefix_index _))
  refine ⟨haround.work, fun b => ?_, fun b hb' => ?_, fun b hb => ?_, fun b hb l hl hne => ?_,
    fun b dir i hno hread => ?_⟩
  all_goals by_cases heq : b = bucket
  · exact heq ▸ fun hb => (hstays hb).1
  · exact fun hb => hexists heq ▸ hb
  · subst heq
    by_cases hb : s.bucketExists t b = true
    · exact .inl hb
    · exact .inr (hfresh (by simpa using hb)).1
  · exact .inl (hexists heq ▸ hb')
  · exact heq ▸ (hstays (heq ▸ hb)).2.1
  · exact .inl (hindex heq)
  · subst heq
    exact (hstays hb).2.2 l hl hne
  · exact hother heq hl
  · subst heq
    exact (hfresh hno).2 dir i hread
  · rw [hindex heq] at hread
    rw [exists_of_readIndex h.tidy h.within hread] at hno
    cases hno

/-- Creating a bucket that is there does nothing, and one that was not there is empty. -/
theorem Steady.createBucket_grown (h : s.Steady top t) {r : Except StoreError Unit}
    (hrun : s.createBucket bucket t = (r, t')) : s.Grown (· = bucket) (fun _ => False) t t' := by
  have hstays : s.Grown (· = bucket) (fun _ => False) t t := .refl h.tidy h.within ..
  have haround := h.createBucket_around bucket
  have hsteady := (createBucket_spec h hrun).steady
  rw [hrun] at haround
  rcases performing_eq hrun with ⟨rfl, -⟩ | ⟨es, r', hes, hall, -⟩
  · exact hstays
  simp only [createEffects, bind_eq_ok] at hes
  obtain ⟨dir, hdir, hes⟩ := hes
  split at hes
  · cases hes
    obtain ⟨rfl, -⟩ := performAll_nil hall
    exact hstays
  rename_i hexists
  cases hes
  have hno : s.bucketExists t bucket = false := by
    rw [bucketExists, hdir]
    simpa using hexists
  refine h.grown_of_around hsteady.tidy haround (fun hb => ?_)
    fun _ => ⟨rfl, fun dir' i hread => ?_⟩
  · rw [hno] at hb
    cases hb
  obtain ⟨hdir', hu, content, text, hentry, -⟩ :=
    (readIndex_eq_ok hsteady.tidy hsteady.within).1 hread
  rw [hdir] at hdir'
  cases hdir'
  -- an index that was not written now would have been there before
  have hwritten : ¬Touched top (fun _ => False) t t' := by
    intro htouched
    rw [haround.work, htouched.file_iff (fun hl => hl)] at hentry
    rw [exists_of_opened h.tidy h.within hdir hu ⟨content, hentry⟩] at hno
    cases hno
  obtain ⟨hindexBelow, hplace⟩ := below_index h.within hdir
  have hblobs := ((within_bucket h.within hdir).1.toWithin.entry isEntry_blobs).near
  rcases performAll_cons hall with ⟨hdirs, -⟩ | ⟨t₁, hdirs, hall⟩
  · exact absurd (Effect.makeDirs_spec h.tidy hblobs hdirs).2 hwritten
  obtain ⟨ht₁, htouched₁⟩ := Effect.makeDirs_spec h.tidy hblobs hdirs
  have hindex' : Below t₁.workDir top (indexPath dir) := htouched₁.work.symm ▸ hindexBelow
  rcases performAll_cons hall with ⟨hindex, hfail⟩ | ⟨t₂, hindex, hall⟩
  · exact absurd (htouched₁.trans ((Effect.replace_spec ht₁ hindex' hindex).2.2.2 hfail)) hwritten
  obtain ⟨rfl, -⟩ := performAll_nil hall
  obtain ⟨-, hentry'⟩ := (Effect.replace_spec ht₁ hindex' hindex).2.2.1 rfl
  rw [htouched₁.work, hplace] at hentry'
  obtain ⟨-, rfl, -⟩ := (readIndex_of_indexBytes hsteady.tidy hsteady.within hdir hu
    BucketIndex.Sound.empty.ordered (by rw [haround.work, hentry'])).1 hread
  rfl

/-- Keeping the versions of a bucket changes no more about it. -/
theorem Steady.enableVersioning_grown (h : s.Steady top t) {r : Except StoreError Unit}
    (hrun : s.enableVersioning bucket t = (r, t')) :
    s.Grown (fun _ => False) (· = bucket) t t' := by
  have haround := h.enableVersioning_around bucket
  have hsteady := (enableVersioning_spec h hrun).steady
  rw [hrun] at haround
  rcases performing_eq hrun with ⟨rfl, -⟩ | ⟨es, r', hes, hall, -⟩
  · exact .refl h.tidy h.within ..
  simp only [versioningEffects, bind_eq_ok] at hes
  obtain ⟨⟨dir, i⟩, hread, hes⟩ := hes
  cases hes
  obtain ⟨hdir, hu, content, text, hentry, -, hi⟩ := (readIndex_eq_ok h.tidy h.within).1 hread
  obtain ⟨hbelow, hplace⟩ := below_index h.within hdir
  have hexists := exists_of_readIndex h.tidy h.within hread
  obtain ⟨r', hwrite⟩ : ∃ r', (writeIndex dir { i with versioned := true }).perform t = (r', t') := by
    rcases performAll_cons hall with ⟨hwrite, -⟩ | ⟨t₁, hwrite, hall⟩
    · exact ⟨_, hwrite⟩
    · obtain ⟨rfl, -⟩ := performAll_nil hall
      exact ⟨_, hwrite⟩
  obtain ⟨ht', htouched, hdone, hrest⟩ := Effect.replace_spec h.tidy hbelow hwrite
  have hconfined := (Effect.replace_confined h.tidy hbelow hwrite).1
  rw [hplace] at htouched hconfined
  have hfiles (l : Location) (hl : s.bucketPlace t.workDir bucket <+: l)
      (hne : l ≠ s.indexPlace t.workDir bucket) : t'.entry? l = t.entry? l := by
    by_cases hway : l <+: s.indexPlace t.workDir bucket
    · -- the directory of the bucket is the only location on the way there
      have heq : l = s.bucketPlace t.workDir bucket := by
        rw [indexPlace, List.prefix_concat_iff] at hway
        exact (hl.eq_of_length_le (hway.resolve_left hne).length_le).symm
      rcases htouched.same l hne with hsame | ⟨hnone, -⟩
      · exact hsame
      · obtain ⟨-, e, he⟩ := (bucketExists_eq_true h.tidy h.within hdir).1 hexists
        rw [heq, he] at hnone
        cases hnone
    · exact hconfined.entry l hway
  have hnoIndex : s.bucketPlace t.workDir bucket ≠ s.indexPlace t.workDir bucket := by
    simp [indexPlace]
  refine h.grown_of_around hsteady.tidy haround (fun _ => ⟨?_, ?_, hfiles⟩) fun hno => ?_
  · rwa [bucketExists_congr h.tidy ht' h.within haround.work (hfiles _ List.prefix_rfl hnoIndex)]
  · by_cases hr : r' = .ok ()
    · obtain ⟨-, hentry'⟩ := hdone hr
      rw [hplace] at hentry'
      refine .inr ⟨rfl, ?_⟩
      rw [hread]
      exact (readIndex_of_indexBytes hsteady.tidy hsteady.within hdir hu
        (h.sound bucket dir i hread).versioning.ordered (by rw [haround.work, hentry'])).2
        ⟨rfl, rfl, (BucketIndex.bounded_of_parse? hi).2⟩
    · refine .inl (readIndex_congr h.tidy ht' h.within haround.work ?_)
      rcases (hrest hr).same (s.indexPlace t.workDir bucket) (fun hl => hl) with hsame | ⟨hnone, -⟩
      · exact hsame
      · rw [hentry] at hnone
        cases hnone
  · rw [hexists] at hno
    cases hno

end ObjectStore

namespace StackProvider

variable {p : StackProvider} {t t' : FileTree} {top : Location}

/-- What provisioning comes to: declared buckets are there, all others are as they were. -/
theorem provision_grown (specs : List BucketSpec) (h : p.objects.Steady top t)
    {r : Except ProviderError (List (String × String))} (hrun : p.provision specs t = (r, t')) :
    p.objects.Grown (fun b => ∃ spec ∈ specs, spec.physical = b)
      (fun b => ∃ spec ∈ specs, spec.physical = b ∧ spec.versioned = true) t t' := by
  have hmade := provision_induction (R := fun t₁ t₂ => p.objects.Steady top t₁ →
      p.objects.Steady top t₂ ∧ p.objects.Grown (fun b => ∃ spec ∈ specs, spec.physical = b)
        (fun b => ∃ spec ∈ specs, spec.physical = b ∧ spec.versioned = true) t₁ t₂)
    (fun t₁ h₁ => ⟨h₁, .refl h₁.tidy h₁.within ..⟩)
    (fun t₁ t₂ t₃ hfirst hsecond h₁ => by
      obtain ⟨h₂, hgrown⟩ := hfirst h₁
      obtain ⟨h₃, hgrown'⟩ := hsecond h₂
      exact ⟨h₃, hgrown.trans hgrown'⟩) specs ?_ ?_ h hrun
  · exact (hmade h).2
  · intro spec hspec t₁ r t₂ h₁ hcreate _
    refine ⟨(ObjectStore.createBucket_spec h₁ hcreate).steady,
      (h₁.createBucket_grown hcreate).mono ?_ fun _ => False.elim⟩
    rintro b rfl
    exact ⟨spec, hspec, rfl⟩
  · intro spec hspec hversioned t₁ r t₂ h₁ hversions _
    refine ⟨(ObjectStore.enableVersioning_spec h₁ hversions).steady,
      (h₁.enableVersioning_grown hversions).mono (fun _ => False.elim) ?_⟩
    rintro b rfl
    exact ⟨spec, hspec, rfl, hversioned⟩

end StackProvider

end Rollout
