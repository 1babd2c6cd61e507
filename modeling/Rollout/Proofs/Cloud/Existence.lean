import Rollout.Proofs.Cloud.AllOrNothing

/-!
Whether a bucket exists. One operation asks for the directory of the bucket and all others for its
index; they agree unless the directory stands without the index. Creating makes the directory
first, and deleting takes away one entry after the other, so that this is what either of them can
leave when it is cut off, or when it fails; from then on creating the bucket does nothing, and a
stack that records it cannot be deleted. Wherever nothing was cut off all operations agree.
-/

namespace Rollout

open FileTree Outcome

/-- Making directories makes those on the way, however far it comes. -/
theorem Effect.makeDirs_paved {t t' : FileTree} {top : Location} {p : Path}
    {r : Except FileError Unit} (ht : t.Tidy top) (hp : Near t.workDir top p)
    (h : (Effect.makeDirs p).perform t = (r, t')) : Paved (p.place t.workDir) t t' := by
  have h' : t.makeDirs p = (t', r) := Prod.ext (congrArg Prod.snd h) (congrArg Prod.fst h)
  exact makeDirsFrom_paved _ ht hp h'

namespace ObjectStore

variable {s : ObjectStore} {top : Location} {t t' t₀ : FileTree} {bucket b : String}
  {cut : List String}

/-! ## Asking for the directory and asking for the index -/

/-- A bucket by half: its directory is there, but not its index. -/
def Halfway (s : ObjectStore) (t : FileTree) (bucket : String) : Prop :=
  s.bucketExists t bucket = true ∧ t.exists? (indexPath (s.dirPath bucket)) = false

/-- The operations agree on whether a bucket exists, and once it has been created it does. -/
structure Agrees (s : ObjectStore) (t : FileTree) (bucket : String) : Prop where
  get (key : String) :
    s.bucketExists t bucket = true ↔ s.get t bucket key ≠ .error (.noSuchBucket bucket)
  listObjects (token : Option String) :
    s.bucketExists t bucket = true ↔ s.listObjects t bucket token ≠ .error (.noSuchBucket bucket)
  listVersions (cursor : Option VersionCursor) :
    s.bucketExists t bucket = true ↔ s.listVersions t bucket cursor ≠ .error (.noSuchBucket bucket)
  isEmpty : s.bucketExists t bucket = true ↔ s.isEmpty t bucket ≠ .error (.noSuchBucket bucket)
  put (t' : FileTree) (key : String) (body : ByteArray) : s.createBucket bucket t = (.ok (), t') →
    (s.put bucket key body t').1 ≠ .error (.noSuchBucket bucket)

/-- Whatever is asked of an index, only that it is missing is answered so. -/
theorem bind_readIndex_of_missing {α : Type} {g : Path × BucketIndex → Except StoreError α}
    (hname : isBucketName bucket = true) (hg : ∀ found, g found ≠ .error (.noSuchBucket bucket)) :
    (s.readIndex t bucket >>= g) = .error (.noSuchBucket bucket) ↔
      t.exists? (indexPath (s.dirPath bucket)) = false := by
  rw [← readIndex_of_missing hname]
  cases s.readIndex t bucket with
  | error e => rw [error_bind, Except.error.injEq, Except.error.injEq]
  | ok found => exact iff_of_false (hg found) nofun

theorem get_of_missing (hname : isBucketName bucket = true) (key : String) :
    s.get t bucket key = .error (.noSuchBucket bucket) ↔
      t.exists? (indexPath (s.dirPath bucket)) = false := by
  refine bind_readIndex_of_missing hname fun ⟨dir, i⟩ => ?_
  dsimp only
  cases i.current key with
  | none => nofun
  | some v =>
    dsimp only
    cases t.read (blobPath dir v.id) <;> nofun

theorem put_of_missing (hname : isBucketName bucket = true) (key : String) (body : ByteArray) :
    (s.put bucket key body t).1 = .error (.noSuchBucket bucket) ↔
      t.exists? (indexPath (s.dirPath bucket)) = false := by
  rw [← readIndex_of_missing hname]
  cases hread : s.readIndex t bucket with
  | error e =>
    rw [ObjectStore.put, performing_of_error (e := e) _ (by rw [putEffects, hread]; rfl)]
    show Except.error e = _ ↔ _
    rw [Except.error.injEq, Except.error.injEq]
  | ok found =>
    refine iff_of_false ?_ (by rintro ⟨⟩)
    have heffects : ∃ es, s.putEffects t bucket key body = .ok es := by
      rw [putEffects, hread]
      exact ⟨_, rfl⟩
    obtain ⟨es, hes⟩ := heffects
    simp only [ObjectStore.put, performing, hes, Disk.mapError]
    rcases Effect.performAll es t with ⟨_ | _, _⟩
    · rintro ⟨⟩
    · rintro ⟨⟩

/-- A bucket whose index stands is there. -/
theorem exists_of_index (ht : t.Tidy top) (hs : Within t.workDir top s.root)
    (hname : isBucketName bucket = true)
    (hindex : t.exists? (indexPath (s.dirPath bucket)) = true) :
    s.bucketExists t bucket = true := by
  have hdir := bucketDir_of_name (s := s) hname
  obtain ⟨hbelow, hplace⟩ := below_index hs hdir
  obtain ⟨hu, e, he⟩ := (exists?_eq_true ht.wf ht.free hbelow.near hbelow.file).1 hindex
  obtain ⟨start, hstart⟩ := exists_parts_dirPath (s := s) hname
  refine (bucketExists_eq_true ht hs hdir).2
    ⟨hu.of_joinText hstart (isEntry_of_isBucketName hname).isName isEntry_index, .dir, ?_⟩
  have habove := ht.wf.above _ _ he
  rwa [hplace, indexPlace, List.dropLast_concat] at habove

/-- Where nothing is, there is no bucket by half. -/
theorem not_halfway_of_not_exists (hno : s.bucketExists t bucket = false) :
    ¬s.Halfway t bucket := by
  rintro ⟨hexists, -⟩
  rw [hno] at hexists
  cases hexists

/-- What creating a bucket does: nothing where it is there, otherwise two effects. -/
theorem createEffects_of_name (hname : isBucketName bucket = true) :
    s.createEffects t bucket = .ok (if s.bucketExists t bucket then [] else
      [.makeDirs ((s.dirPath bucket).joinText "blobs"),
        writeIndex (s.dirPath bucket) .empty]) := by
  rw [createEffects, bucketExists, bucketDir_of_name hname, ok_bind]
  dsimp only
  split <;> rfl

/-- A bucket that was created has its index, unless it was there by half before. -/
theorem index_of_created (ht : t.Tidy top) (hs : Within t.workDir top s.root)
    (hname : isBucketName bucket = true) (hrun : s.createBucket bucket t = (.ok (), t')) :
    t'.exists? (indexPath (s.dirPath bucket)) = false ↔ s.Halfway t bucket := by
  have hdir := bucketDir_of_name (s := s) hname
  rcases performing_eq hrun with ⟨-, hne⟩ | ⟨es, r, hes, hall, hok⟩
  · exact absurd rfl hne
  obtain rfl := hok rfl
  rw [createEffects_of_name hname] at hes
  cases hexists : s.bucketExists t bucket with
  | true =>
    rw [hexists] at hes
    cases hes
    obtain ⟨rfl, -⟩ := performAll_nil hall
    exact ⟨fun hno => ⟨hexists, hno⟩, fun h => h.2⟩
  | false =>
    refine iff_of_false ?_ (not_halfway_of_not_exists hexists)
    rw [hexists] at hes
    cases hes
    obtain ⟨hdirBelow, -⟩ := within_bucket hs hdir
    obtain ⟨hbelow, -⟩ := below_index hs hdir
    rcases performAll_cons hall with ⟨-, hne⟩ | ⟨t₁, hdirs, hall⟩
    · exact absurd rfl hne
    obtain ⟨ht₁, htouched⟩ :=
      Effect.makeDirs_spec ht (hdirBelow.toWithin.entry isEntry_blobs).near hdirs
    rcases performAll_cons hall with ⟨-, hne⟩ | ⟨t₂, hindex, hall⟩
    · exact absurd rfl hne
    obtain ⟨rfl, -⟩ := performAll_nil hall
    have hbelow₁ := hbelow.of_work htouched.work
    obtain ⟨ht₂, htouched₂, hdone, -⟩ := Effect.replace_spec ht₁ hbelow₁ hindex
    obtain ⟨hu, hentry⟩ := hdone rfl
    have hbelow₂ := hbelow₁.of_work htouched₂.work
    rw [Bool.not_eq_false, exists?_eq_true ht₂.wf ht₂.free hbelow₂.near hbelow₂.file,
      htouched₂.work]
    exact ⟨hu, _, hentry⟩

/-- The operations agree on a bucket unless it is there by half. -/
theorem agrees_iff (ht : t.Tidy top) (hs : Within t.workDir top s.root)
    (hname : isBucketName bucket = true) : s.Agrees t bucket ↔ ¬s.Halfway t bucket := by
  have hmissing := readIndex_of_missing (s := s) (t := t) hname
  have hlist (token : Option String) :
      s.listObjects t bucket token = .error (.noSuchBucket bucket) ↔
        t.exists? (indexPath (s.dirPath bucket)) = false :=
    bind_readIndex_of_missing hname fun _ => nofun
  have hversions (cursor : Option VersionCursor) :
      s.listVersions t bucket cursor = .error (.noSuchBucket bucket) ↔
        t.exists? (indexPath (s.dirPath bucket)) = false :=
    bind_readIndex_of_missing hname fun _ => nofun
  have hempty : s.isEmpty t bucket = .error (.noSuchBucket bucket) ↔
      t.exists? (indexPath (s.dirPath bucket)) = false :=
    bind_readIndex_of_missing hname fun _ => nofun
  constructor
  · rintro h ⟨hexists, hno⟩
    exact h.isEmpty.1 hexists (hempty.2 hno)
  · intro hhalf
    have hsame : s.bucketExists t bucket = true ↔
        ¬t.exists? (indexPath (s.dirPath bucket)) = false :=
      ⟨fun hexists hno => hhalf ⟨hexists, hno⟩,
        fun hindex => exists_of_index ht hs hname (by simpa using hindex)⟩
    refine ⟨fun key => hsame.trans (not_congr (get_of_missing hname key)).symm,
      fun token => hsame.trans (not_congr (hlist token)).symm,
      fun cursor => hsame.trans (not_congr (hversions cursor)).symm,
      hsame.trans (not_congr hempty).symm, fun t' key body hrun hput => hhalf ?_⟩
    exact (index_of_created ht hs hname hrun).1 ((put_of_missing hname key body).1 hput)

/-! ## What creating and deleting leave behind -/

/-- What creating and deleting buckets make of a disk, and the names of those buckets at which
they were cut off or failed. Creating is cut off between two of its effects; deleting anywhere
between the entries that it removes, in whatever order. -/
inductive LeftBehind (s : ObjectStore) (t₀ : FileTree) : List String → FileTree → Prop where
  | start : LeftBehind s t₀ [] t₀
  | create {cut : List String} {t t' : FileTree} (bucket : String) : LeftBehind s t₀ cut t →
    s.createBucket bucket t = (.ok (), t') → LeftBehind s t₀ cut t'
  | createCut {cut : List String} {t : FileTree} (bucket : String) (es : List Effect) (n : Nat) :
    LeftBehind s t₀ cut t → s.createEffects t bucket = .ok es →
      LeftBehind s t₀ (bucket :: cut) (Effect.performAll (es.take n) t).2
  | delete {cut : List String} {t : FileTree} (bucket : String) : LeftBehind s t₀ cut t →
    LeftBehind s t₀ cut (s.deleteBucket bucket t).2
  | deleteCut {cut : List String} {t t' : FileTree} (bucket : String) (es : List Effect) :
    LeftBehind s t₀ cut t → s.deleteBucketEffects t bucket = .ok es → t'.WellFormed →
      Pruned (s.bucketPlace t.workDir bucket <+: ·) t t' → LeftBehind s t₀ (bucket :: cut) t'

/-- A disk on which all indexes are those of new buckets, and only such buckets are there by half
at which something was cut off. -/
structure Provisioned (s : ObjectStore) (top : Location) (cut : List String) (t : FileTree) :
    Prop where
  settled : s.Settled top t
  index : ∀ bucket, t.entry? (s.indexPlace t.workDir bucket) = none ∨
    t.entry? (s.indexPlace t.workDir bucket) = some (.file (indexBytes .empty))
  whole : ∀ bucket, isBucketName bucket = true → bucket ∉ cut → ¬s.Halfway t bucket

/-- What happened to one bucket: nothing beside its directory, and its index is the one it was, that
of a new bucket, or gone. -/
structure Concerns (s : ObjectStore) (bucket : String) (t t' : FileTree) : Prop where
  around : Around (· = s.bucketPlace t.workDir bucket) t t'
  index : t'.entry? (s.indexPlace t.workDir bucket) = t.entry? (s.indexPlace t.workDir bucket) ∨
    t'.entry? (s.indexPlace t.workDir bucket) = none ∨
    t'.entry? (s.indexPlace t.workDir bucket) = some (.file (indexBytes .empty))

theorem Concerns.other (h : s.Concerns bucket t t') (hb : b ≠ bucket) {l : Location}
    (hl : s.bucketPlace t.workDir b <+: l) : t'.entry? l = t.entry? l := by
  refine h.around.entry l ?_
  rintro _ rfl
  rw [bucketPlace_eq] at hl ⊢
  exact beside_of_ne (Ne.symm hb) List.prefix_rfl hl

theorem Concerns.settled (h : s.Concerns bucket t t') (ht : s.Settled top t) (ht' : t'.Tidy top) :
    s.Settled top t' := by
  have hs := ht.steady
  have hwithin : Within t'.workDir top s.root := h.around.work.symm ▸ hs.within
  refine ⟨⟨ht', hwithin, fun b dir i hread => ?_⟩, h.around.work.symm ▸ ht.outside⟩
  have hread' := hread
  obtain ⟨hdir, hu, content, text, hentry, htext, hi⟩ := (readIndex_eq_ok ht' hwithin).1 hread
  rw [h.around.work] at hentry
  have hbefore (hsame : t'.entry? (s.indexPlace t.workDir b) =
      t.entry? (s.indexPlace t.workDir b)) : i.Sound :=
    hs.sound b dir i ((readIndex_eq_ok hs.tidy hs.within).2
      ⟨hdir, hu, content, text, hsame ▸ hentry, htext, hi⟩)
  by_cases hb : b = bucket
  · subst hb
    rcases h.index with hsame | hnone | hnew
    · exact hbefore hsame
    · rw [hnone] at hentry
      cases hentry
    · obtain ⟨-, rfl, -⟩ := (readIndex_of_indexBytes ht' hwithin hdir hu
        BucketIndex.Sound.empty.ordered (by rw [h.around.work, hnew])).1 hread'
      exact .empty
  · exact hbefore (h.other hb (bucketPlace_prefix_index _))

/-- What happens to one bucket concerns no other. -/
theorem Provisioned.of_concerns (h : s.Provisioned top cut t) (ht' : t'.Tidy top)
    (hc : s.Concerns bucket t t') {cut' : List String} (hcut : ∀ b, b ∉ cut' → b ∉ cut)
    (hwhole : isBucketName bucket = true → bucket ∉ cut' → ¬s.Halfway t' bucket) :
    s.Provisioned top cut' t' := by
  refine ⟨hc.settled h.settled ht', fun b => ?_, fun b hname hb => ?_⟩
  · rw [hc.around.work]
    by_cases heq : b = bucket
    · subst heq
      rcases hc.index with hindex | hindex
      · rw [hindex]
        exact h.index b
      · exact hindex
    · rw [hc.other heq (bucketPlace_prefix_index _)]
      exact h.index b
  · by_cases heq : b = bucket
    · subst heq
      exact hwhole hname hb
    · have ht := h.settled.steady
      obtain ⟨hbelow, hplace⟩ := below_index ht.within (bucketDir_of_name (s := s) hname)
      have hexists : s.bucketExists t' b = s.bucketExists t b :=
        bucketExists_congr ht.tidy ht' ht.within hc.around.work (hc.other heq List.prefix_rfl)
      have hopened : t'.exists? (indexPath (s.dirPath b)) = t.exists? (indexPath (s.dirPath b)) :=
        exists?_congr ht.tidy ht' hbelow hc.around.work
          (by rw [hplace, hc.other heq (bucketPlace_prefix_index _)])
      rw [Halfway, hexists, hopened]
      exact h.whole b hname (hcut b hb)

/-- The first index of a bucket is written or it is not. -/
theorem index_of_written (ht : t.Tidy top) (hs : Within t.workDir top s.root)
    (hname : isBucketName bucket = true) {r : Except FileError Unit}
    (hrun : (writeIndex (s.dirPath bucket) .empty).perform t = (r, t')) :
    t'.entry? (s.indexPlace t.workDir bucket) = t.entry? (s.indexPlace t.workDir bucket) ∨
      t'.entry? (s.indexPlace t.workDir bucket) = some (.file (indexBytes .empty)) := by
  obtain ⟨hbelow, hplace⟩ := below_index hs (bucketDir_of_name hname)
  by_cases hr : r = .ok ()
  · obtain ⟨-, hentry⟩ := (Effect.replace_spec ht hbelow hrun).2.2.1 hr
    rw [hplace] at hentry
    exact .inr hentry
  · have hpaved := (Effect.replace_confined ht hbelow hrun).2 hr
    rw [hplace] at hpaved
    refine .inl (hpaved.entry _ fun hpre => ?_)
    have := hpre.length_le
    simp [indexPlace] at this

/-- However many of the effects of creating a bucket happen, they concern that bucket. -/
theorem concerns_of_createEffects (h : s.Settled top t) {es : List Effect}
    (hes : s.createEffects t bucket = .ok es) (n : Nat) {r : Except FileError Unit}
    (hrun : Effect.performAll (es.take n) t = (r, t')) :
    t'.Tidy top ∧ s.Concerns bucket t t' := by
  have hs := h.steady
  obtain ⟨ht', haround⟩ := Effect.around_of_performAll
    (fun e he => aims_of_createEffects hs hes e (List.mem_of_mem_take he)) hs.tidy hrun
  refine ⟨ht', haround, ?_⟩
  obtain ⟨dir, hdir, -⟩ := bind_eq_ok.1 (show (s.bucketDir bucket >>= _) = .ok es from hes)
  obtain ⟨hname, rfl⟩ := bucketDir_eq_ok.1 hdir
  rw [createEffects_of_name hname] at hes
  cases hes
  split at hrun
  · rw [List.take_nil] at hrun
    obtain ⟨rfl, -⟩ := performAll_nil hrun
    exact .inl rfl
  obtain ⟨hdirBelow, hdirPlace⟩ := within_bucket hs.within hdir
  have hblobs := (hdirBelow.toWithin.entry isEntry_blobs).near
  have hmade {r : Except FileError Unit} {t₁ : FileTree}
      (hdirs : (Effect.makeDirs ((s.dirPath bucket).joinText "blobs")).perform t = (r, t₁)) :
      t₁.Tidy top ∧ t₁.workDir = t.workDir ∧
        t₁.entry? (s.indexPlace t.workDir bucket) = t.entry? (s.indexPlace t.workDir bucket) := by
    have hpaved := Effect.makeDirs_paved hs.tidy hblobs hdirs
    refine ⟨(Effect.makeDirs_spec hs.tidy hblobs hdirs).1, hpaved.work, hpaved.entry _ ?_⟩
    -- the index is not on the way to the contents
    rw [isEntry_blobs.place_joinText, hdirPlace, indexPlace, List.prefix_append_right_inj]
    decide
  cases n with
  | zero =>
    rw [List.take_zero] at hrun
    obtain ⟨rfl, -⟩ := performAll_nil hrun
    exact .inl rfl
  | succ n =>
    rw [List.take_succ_cons] at hrun
    rcases performAll_cons hrun with ⟨hdirs, -⟩ | ⟨t₁, hdirs, hrest⟩
    · exact .inl (hmade hdirs).2.2
    obtain ⟨ht₁, hwork₁, hsame₁⟩ := hmade hdirs
    rw [← hsame₁, ← hwork₁]
    cases n with
    | zero =>
      rw [List.take_zero] at hrest
      obtain ⟨rfl, -⟩ := performAll_nil hrest
      exact .inl rfl
    | succ n =>
      rw [List.take_succ_cons, List.take_nil] at hrest
      have hwithin₁ : Within t₁.workDir top s.root := hwork₁.symm ▸ hs.within
      rcases performAll_cons hrest with ⟨hindex, -⟩ | ⟨t₂, hindex, hrest⟩
      · exact (index_of_written ht₁ hwithin₁ hname hindex).imp_right .inr
      · obtain ⟨rfl, -⟩ := performAll_nil hrest
        exact (index_of_written ht₁ hwithin₁ hname hindex).imp_right .inr

/-- So does deleting it, or a part of it. -/
theorem concerns_of_pruned (hpruned : Pruned (s.bucketPlace t.workDir bucket <+: ·) t t') :
    s.Concerns bucket t t' :=
  ⟨hpruned.around, (hpruned.entry _).imp id fun hnone => .inl hnone.2⟩

/-- Where a part of a bucket was removed, and what is left is a tree, it is as tidy as before. -/
theorem Settled.tidy_of_pruned (h : s.Settled top t) (ht' : t'.WellFormed)
    (hpruned : Pruned (s.bucketPlace t.workDir bucket <+: ·) t t') : t'.Tidy top := by
  have ht := h.steady.tidy
  refine ⟨ht', fun l target hl htarget => ?_, ?_⟩
  · rcases hpruned.entry l with hsame | ⟨-, hnone⟩
    · exact ht.free l target hl (hsame ▸ htarget)
    · rw [hnone] at htarget
      cases htarget
  · rw [hpruned.same fun hbelow => ?_]
    · exact ht.base
    · -- the tree reaches down to the root of the store, and the bucket lies below it
      have h1 := hbelow.length_le
      have h2 := h.steady.within.below.length_le
      simp only [bucketPlace, List.length_append, List.length_dropLast, List.length_cons] at h1
      omega

theorem LeftBehind.provisioned (h : s.LeftBehind t₀ cut t) (hfresh : s.Fresh top t₀) :
    s.Provisioned top cut t := by
  induction h with
  | start =>
    have hr := hfresh.represents UInt64.size
    have hnone (bucket : String) : t₀.entry? (s.bucketPlace t₀.workDir bucket) = none :=
      hfresh.nothing _ (bucketPlace_eq (s := s) t₀.workDir ▸ List.prefix_append _ _)
    have hindex (bucket : String) : t₀.entry? (s.indexPlace t₀.workDir bucket) = none :=
      hfresh.tidy.wf.none_of_prefix (hnone bucket) (bucketPlace_prefix_index _)
    refine ⟨⟨⟨hfresh.tidy, hfresh.within, fun bucket dir i hread => ?_⟩, hr.outside⟩,
      fun bucket => .inl (hindex bucket), fun bucket hname _ => not_halfway_of_not_exists ?_⟩
    · obtain ⟨-, -, content, -, hentry, -⟩ := (readIndex_eq_ok hfresh.tidy hfresh.within).1 hread
      rw [hindex] at hentry
      cases hentry
    · rw [bucketExists, bucketDir_of_name hname]
      exact hr.exists?_dir hname rfl
  | @create cut t t' bucket _ hrun ih =>
    rcases performing_eq hrun with ⟨-, hne⟩ | ⟨es, r, hes, hall, -⟩
    · exact absurd rfl hne
    rw [← List.take_length (l := es)] at hall
    obtain ⟨ht', hconcerns⟩ := concerns_of_createEffects ih.settled hes _ hall
    refine ih.of_concerns ht' hconcerns (fun _ hb => hb) fun hname hb hhalf => ?_
    have ht := ih.settled.steady
    exact ih.whole bucket hname hb ((index_of_created ht.tidy ht.within hname hrun).1 hhalf.2)
  | @createCut cut t bucket es n _ hes ih =>
    obtain ⟨ht', hconcerns⟩ := concerns_of_createEffects ih.settled hes n (Prod.eta _).symm
    exact ih.of_concerns ht' hconcerns (fun _ hb => List.not_mem_of_not_mem_cons hb)
      fun _ hb => absurd List.mem_cons_self hb
  | @delete cut t bucket _ ih =>
    have ht := ih.settled.steady
    rcases deleteBucket_eq ht.tidy ht.within (Prod.eta (s.deleteBucket bucket t)).symm with
      hgone | ⟨hsame, -⟩
    · have hcuts : Cuts (s.bucketPlace t.workDir bucket) t (s.deleteBucket bucket t).2 := by
        rw [hgone]
        exact ⟨rfl, fun l => entry?_dropAll (bucketPlace_ne_nil _)⟩
      have hpruned :
          Pruned (s.bucketPlace t.workDir bucket <+: ·) t (s.deleteBucket bucket t).2 := by
        rw [hgone]
        exact pruned_dropAll (bucketPlace_ne_nil _)
      have hbelow : top <+: s.bucketPlace t.workDir bucket :=
        ht.within.below.trans (List.prefix_append _ _)
      have ht' := ht.tidy.of_cuts hbelow (bucketPlace_ne_nil _)
        (outside_bucket ih.settled.outside bucket) hcuts
      exact ih.of_concerns ht' (concerns_of_pruned hpruned) (fun _ hb => hb)
        fun _ _ => not_halfway_of_not_exists (not_exists_of_cuts ht.within ht' hcuts)
    · rw [hsame]
      exact ih
  | @deleteCut cut t t' bucket es _ _ hwf hpruned ih =>
    exact ih.of_concerns (ih.settled.tidy_of_pruned hwf hpruned) (concerns_of_pruned hpruned)
      (fun _ hb => List.not_mem_of_not_mem_cons hb) fun _ hb => absurd List.mem_cons_self hb

/-- A bucket that is there, and not by half, is empty. -/
theorem Provisioned.isEmpty (h : s.Provisioned top cut t) (hexists : s.bucketExists t bucket = true)
    (hhalf : ¬s.Halfway t bucket) : s.isEmpty t bucket = .ok true := by
  have ht := h.settled.steady
  have hindex : t.exists? (indexPath (s.dirPath bucket)) = true := by
    rw [← Bool.not_eq_false]
    exact fun hno => hhalf ⟨hexists, hno⟩
  have hname : isBucketName bucket = true := by
    by_contra hname
    rw [bucketExists, bucketDir, if_neg hname] at hexists
    cases hexists
  have hdir := bucketDir_of_name (s := s) hname
  obtain ⟨hbelow, hplace⟩ := below_index ht.within hdir
  obtain ⟨hu, e, he⟩ :=
    (exists?_eq_true ht.tidy.wf ht.tidy.free hbelow.near hbelow.file).1 hindex
  have hread : s.readIndex t bucket = .ok (s.dirPath bucket, .empty) := by
    refine (readIndex_of_indexBytes ht.tidy ht.within hdir hu BucketIndex.Sound.empty.ordered ?_).2
      ⟨rfl, rfl, by decide⟩
    rw [hplace] at he
    exact (h.index bucket).resolve_left fun hnone => by rw [hnone] at he; cases he
  rw [ObjectStore.isEmpty, hread]
  rfl

end ObjectStore

namespace StackProvider

variable {p : StackProvider} {t : FileTree} {name : String} {buckets : List String}
  {doc : StackDoc}

/-! ## Stacks that record such buckets -/

/-- A bucket by half is an error to the look for objects, unless something stops that before. -/
theorem anyFilled_of_halfway (hwhole : ∀ b ∈ buckets, p.objects.bucketExists t b = true →
      ¬p.objects.Halfway t b → p.objects.isEmpty t b = .ok true)
    (hhalf : ∃ b ∈ buckets, p.objects.Halfway t b) :
    ∃ b ∈ buckets, p.objects.Halfway t b ∧
      p.anyFilled t buckets = .error (.unavailable (StoreError.noSuchBucket b).message) := by
  induction buckets with
  | nil =>
    obtain ⟨b, hb, -⟩ := hhalf
    cases hb
  | cons bucket buckets ih =>
    rw [anyFilled]
    by_cases hfirst : p.objects.Halfway t bucket
    · refine ⟨bucket, List.mem_cons_self, hfirst, ?_⟩
      have hname : ObjectStore.isBucketName bucket = true := by
        by_contra hname
        have := hfirst.1
        rw [ObjectStore.bucketExists, ObjectStore.bucketDir, if_neg hname] at this
        cases this
      have hempty : p.objects.isEmpty t bucket = .error (.noSuchBucket bucket) := by
        rw [ObjectStore.isEmpty, (ObjectStore.readIndex_of_missing hname).2 hfirst.2]
        rfl
      rw [hfirst.1, hempty]
      rfl
    · obtain ⟨b, hb, hhalf'⟩ := hhalf
      have hb : b ∈ buckets := (List.mem_cons.1 hb).resolve_left fun heq => hfirst (heq ▸ hhalf')
      obtain ⟨b', hb', hhalf', hfilled⟩ :=
        ih (fun b hb => hwhole b (List.mem_cons_of_mem _ hb)) ⟨b, hb, hhalf'⟩
      refine ⟨b', List.mem_cons_of_mem _ hb', hhalf', ?_⟩
      cases hexists : p.objects.bucketExists t bucket with
      | false => simpa using hfilled
      | true => simpa [hwhole bucket List.mem_cons_self hexists hfirst] using hfilled

/-- What deleting a stack comes to when its buckets are new ones: it goes with all of them, or, if
one of them is there by half, it cannot be deleted. -/
structure Deletes (p : StackProvider) (t : FileTree) (name : String) (doc : StackDoc) : Prop where
  gone : (∀ b ∈ TextMap.values doc.buckets, ¬p.objects.Halfway t b) →
    ∃ t', p.delete name t = (.ok (), t') ∧ p.Gone name doc t t'
  stuck : (∃ b ∈ TextMap.values doc.buckets, p.objects.Halfway t b) →
    ∃ b ∈ TextMap.values doc.buckets, p.objects.Halfway t b ∧
      p.delete name t = (.error (.unavailable (StoreError.noSuchBucket b).message), t)

theorem deletes_of_provisioned {top : Location} {cut : List String}
    (h : p.objects.Provisioned top cut t) (hroot : p.objects.root = p.root)
    (hn : Contained name) (hload : p.load t name = .ok (some doc)) : p.Deletes t name doc where
  gone hwhole := by
    have hs := h.settled.steady
    have hhoused : p.Housed top t := ⟨hs.tidy, hroot ▸ hs.within, hroot, h.settled.outside⟩
    exact hhoused.delete_of_empty hn hload
      (anyFilled_eq_false.2 fun b hb hexists => h.isEmpty hexists (hwhole b hb))
  stuck hhalf := by
    obtain ⟨b, hb, hhalf', hfilled⟩ :=
      anyFilled_of_halfway (fun _ _ hexists hwhole => h.isEmpty hexists hwhole) hhalf
    refine ⟨b, hb, hhalf', ?_⟩
    rw [delete, reading_bind_of_ok (f := fun t => p.load t name) hload]
    show (Disk.reading (fun t => p.anyFilled t (TextMap.values doc.buckets)) >>= _) t = _
    rw [bind_apply, Disk.reading, hfilled]

/-- Whatever creating and deleting buckets has left behind on a disk that had none, wherever it was
cut off: all operations agree on whether a bucket exists, and a bucket that was created is there for
the next object, unless the bucket is there by half, for which creating or deleting it must have
been cut off or have failed. And a stack can be deleted unless a bucket it records is there by
half. -/
theorem existence_agrees (p : StackProvider) (top : Location) (t₀ t : FileTree)
    (cut : List String) (hfresh : p.objects.Fresh top t₀) (hroot : p.objects.root = p.root)
    (ht : p.objects.LeftBehind t₀ cut t) :
    (∀ bucket, ObjectStore.isBucketName bucket = true →
      (p.objects.Agrees t bucket ↔ ¬p.objects.Halfway t bucket) ∧
        (p.objects.Halfway t bucket → bucket ∈ cut)) ∧
    ∀ name doc, Contained name → p.load t name = .ok (some doc) → p.Deletes t name doc := by
  have h := ht.provisioned hfresh
  have hs := h.settled.steady
  refine ⟨fun bucket hname => ⟨ObjectStore.agrees_iff hs.tidy hs.within hname, fun hhalf => ?_⟩,
    fun name doc hn hload => deletes_of_provisioned h hroot hn hload⟩
  by_contra hcut
  exact h.whole bucket hname hcut hhalf

namespace Sample

/-- A disk with a stack that records a bucket. -/
def recorded : FileTree := (provider.save "s" ⟨"CREATE_COMPLETE", .null, [("B", "b")]⟩ .empty).2

/-- The disk after the bucket has its directories, and nothing else. -/
def half : FileTree :=
  (Effect.performAll [.makeDirs ((provider.objects.dirPath "b").joinText "blobs")] recorded).2

theorem fresh_recorded : provider.objects.Fresh ["cloud"] recorded := by
  rw [recorded]
  have hfresh := ObjectStore.Sample.fresh
  have hn : Contained "s" := contained_of_simple (by decide)
  have hbelow := below_stack (p := provider) vacant.within hn
  obtain ⟨r, hrun, -⟩ := mapError_eq (Prod.eta
    (provider.save "s" ⟨"CREATE_COMPLETE", .null, [("B", "b")]⟩ .empty)).symm
  -- what was saved makes no difference, and to look at it would be to print it
  generalize (provider.save "s" ⟨"CREATE_COMPLETE", .null, [("B", "b")]⟩ .empty).2 = t' at hrun ⊢
  obtain ⟨htidy, htouched, -⟩ := Effect.replace_spec hfresh.tidy hbelow hrun
  have hconfined := (Effect.replace_confined hfresh.tidy hbelow hrun).1
  have hbeside : ¬provider.objects.bucketsPlace FileTree.empty.workDir <+:
      provider.stackPlace FileTree.empty.workDir "s" := not_bucket_stackPlace rfl hn
  have hwork : t'.workDir = FileTree.empty.workDir := hconfined.work
  refine ⟨htidy, hwork ▸ hfresh.within, fun l hl => ?_, fun l hl => ?_⟩ <;> rw [hwork] at hl
  · have hne : l ≠ provider.stackPlace FileTree.empty.workDir "s" := by
      rintro rfl
      exact absurd hl (by decide)
    rcases htouched.same l hne with hsame | ⟨-, hdir, -⟩
    · exact (hfresh.clear l hl).imp hsame.trans hsame.trans
    · exact .inr hdir
  · exact (hconfined.entry l fun hl' => hbeside (hl.trans hl')).trans (hfresh.nothing l hl)

theorem leftBehind_half : provider.objects.LeftBehind recorded ["b"] half := by
  have hno : provider.objects.bucketExists recorded "b" = false := by decide +kernel
  have heffects := ObjectStore.createEffects_of_name (s := provider.objects) (t := recorded)
    (show ObjectStore.isBucketName "b" = true by decide)
  rw [hno] at heffects
  have hcut := ObjectStore.LeftBehind.createCut "b" _ 1 .start heffects
  simp only [Bool.false_eq_true, if_false, List.take_succ_cons, List.take_zero] at hcut
  exact hcut

theorem halfway_half : provider.objects.Halfway half "b" := by
  unfold ObjectStore.Halfway
  decide +kernel

/-- The stack is read as it was saved. -/
theorem load_half : ∃ doc, provider.load half "s" = .ok (some doc) ∧
    TextMap.values doc.buckets = ["b"] := by
  have hload : ((provider.load half "s").toOption.join.map fun doc =>
      TextMap.values doc.buckets) = some ["b"] := by decide +kernel
  obtain ⟨doc, hdoc, hbuckets⟩ := Option.map_eq_some_iff.1 hload
  exact ⟨doc, ok_of_toOption (Option.join_eq_some_iff.1 hdoc), hbuckets⟩

end Sample

/-- After the directories of a bucket were made and before its index is, one operation says that the
bucket exists and the others that it does not; creating it changes nothing, objects cannot be stored
in it, and a stack that records it cannot be deleted. -/
theorem existence_disagrees :
    Sample.provider.objects.Fresh ["cloud"] Sample.recorded ∧
      Sample.provider.objects.LeftBehind Sample.recorded ["b"] Sample.half ∧
      Sample.provider.objects.bucketExists Sample.half "b" = true ∧
      (∀ key, Sample.provider.objects.get Sample.half "b" key = .error (.noSuchBucket "b")) ∧
      Sample.provider.objects.createBucket "b" Sample.half = (.ok (), Sample.half) ∧
      (∀ key body, (Sample.provider.objects.put "b" key body Sample.half).1 =
        .error (.noSuchBucket "b")) ∧
      Sample.provider.delete "s" Sample.half =
        (.error (.unavailable (StoreError.noSuchBucket "b").message), Sample.half) := by
  have hhalf := Sample.halfway_half
  have hname : ObjectStore.isBucketName "b" = true := by decide
  refine ⟨Sample.fresh_recorded, Sample.leftBehind_half, hhalf.1,
    fun key => (ObjectStore.get_of_missing hname key).2 hhalf.2, ?_,
    fun key body => (ObjectStore.put_of_missing hname key body).2 hhalf.2, ?_⟩
  · have heffects := ObjectStore.createEffects_of_name (s := Sample.provider.objects)
      (t := Sample.half) hname
    rw [hhalf.1] at heffects
    simp only [ObjectStore.createBucket, ObjectStore.performing, heffects]
    rfl
  · obtain ⟨doc, hload, hbuckets⟩ := Sample.load_half
    obtain ⟨b, hb, -, hdelete⟩ :=
      (deletes_of_provisioned (Sample.leftBehind_half.provisioned Sample.fresh_recorded) rfl
        (contained_of_simple (by decide)) hload).stuck ⟨"b", by simp [hbuckets], hhalf⟩
    rw [hbuckets, List.mem_singleton] at hb
    exact hb ▸ hdelete

/-- The bucket at which creating was cut off, and the stack that records it. -/
theorem existence_agrees_sample :
    Sample.provider.objects.Fresh ["cloud"] Sample.recorded ∧
      Sample.provider.objects.root = Sample.provider.root ∧
      Sample.provider.objects.LeftBehind Sample.recorded ["b"] Sample.half ∧
      Sample.provider.objects.Agrees Sample.half "c" ∧
      ¬Sample.provider.objects.Agrees Sample.half "b" ∧
      ∃ doc, Sample.provider.load Sample.half "s" = .ok (some doc) ∧
        Sample.provider.Deletes Sample.half "s" doc := by
  obtain ⟨hbuckets, hstacks⟩ := existence_agrees Sample.provider ["cloud"] Sample.recorded
    Sample.half ["b"] Sample.fresh_recorded rfl Sample.leftBehind_half
  obtain ⟨doc, hload, -⟩ := Sample.load_half
  obtain ⟨hagrees, hcut⟩ := hbuckets "c" (by decide)
  refine ⟨Sample.fresh_recorded, rfl, Sample.leftBehind_half, hagrees.2 fun hhalf => ?_,
    fun h => (hbuckets "b" (by decide)).1.1 h Sample.halfway_half,
    doc, hload, hstacks "s" doc (contained_of_simple (by decide)) hload⟩
  exact absurd (hcut hhalf) (by decide)

end StackProvider

end Rollout
