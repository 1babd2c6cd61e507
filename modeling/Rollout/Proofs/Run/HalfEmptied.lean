import Rollout.Proofs.Cloud.Deletion
import Rollout.Proofs.Run.Teardown

/-!
A bucket that is being taken down, at any moment between two requests. What is deleted from it is
always an object that is there or the first version that is left; so it never gets more in it than
there was, counting each object twice for its marker, and it can be taken down from any of these
moments as well as from the first. Beside its directory nothing has changed, and what is left when it
is gone is the same from wherever it was begun.
-/

namespace Rollout

open FileTree Outcome
open ObjectStore (Becomes)

/-- The protocol of the disk of a site, for as long as the disk is as `P` says. -/
def Site.onDiskWhile (site : Site) (P : FileTree → Prop) : Protocol FileTree :=
  ⟨fun t _ => P t, fun t r a t' => site.Answers r t a t'⟩

/-- A run that follows the protocol finds the disk as `P` says at every request. -/
theorem DiskWorld.files_of_follows {site : Site} (d : DiskWorld site) (w : d.State) {α : Type}
    {P : FileTree → Prop} {Q : α → FileTree → Prop} {p : Run α}
    (h : p.Follows (site.onDiskWhile P) Q (d.files w)) :
    (∀ m ∈ p.moments d.handler w, P (d.files m.before)) ∧
      ∀ a, (p.outcome d.handler w).1 = some (.ok a) → Q a (d.files (p.outcome d.handler w).2) := by
  obtain ⟨hmoments, t, hend, hQ⟩ := h.run (h := d.handler) (I := fun t w => d.files w = t)
    (fun t w r hw _ => ⟨_, hw ▸ d.answers r w, rfl⟩) rfl
  refine ⟨fun m hm => ?_, fun a ha => hend.symm ▸ hQ a ha⟩
  obtain ⟨t, -, ht, hP, -⟩ := hmoments m hm
  exact ht.symm ▸ hP

namespace VersionedBucket

variable {B : VersionedBucket} {patience : Nat} {key : String}

/-- A bucket that can be taken down: there are ids for the markers to come, and its objects and
versions do not outlast the patience. -/
structure Manageable (patience : Nat) (B : VersionedBucket) : Prop where
  room : B.minted + (if B.versioned then B.currentKeys.length else 0) < idLimit
  patience : B.listing.length + B.currentKeys.length < patience

/-- An object that is deleted makes room for its marker. -/
theorem Manageable.delete (h : B.Manageable patience) (hsound : B.Sound)
    (hkey : key ∈ B.currentKeys) : (B.delete key).Manageable patience := by
  have hroom := h.room
  have hpatience := h.patience
  have hfewer : (B.delete key).currentKeys.length + 1 ≤ B.currentKeys.length := by
    rw [currentKeys_delete hsound]
    exact List.length_filter_lt_length_iff_exists.2 ⟨key, hkey, by simp⟩
  by_cases hversioned : B.versioned = true
  · have hlisting := length_listing_delete hsound hversioned key
    have hminted := B.minted_delete key
    rw [if_pos hversioned] at hminted hroom
    refine ⟨?_, by omega⟩
    rw [B.versioned_delete, if_pos hversioned]
    omega
  · have hdelete : B.delete key = B.dropKey key := if_neg hversioned
    have hlisting := B.length_listing_dropKey key
    rw [← hdelete] at hlisting
    have hminted := B.minted_delete key
    rw [if_neg hversioned] at hminted hroom
    refine ⟨?_, by omega⟩
    rw [B.versioned_delete, if_neg hversioned]
    omega

/-- So does the first version. -/
theorem Manageable.deleteRevision (h : B.Manageable patience) (hsound : B.Sound)
    {v : ObjectVersion} {rest : List ObjectVersion} (hv : B.listing = v :: rest) :
    (B.deleteRevision v.key v.id).Manageable patience := by
  have hroom := h.room
  have hpatience := h.patience
  have hkeys := length_currentKeys_deleteRevision hsound hv
  have hversioned : (B.deleteRevision v.key v.id).versioned = B.versioned := by
    unfold VersionedBucket.deleteRevision
    split <;> rfl
  rw [hv, List.length_cons] at hpatience
  refine ⟨?_, ?_⟩
  · rw [hversioned, B.minted_deleteRevision]
    by_cases hkept : B.versioned = true
    · rw [if_pos hkept] at hroom ⊢
      omega
    · rw [if_neg hkept] at hroom ⊢
      exact hroom
  · rw [listing_deleteRevision hsound hv]
    omega

end VersionedBucket

namespace Artifacts

variable {site : Site} {top : Location} {patience : Nat} {bucket : String} {t₀ t t' : FileTree}
  {A : VersionedStore} {B : VersionedBucket} {α β : Type}

/-- The disk without a bucket. -/
def cleared (s : ObjectStore) (bucket : String) (t : FileTree) : FileTree :=
  if s.bucketExists t bucket then t.dropAll (s.bucketPlace t.workDir bucket) else t

/-- A moment at which taking a bucket down can be begun, and will leave what it leaves from `t₀`. -/
structure Midway (s : ObjectStore) (top : Location) (patience : Nat) (bucket : String)
    (t₀ t : FileTree) : Prop where
  beside : SameBeside (s.bucketPlace t₀.workDir bucket) t₀ t
  buckets : ∃ A, s.Represents top UInt64.size A t ∧
    ∀ B, A bucket = some B → B.Manageable patience
  cleared : cleared s bucket t = cleared s bucket t₀

/-- A disk with `B` in a bucket of which `t₀` had something else. -/
structure Holding (s : ObjectStore) (top : Location) (bucket : String) (t₀ : FileTree)
    (A : VersionedStore) (B : VersionedBucket) (t : FileTree) : Prop where
  represents : s.Represents top UInt64.size (Becomes A bucket B) t
  beside : SameBeside (s.bucketPlace t₀.workDir bucket) t₀ t
  existed : s.bucketExists t₀ bucket = true

namespace Holding

variable {s : ObjectStore}

theorem bucket_eq (A : VersionedStore) (B : VersionedBucket) : Becomes A bucket B bucket = some B :=
  Function.update_self ..

theorem held (h : Holding s top bucket t₀ A B t) : s.Holds UInt64.size t bucket B :=
  h.represents.held bucket B (bucket_eq A B)

theorem cleared_eq (h : Holding s top bucket t₀ A B t) : cleared s bucket t =
    t.dropAll (s.bucketPlace t.workDir bucket) := by
  refine if_pos ?_
  rw [h.represents.bucketExists h.held.nameable.name, bucket_eq]
  rfl

theorem dropAll_eq (h : Holding s top bucket t₀ A B t) :
    t.dropAll (s.bucketPlace t.workDir bucket) = cleared s bucket t₀ := by
  rw [h.beside.work, cleared, if_pos h.existed]
  exact h.beside

theorem midway (h : Holding s top bucket t₀ A B t) (hB : B.Manageable patience) :
    Midway s top patience bucket t₀ t := by
  refine ⟨h.beside, ⟨_, h.represents, fun B' hB' => ?_⟩, h.cleared_eq.trans h.dropAll_eq⟩
  rw [bucket_eq] at hB'
  cases hB'
  exact hB

theorem delete (h : Holding s top bucket t₀ A B t) (hB : B.Manageable patience) {key : String}
    (hkey : key ∈ B.currentKeys) :
    ∃ t', s.answer (.delete bucket key) t = (.ok (), t') ∧
      Holding s top bucket t₀ A (B.delete key) t' := by
  have hroom : B.index.versioned = true → B.minted + 1 < UInt64.size := by
    intro (hversioned : B.versioned = true)
    have hlimit : idLimit ≤ UInt64.size := by decide
    have hpos := List.length_pos_of_mem hkey
    have hroom := hB.room
    rw [if_pos hversioned] at hroom
    omega
  obtain ⟨hanswer, hrepresents⟩ := h.represents.act (by decide) (Nat.le_refl _)
    (.call (.delete bucket key)) ⟨h.held.nameable,
      (h.represents.canMint_iff (Nat.le_refl _) (bucket_eq A B)).2 hroom⟩
  rw [VersionedStore.act, VersionedStore.answer, VersionedStore.change_of_some (bucket_eq A B),
    Function.update_idem] at hrepresents
  rw [VersionedStore.act, VersionedStore.answer, VersionedStore.change_of_some (bucket_eq A B)]
    at hanswer
  refine ⟨_, Prod.ext hanswer rfl, hrepresents, h.beside.trans ?_, h.existed⟩
  rw [← h.beside.work]
  exact h.represents.beside_delete (Nat.le_refl _) (bucket_eq A B) key

theorem deleteVersion (h : Holding s top bucket t₀ A B t) {v : ObjectVersion}
    {rest : List ObjectVersion} (hv : B.listing = v :: rest) :
    ∃ t', s.answer (.deleteVersion bucket v.key v.id) t = (.ok (), t') ∧
      Holding s top bucket t₀ A (B.deleteRevision v.key v.id) t' := by
  obtain ⟨r, hr, hid⟩ := (VersionedBucket.mem_listing h.held.sound).1
    (hv ▸ List.mem_cons_self : (⟨v.key, v.id⟩ : ObjectVersion) ∈ B.listing)
  obtain ⟨hanswer, hrepresents⟩ := h.represents.act (by decide) (Nat.le_refl _)
    (.call (.deleteVersion bucket v.key v.id)) ⟨h.held.nameable,
      (h.represents.lists_iff (Nat.le_refl _) (bucket_eq A B)).2 ⟨r, hr, hid⟩⟩
  rw [VersionedStore.act, VersionedStore.answer, VersionedStore.change_of_some (bucket_eq A B),
    Function.update_idem] at hrepresents
  rw [VersionedStore.act, VersionedStore.answer, VersionedStore.change_of_some (bucket_eq A B)]
    at hanswer
  refine ⟨_, Prod.ext hanswer rfl, hrepresents, h.beside.trans ?_, h.existed⟩
  rw [← h.beside.work]
  exact h.represents.beside_deleteVersion (Nat.le_refl _) (bucket_eq A B) hid v.key

/-- A bucket is deleted if nothing is left in it. -/
theorem deleteBucket (patience : Nat) (h : Holding s top bucket t₀ A B t)
    {r : Except StoreError Unit} (hrun : s.deleteBucket bucket t = (r, t')) :
    (r = .ok () ∧ t' = Artifacts.cleared s bucket t₀ ∧ Midway s top patience bucket t₀ t') ∨
      r = .error (.bucketNotEmpty bucket) := by
  have hname := h.held.nameable.name
  obtain ⟨hanswer, hrepresents⟩ := h.represents.deleteBucket (Nat.le_refl _) hname
  rw [hrun, VersionedStore.deleteBucket, bucket_eq] at hanswer hrepresents
  by_cases hempty : B.keys.isEmpty = true
  · simp only [hempty, if_true, Function.update_idem] at hanswer hrepresents
    have hend : t' = Artifacts.cleared s bucket t₀ := by
      rcases ObjectStore.deleteBucket_eq h.represents.tidy h.represents.within hrun with
        hend | ⟨-, hfails⟩
      · exact hend.trans h.dropAll_eq
      · exact absurd hanswer hfails
    refine .inl ⟨hanswer, hend, ?_, ⟨_, hrepresents, fun B' hB' => ?_⟩, ?_⟩
    · rw [hend, Artifacts.cleared, if_pos h.existed]
      exact .dropAll
    · rw [Function.update_self] at hB'
      cases hB'
    · rw [Artifacts.cleared, hrepresents.bucketExists hname, Function.update_self]
      exact hend
  · simp only [hempty] at hanswer
    exact .inr hanswer

end Holding

/-! ## The loops -/

section Loops

variable (hB : B.Manageable patience) (h : Holding site.cloud.objects top bucket t₀ A B t)

/-- Something is left in the bucket, and it can be taken down. -/
def Left (s : ObjectStore) (top : Location) (patience : Nat) (bucket : String) (t₀ : FileTree)
    (A : VersionedStore) (t : FileTree) : Prop :=
  ∃ B : VersionedBucket, B.Manageable patience ∧ Holding s top bucket t₀ A B t

theorem follows_call {c : StoreCall} {P : FileTree → Prop}
    {Q : Except StoreError c.Result → FileTree → Prop} (hP : P t)
    {a : Except StoreError c.Result} (hanswer : site.cloud.objects.answer c t = (a, t'))
    (hQ : Q a t') : (call c).run.Follows (site.onDiskWhile P) Q t := by
  refine ⟨hP, fun a' t'' ha => ?_⟩
  have ha : site.cloud.objects.answer c t = (a', t'') := ha
  rw [hanswer] at ha
  cases ha
  exact hQ

/-- One part after another that ends well. -/
theorem follows_bind {P : Protocol FileTree} {Q : α → FileTree → Prop}
    {R : Except StoreError β → FileTree → Prop} {p : Teardown α} {f : α → Teardown β}
    (hp : p.run.Follows P (fun r t' => ∃ a, r = .ok a ∧ Q a t') t)
    (hf : ∀ a t', Q a t' → (f a).run.Follows P R t') : (p >>= f).run.Follows P R t := by
  refine Program.Follows.bind hp ?_
  rintro r t' ⟨a, rfl, hQ⟩
  exact hf a t' hQ

include hB h

theorem follows_deleteKeys (keys : List String) (hnodup : keys.Nodup)
    (hkeys : ∀ key ∈ keys, key ∈ B.currentKeys) :
    (deleteKeys bucket keys).run.Follows
      (site.onDiskWhile (Midway site.cloud.objects top patience bucket t₀))
      (fun r t' => ∃ a, r = .ok a ∧ Left site.cloud.objects top patience bucket t₀ A t') t := by
  induction keys generalizing B t with
  | nil => exact ⟨(), rfl, B, hB, h⟩
  | cons key keys ih =>
    obtain ⟨hkey, hnodup⟩ := List.nodup_cons.1 hnodup
    have hcurrent := hkeys key List.mem_cons_self
    obtain ⟨t', hanswer, h'⟩ := h.delete hB hcurrent
    refine follows_bind (follows_call (h.midway hB) hanswer ⟨(), rfl, rfl⟩)
      (Q := fun _ t'' => t'' = t') ?_
    rintro _ t'' rfl
    refine ih (hB.delete h.held.sound hcurrent) h' hnodup fun k hk => ?_
    rw [VersionedBucket.currentKeys_delete h.held.sound, List.mem_filter]
    refine ⟨hkeys k (List.mem_cons_of_mem _ hk), ?_⟩
    simp only [ne_eq, decide_eq_true_eq]
    rintro rfl
    exact hkey hk

theorem follows_deleteObjectsFrom (pages : Nat) (token : Option String) :
    (deleteObjectsFrom bucket pages token).run.Follows
      (site.onDiskWhile (Midway site.cloud.objects top patience bucket t₀))
      (fun r t' => ∃ a, r = .ok a ∧ Left site.cloud.objects top patience bucket t₀ A t') t := by
  induction pages generalizing B t token with
  | zero => trivial
  | succ pages ih =>
    let page := VersionedStore.keyPage site.cloud.objects.pageSize token B
    have hpage : site.cloud.objects.answer (.listObjects bucket token) t = (.ok page, t) := by
      rw [ObjectStore.answer, h.represents.listObjects (Nat.le_refl _) h.held.nameable.name,
        VersionedStore.look_of_some (Holding.bucket_eq A B)]
      rfl
    have hsub : page.keys.Sublist B.currentKeys :=
      (List.take_sublist _ _).trans List.filter_sublist
    have hnodup : B.currentKeys.Nodup := by
      refine (VersionedBucket.pairwise_currentKeys h.held.sound).imp fun {k k'} hlt heq => ?_
      rw [heq, Text.precedes_irrefl] at hlt
      cases hlt
    refine follows_bind (follows_call (h.midway hB) hpage ⟨page, rfl, rfl, rfl⟩)
      (Q := fun p t' => p = page ∧ t' = t) ?_
    rintro _ _ ⟨rfl, rfl⟩
    refine follows_bind (follows_deleteKeys hB h page.keys (hnodup.sublist hsub)
      fun key hkey => hsub.subset hkey) ?_
    rintro _ t' ⟨B', hB', h'⟩
    cases page.next with
    | none => exact ⟨_, rfl, B', hB', h'⟩
    | some next =>
      refine follows_bind (ih hB' h' (some next)) ?_
      intro n t'' hleft
      exact ⟨_, rfl, hleft⟩

theorem follows_deleteVersions {vs rest : List ObjectVersion} (hvs : B.listing = vs ++ rest) :
    (deleteVersions bucket vs).run.Follows
      (site.onDiskWhile (Midway site.cloud.objects top patience bucket t₀))
      (fun r t' => ∃ a, r = .ok a ∧ ∃ B : VersionedBucket, B.Manageable patience ∧
        Holding site.cloud.objects top bucket t₀ A B t' ∧ B.listing = rest) t := by
  induction vs generalizing B t with
  | nil => exact ⟨(), rfl, B, hB, h, hvs⟩
  | cons v vs ih =>
    obtain ⟨t', hanswer, h'⟩ := h.deleteVersion hvs
    refine follows_bind (follows_call (h.midway hB) hanswer ⟨(), rfl, rfl⟩)
      (Q := fun _ t'' => t'' = t') ?_
    rintro _ t'' rfl
    exact ih (hB.deleteRevision h.held.sound hvs) h'
      (VersionedBucket.listing_deleteRevision h.held.sound hvs)

theorem follows_deleteVersionsFrom (pages : Nat) {cursor : Option VersionCursor}
    (hcursor : ∀ v ∈ B.listing, cursor.all fun c => VersionedStore.isAfter c v) :
    (deleteVersionsFrom bucket pages cursor).run.Follows
      (site.onDiskWhile (Midway site.cloud.objects top patience bucket t₀))
      (fun r t' => ∃ a, r = .ok a ∧ Left site.cloud.objects top patience bucket t₀ A t') t := by
  induction pages generalizing B t cursor with
  | zero => trivial
  | succ pages ih =>
    let size := site.cloud.objects.pageSize
    let page : VersionPage := ⟨B.listing.take size,
      if size < B.listing.length then
        (B.listing.take size).getLast?.map fun v => ⟨v.key, some v.id⟩
      else none⟩
    have hpage : site.cloud.objects.answer (.listVersions bucket cursor) t = (.ok page, t) := by
      rw [ObjectStore.answer, h.represents.listVersions (Nat.le_refl _) h.held.nameable.name,
        VersionedStore.look_of_some (Holding.bucket_eq A B), VersionedStore.versionPage,
        List.filter_eq_self.2 hcursor]
      rfl
    have hsplit : B.listing = page.versions ++ B.listing.drop size :=
      (List.take_append_drop size _).symm
    refine follows_bind (follows_call (h.midway hB) hpage ⟨page, rfl, rfl, rfl⟩)
      (Q := fun p t' => p = page ∧ t' = t) ?_
    rintro _ _ ⟨rfl, rfl⟩
    refine follows_bind (follows_deleteVersions hB h hsplit) ?_
    rintro _ t' ⟨B', hB', h', hlisting⟩
    by_cases hmore : size < B.listing.length ∧ 0 < size
    · obtain ⟨last, hlast, hmem⟩ := getLast?_take hmore.2 hmore.1
      have hnext : page.next = some ⟨last.key, some last.id⟩ :=
        (if_pos hmore.1).trans (congrArg _ hlast)
      simp only [hnext]
      refine follows_bind (ih hB' h' ?_) ?_
      · -- what is left comes after the last version of the page
        intro v hv
        rw [hlisting] at hv
        have hpairwise := VersionedBucket.pairwise_listing h.held.sound
          (Nat.lt_of_le_of_lt (Nat.le_add_right _ _) hB.room)
        rw [hsplit, List.pairwise_append] at hpairwise
        exact hpairwise.2.2 last hmem v hv
      · intro n t'' hleft
        exact ⟨_, rfl, hleft⟩
    · have hnext : page.next = none := by
        by_cases hlong : size < B.listing.length
        · have hzero : size = 0 := Nat.eq_zero_of_not_pos fun hpos => hmore ⟨hlong, hpos⟩
          simp [page, hzero]
        · exact if_neg hlong
      simp only [hnext]
      exact ⟨_, rfl, B', hB', h'⟩

end Loops

/-! ## The whole teardown -/

/-- Emptying a bucket that is there and deleting it, wherever it is interrupted. -/
theorem follows_emptyAndDelete (hB : B.Manageable patience)
    (h : Holding site.cloud.objects top bucket t₀ A B t) :
    (emptyAndDelete patience bucket).run.Follows
      (site.onDiskWhile (Midway site.cloud.objects top patience bucket t₀))
      (fun r t' => (∀ b, r ≠ .error (.noSuchBucket b)) ∧
        ∀ n, r = .ok n → t' = cleared site.cloud.objects bucket t₀ ∧
          Midway site.cloud.objects top patience bucket t₀ t') t := by
  refine follows_bind (follows_deleteObjectsFrom hB h patience none) ?_
  rintro objects t₁ ⟨B₁, hB₁, h₁⟩
  refine follows_bind (follows_deleteVersionsFrom hB₁ h₁ patience fun _ _ => rfl) ?_
  rintro versions t₂ ⟨B₂, hB₂, h₂⟩
  refine ⟨h₂.midway hB₂, fun r t' hr => ?_⟩
  rcases h₂.deleteBucket patience hr with ⟨rfl, hdone⟩ | rfl
  · exact ⟨nofun, fun _ _ => hdone⟩
  · exact ⟨nofun, nofun⟩

/-- A bucket that cannot be listed is left alone. -/
theorem follows_emptyAndDelete_of_error {P : FileTree → Prop} (hP : P t) {e : StoreError}
    (hlist : site.cloud.objects.answer (.listObjects bucket none) t = (.error e, t)) :
    (emptyAndDelete patience bucket).run.Follows (site.onDiskWhile P)
      (fun r t' => r = .error e ∧ t' = t) t := by
  cases patience with
  | zero => trivial
  | succ pages =>
    refine ⟨hP, fun r t' hr => ?_⟩
    have hr : site.cloud.objects.answer (.listObjects bucket none) t = (r, t') := hr
    rw [hlist] at hr
    cases hr
    exact ⟨rfl, rfl⟩

theorem midway_refl (h : site.cloud.objects.Represents top UInt64.size A t)
    (hB : ∀ B, A bucket = some B → B.Manageable patience) :
    Midway site.cloud.objects top patience bucket t t :=
  ⟨.refl .., ⟨A, h, hB⟩, rfl⟩

/-- Taking a bucket down, wherever it is interrupted. -/
theorem follows_tearDown (h : site.cloud.objects.Represents top UInt64.size A t)
    (hB : ∀ B, A bucket = some B → B.Manageable patience) :
    (tearDown patience bucket).Follows
      (site.onDiskWhile (Midway site.cloud.objects top patience bucket t))
      (fun _ t' => ObjectStore.isBucketName bucket = true ∧
        t' = cleared site.cloud.objects bucket t ∧
          Midway site.cloud.objects top patience bucket t t') t := by
  have hempty : (emptyAndDelete patience bucket).run.Follows
      (site.onDiskWhile (Midway site.cloud.objects top patience bucket t))
      (fun r t' => ∀ n, teardownOutcome bucket r = .ok n →
        ObjectStore.isBucketName bucket = true ∧ t' = cleared site.cloud.objects bucket t ∧
          Midway site.cloud.objects top patience bucket t t') t := by
    by_cases hname : ObjectStore.isBucketName bucket = true
    · cases hA : A bucket with
      | none =>
        have hlist : site.cloud.objects.answer (.listObjects bucket none) t =
            (.error (.noSuchBucket bucket), t) := by
          rw [ObjectStore.answer, h.listObjects (Nat.le_refl _) hname, VersionedStore.look, hA]
          rfl
        refine (follows_emptyAndDelete_of_error (midway_refl h hB) hlist).mono ?_
        rintro r t' ⟨-, rfl⟩ n -
        refine ⟨hname, ?_, midway_refl h hB⟩
        rw [cleared, h.bucketExists hname, hA]
        rfl
      | some B =>
        have hexists : site.cloud.objects.bucketExists t bucket = true := by
          rw [h.bucketExists hname, hA]
          rfl
        have hsame : Becomes A bucket B = A := by
          rw [Becomes, ← hA, Function.update_eq_self]
        refine (follows_emptyAndDelete (hB B hA) ⟨hsame.symm ▸ h, .refl .., hexists⟩).mono ?_
        rintro r t' ⟨hmissing, hdone⟩ n hn
        cases r with
        | ok removed => exact ⟨hname, hdone removed rfl⟩
        | error e =>
          cases e with
          | noSuchBucket b => exact absurd rfl (hmissing b)
          | _ => cases hn
    · have hlist : site.cloud.objects.answer (.listObjects bucket none) t =
          (.error (.service ("invalid bucket name '" ++ bucket ++ "'")), t) := by
        rw [ObjectStore.answer, ObjectStore.listObjects, ObjectStore.readIndex,
          ObjectStore.bucketDir, if_neg hname]
        rfl
      refine (follows_emptyAndDelete_of_error (midway_refl h hB) hlist).mono ?_
      rintro r t' ⟨rfl, -⟩
      rintro n ⟨⟩
  refine Program.Follows.bind hempty fun r t' hr => ?_
  cases r with
  | ok removed => exact fun n _ => hr removed rfl
  | error e =>
    cases e with
    | noSuchBucket b => exact fun n _ => hr 0 rfl
    | _ => rintro n ⟨⟩

/-- From any such moment the bucket is taken down, with the same disk in the end. -/
theorem outcome_of_midway (d : DiskWorld site) {w : d.State}
    (hsize : 0 < site.cloud.objects.pageSize) (hpatience : 0 < patience)
    (hname : ObjectStore.isBucketName bucket = true)
    (h : Midway site.cloud.objects top patience bucket t₀ (d.files w)) :
    ∃ n w', (tearDown patience bucket).outcome d.handler w = (some (.ok n), w') ∧
      d.files w' = cleared site.cloud.objects bucket t₀ := by
  obtain ⟨A, hA, hB⟩ := h.buckets
  have hends : ∃ n w', (tearDown patience bucket).outcome d.handler w = (some (.ok n), w') := by
    cases hbucket : A bucket with
    | none =>
      obtain ⟨w', hrun, -⟩ := leads_emptyAndDelete_of_absent (d := d) (Nat.le_refl _) hname hbucket
        hpatience w hA
      exact ⟨0, w', outcome_tearDown hrun⟩
    | some B =>
      obtain ⟨hroom, hlong⟩ := hB B hbucket
      obtain ⟨w', hrun, -⟩ := leads_emptyAndDelete (d := d) (Nat.le_refl _) (by decide) hsize
        hbucket (hA.held bucket B hbucket).sound hroom hlong w hA
      exact ⟨removals B, w', outcome_tearDown hrun⟩
  obtain ⟨n, w', hrun⟩ := hends
  refine ⟨n, w', hrun, ?_⟩
  have hend := (d.files_of_follows w (follows_tearDown hA hB)).2 n (by rw [hrun])
  rw [hrun] at hend
  exact hend.2.1.trans h.cleared

end Artifacts

end Rollout
