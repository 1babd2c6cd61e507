import Rollout.Proofs.Cloud.CrashAtomicity
import Rollout.Proofs.Cloud.Emptying
import Rollout.Proofs.Run.Protocol
import Rollout.Proofs.Run.Site
import Rollout.Run.Artifacts

/-!
Taking a bucket down. The objects of the bucket are deleted a page at a time, then the versions
that are left or that this has added, then the bucket. Both loops delete what they list from its
start, so that what is left to list is what is left after the page, and no page skips anything:
however long the pages are, the bucket is empty in the end.
-/

namespace Rollout.Artifacts

open FileTree Outcome
open ObjectStore (Becomes)

variable {site : Site} {d : DiskWorld site} {top : Location} {limit : Nat} {α β : Type}
  {A A' A'' : VersionedStore} {B : VersionedBucket} {bucket : String}

/-- On any disk that represents the buckets `A`, a program ends with an answer, and the disk then
represents the buckets `A'`. -/
def Leads (d : DiskWorld site) (top : Location) (limit : Nat) (p : Teardown α)
    (A : VersionedStore) (answer : Except StoreError α) (A' : VersionedStore) : Prop :=
  ∀ w, site.cloud.objects.Represents top limit A (d.files w) →
    ∃ w', p.run.run d.handler w = (some answer, w') ∧
      site.cloud.objects.Represents top limit A' (d.files w')

theorem Leads.pure (a : α) : Leads d top limit (Pure.pure a) A (.ok a) A :=
  fun w h => ⟨w, rfl, h⟩

theorem Leads.bind_error {p : Teardown α} {f : α → Teardown β} {e : StoreError}
    (hp : Leads d top limit p A (.error e) A') : Leads d top limit (p >>= f) A (.error e) A' := by
  intro w h
  obtain ⟨w', hrun, h'⟩ := hp w h
  refine ⟨w', ?_, h'⟩
  show Program.run d.handler (p.run.bind _) w = _
  rw [Program.run_bind, hrun]
  rfl

theorem Leads.bind {p : Teardown α} {f : α → Teardown β} {a : α} {answer : Except StoreError β}
    (hp : Leads d top limit p A (.ok a) A') (hf : Leads d top limit (f a) A' answer A'') :
    Leads d top limit (p >>= f) A answer A'' := by
  intro w h
  obtain ⟨w', hrun, h'⟩ := hp w h
  obtain ⟨w'', hrun', h''⟩ := hf w' h'
  refine ⟨w'', ?_, h''⟩
  show Program.run d.handler (p.run.bind _) w = _
  rw [Program.run_bind, hrun]
  exact hrun'

/-- A call is answered as the buckets that are meant answer it. -/
theorem Leads.call (hpos : 0 < limit) (hlimit : limit ≤ UInt64.size) (c : StoreCall)
    (hc : ∀ t, site.cloud.objects.Represents top limit A t →
      site.cloud.objects.Allows limit t (.call c)) :
    Leads d top limit (call c) A (A.answer site.cloud.objects.pageSize c).1
      (A.answer site.cloud.objects.pageSize c).2 := by
  intro w h
  have hanswers : site.cloud.objects.answer c (d.files w) = _ := d.answers (.store c) w
  obtain ⟨hanswer, h'⟩ := h.act hpos hlimit (.call c) (hc _ h)
  rw [ObjectStore.act, hanswers] at hanswer h'
  refine ⟨_, ?_, h'⟩
  show (some (d.handler.answer (.store c) w).1, _) = _
  rw [hanswer]
  rfl

/-! ## Objects -/

theorem leads_deleteKeys (hpos : 0 < limit) (hlimit : limit ≤ UInt64.size)
    (hA : A bucket = some B) (keys : List String)
    (hroom : B.versioned = true → B.minted + keys.length < limit) :
    Leads d top limit (deleteKeys bucket keys) A (.ok ()) (Becomes A bucket (B.deleteAll keys)) := by
  induction keys generalizing A B with
  | nil =>
    have hsame : Becomes A bucket (B.deleteAll []) = A := by
      rw [Becomes, VersionedBucket.deleteAll, List.foldl_nil, ← hA, Function.update_eq_self]
    rw [hsame]
    exact .pure ()
  | cons key keys ih =>
    have hcall : Leads d top limit (call (.delete bucket key)) A (.ok ())
        (Becomes A bucket (B.delete key)) := by
      have hdelete : Leads d top limit (call (.delete bucket key)) A _ _ :=
        .call hpos hlimit _ fun t h => ?_
      · rwa [VersionedStore.answer, VersionedStore.change_of_some hA] at hdelete
      · refine ⟨(h.held bucket B hA).nameable, (h.canMint_iff hlimit hA).2 fun hversioned => ?_⟩
        have := hroom hversioned
        simp only [List.length_cons] at this
        omega
    refine hcall.bind ?_
    have hrest := ih (A := Becomes A bucket (B.delete key)) (Function.update_self ..) ?_
    · rwa [Becomes, Becomes, Function.update_idem] at hrest
    · intro hversioned
      rw [B.versioned_delete] at hversioned
      have := hroom hversioned
      rw [B.minted_delete, if_pos hversioned]
      simp only [List.length_cons] at this
      omega

/-- A page of a list, and the position behind it if there is more. -/
theorem getLast?_take {l : List α} {size : Nat} (hsize : 0 < size) (h : size < l.length) :
    ∃ last, (l.take size).getLast? = some last ∧ last ∈ l.take size := by
  have hne : l.take size ≠ [] := by
    intro hnil
    have := congrArg List.length hnil
    simp only [List.length_take, List.length_nil] at this
    omega
  exact ⟨_, List.getLast?_eq_some_getLast hne, List.getLast_mem hne⟩

/-- Deleting the objects page by page deletes all there are. -/
theorem leads_deleteObjectsFrom (hpos : 0 < limit) (hlimit : limit ≤ UInt64.size)
    (hsize : 0 < site.cloud.objects.pageSize) (hA : A bucket = some B) (hsound : B.Sound)
    (hroom : B.versioned = true → B.minted + B.currentKeys.length < limit)
    {token : Option String}
    (htoken : ∀ key ∈ B.currentKeys, token.all fun after => Text.precedes after key)
    {pages : Nat} (hpages : B.currentKeys.length < pages) :
    Leads d top limit (deleteObjectsFrom bucket pages token) A (.ok B.currentKeys.length)
      (Becomes A bucket (B.deleteAll B.currentKeys)) := by
  induction pages generalizing A B token with
  | zero => omega
  | succ pages ih =>
    let size := site.cloud.objects.pageSize
    let page : KeyPage := ⟨B.currentKeys.take size,
      if size < B.currentKeys.length then (B.currentKeys.take size).getLast? else none⟩
    have hpage : Leads d top limit (call (.listObjects bucket token)) A (.ok page) A := by
      have hlist : Leads d top limit (call (.listObjects bucket token)) A _ _ :=
        .call hpos hlimit _ fun t h => ⟨(h.held bucket B hA).nameable, trivial⟩
      rw [VersionedStore.answer, VersionedStore.look_of_some hA, VersionedStore.keyPage,
        List.filter_eq_self.2 htoken] at hlist
      exact hlist
    have hdelete : Leads d top limit (deleteKeys bucket page.keys) A (.ok ())
        (Becomes A bucket (B.deleteAll page.keys)) := by
      refine leads_deleteKeys hpos hlimit hA _ fun hversioned => ?_
      have := hroom hversioned
      have : page.keys.length ≤ B.currentKeys.length := List.length_take_le' _ _
      omega
    refine hpage.bind (hdelete.bind ?_)
    by_cases hmore : size < B.currentKeys.length
    · obtain ⟨last, hlast, hmem⟩ := getLast?_take hsize hmore
      have hnext : page.next = some last := (if_pos hmore).trans hlast
      have hsplit : B.currentKeys = page.keys ++ B.currentKeys.drop size :=
        (List.take_append_drop size _).symm
      obtain ⟨hsound', hkeys⟩ := VersionedBucket.currentKeys_deleteAll hsound hsplit
      have hlength : B.currentKeys.length = page.keys.length + (B.currentKeys.drop size).length := by
        rw [← List.length_append, ← hsplit]
      have htaken : 0 < page.keys.length := List.length_pos_of_mem hmem
      have hrest : Leads d top limit (deleteObjectsFrom bucket pages (some last)) _ _ _ :=
        ih (A := Becomes A bucket (B.deleteAll page.keys)) (Function.update_self ..) hsound' ?_ ?_ ?_
      · rw [Becomes, Becomes, Function.update_idem, ← VersionedBucket.deleteAll_append, hkeys,
          ← hsplit] at hrest
        rw [hlength]
        simp only [hnext]
        exact hrest.bind (.pure _)
      · intro hversioned
        rw [VersionedBucket.versioned_deleteAll] at hversioned
        have := hroom hversioned
        rw [VersionedBucket.minted_deleteAll, if_pos hversioned, hkeys]
        omega
      · -- what is left comes after the last key of the page
        intro key hkey
        rw [hkeys] at hkey
        have hpairwise := VersionedBucket.pairwise_currentKeys hsound
        rw [hsplit, List.pairwise_append] at hpairwise
        exact hpairwise.2.2 last hmem key hkey
      · rw [hkeys]
        omega
    · have hnext : page.next = none := if_neg hmore
      have hall : page.keys = B.currentKeys := List.take_of_length_le (Nat.le_of_not_lt hmore)
      simp only [hnext, hall]
      exact .pure _

/-! ## Versions -/

theorem leads_deleteVersions (hpos : 0 < limit) (hlimit : limit ≤ UInt64.size)
    (hA : A bucket = some B) (hsound : B.Sound) {vs rest : List ObjectVersion}
    (hvs : B.listing = vs ++ rest) :
    Leads d top limit (deleteVersions bucket vs) A (.ok ()) (Becomes A bucket (B.removeAll vs)) := by
  induction vs generalizing A B with
  | nil =>
    have hsame : Becomes A bucket (B.removeAll []) = A := by
      rw [Becomes, VersionedBucket.removeAll, List.foldl_nil, ← hA, Function.update_eq_self]
    rw [hsame]
    exact .pure ()
  | cons v vs ih =>
    have hcall : Leads d top limit (call (.deleteVersion bucket v.key v.id)) A (.ok ())
        (Becomes A bucket (B.deleteRevision v.key v.id)) := by
      have hdelete : Leads d top limit (call (.deleteVersion bucket v.key v.id)) A _ _ :=
        .call hpos hlimit _ fun t h => ?_
      · rwa [VersionedStore.answer, VersionedStore.change_of_some hA] at hdelete
      · refine ⟨(h.held bucket B hA).nameable, (h.lists_iff hlimit hA).2 ?_⟩
        rw [← VersionedBucket.mem_listing hsound, hvs]
        exact List.mem_cons_self
    refine hcall.bind ?_
    have hrest := ih (A := Becomes A bucket (B.deleteRevision v.key v.id)) (Function.update_self ..)
      (hsound.deleteRevision v.key v.id) (VersionedBucket.listing_deleteRevision hsound hvs)
    rwa [Becomes, Becomes, Function.update_idem] at hrest

/-- Deleting the versions page by page deletes all there are. -/
theorem leads_deleteVersionsFrom (hpos : 0 < limit) (hlimit : limit ≤ UInt64.size)
    (hsize : 0 < site.cloud.objects.pageSize) (hA : A bucket = some B) (hsound : B.Sound)
    (hroom : B.minted < idLimit) {cursor : Option VersionCursor}
    (hcursor : ∀ v ∈ B.listing, cursor.all fun c => VersionedStore.isAfter c v)
    {pages : Nat} (hpages : B.listing.length < pages) :
    Leads d top limit (deleteVersionsFrom bucket pages cursor) A (.ok B.listing.length)
      (Becomes A bucket (B.removeAll B.listing)) := by
  induction pages generalizing A B cursor with
  | zero => omega
  | succ pages ih =>
    let size := site.cloud.objects.pageSize
    let page : VersionPage := ⟨B.listing.take size,
      if size < B.listing.length then
        (B.listing.take size).getLast?.map fun v => ⟨v.key, some v.id⟩
      else none⟩
    have hpage : Leads d top limit (call (.listVersions bucket cursor)) A (.ok page) A := by
      have hlist : Leads d top limit (call (.listVersions bucket cursor)) A _ _ :=
        .call hpos hlimit _ fun t h => ⟨(h.held bucket B hA).nameable, trivial⟩
      rw [VersionedStore.answer, VersionedStore.look_of_some hA, VersionedStore.versionPage,
        List.filter_eq_self.2 hcursor] at hlist
      exact hlist
    have hsplit : B.listing = page.versions ++ B.listing.drop size :=
      (List.take_append_drop size _).symm
    have hdelete : Leads d top limit (deleteVersions bucket page.versions) A (.ok ())
        (Becomes A bucket (B.removeAll page.versions)) :=
      leads_deleteVersions hpos hlimit hA hsound hsplit
    refine hpage.bind (hdelete.bind ?_)
    by_cases hmore : size < B.listing.length
    · obtain ⟨last, hlast, hmem⟩ := getLast?_take hsize hmore
      have hnext : page.next = some ⟨last.key, some last.id⟩ :=
        (if_pos hmore).trans (congrArg _ hlast)
      obtain ⟨hsound', hlisting⟩ := VersionedBucket.listing_removeAll hsound hsplit
      have hlength : B.listing.length = page.versions.length + (B.listing.drop size).length := by
        rw [← List.length_append, ← hsplit]
      have htaken : 0 < page.versions.length := List.length_pos_of_mem hmem
      have hrest : Leads d top limit
          (deleteVersionsFrom bucket pages (some ⟨last.key, some last.id⟩)) _ _ _ :=
        ih (A := Becomes A bucket (B.removeAll page.versions)) (Function.update_self ..) hsound'
          ?_ ?_ ?_
      · rw [Becomes, Becomes, Function.update_idem, ← VersionedBucket.removeAll_append, hlisting,
          ← hsplit] at hrest
        rw [hlength]
        simp only [hnext]
        exact hrest.bind (.pure _)
      · rw [VersionedBucket.minted_removeAll]
        exact hroom
      · -- what is left comes after the last version of the page
        intro v hv
        rw [hlisting] at hv
        have hpairwise := VersionedBucket.pairwise_listing hsound hroom
        rw [hsplit, List.pairwise_append] at hpairwise
        exact hpairwise.2.2 last hmem v hv
      · rw [hlisting]
        omega
    · have hnext : page.next = none := if_neg hmore
      have hall : page.versions = B.listing := List.take_of_length_le (Nat.le_of_not_lt hmore)
      simp only [hnext, hall]
      exact .pure _

/-! ## The bucket -/

/-- How many deletions take a bucket down: one for every object, and one for every version that
there is then. -/
def removals (B : VersionedBucket) : Nat :=
  if B.versioned then B.listing.length + 2 * B.currentKeys.length else B.currentKeys.length

/-- A bucket is emptied and deleted. -/
theorem leads_emptyAndDelete (hlimit : limit ≤ UInt64.size) (hids : idLimit ≤ limit)
    (hsize : 0 < site.cloud.objects.pageSize) (hA : A bucket = some B) (hsound : B.Sound)
    (hroom : B.minted + (if B.versioned then B.currentKeys.length else 0) < idLimit)
    {patience : Nat} (hpatience : B.listing.length + B.currentKeys.length < patience) :
    Leads d top limit (emptyAndDelete patience bucket) A (.ok (removals B))
      (Function.update A bucket none) := by
  have hpos : 0 < limit := Nat.lt_of_lt_of_le (by decide) hids
  have hmarkers : B.versioned = true → B.minted + B.currentKeys.length < limit := by
    intro hversioned
    rw [if_pos hversioned] at hroom
    omega
  have hobjects : Leads d top limit (deleteObjectsFrom bucket patience none) A _ _ :=
    leads_deleteObjectsFrom hpos hlimit hsize hA hsound hmarkers (fun _ _ => rfl) (by omega)
  obtain ⟨hsound₁, hkeys⟩ := VersionedBucket.currentKeys_deleteAll hsound (List.append_nil _).symm
  have hlength := VersionedBucket.length_listing_deleteAll_currentKeys hsound
  let B₁ := B.deleteAll B.currentKeys
  have hminted : B₁.minted < idLimit := by
    rw [VersionedBucket.minted_deleteAll]
    split
    · rwa [if_pos ‹_›] at hroom
    · omega
  have hpatience₁ : B₁.listing.length < patience := by
    rw [hlength]
    split <;> omega
  have hversions : Leads d top limit (deleteVersionsFrom bucket patience none)
      (Becomes A bucket B₁) (.ok B₁.listing.length)
      (Becomes (Becomes A bucket B₁) bucket (B₁.removeAll B₁.listing)) :=
    leads_deleteVersionsFrom hpos hlimit hsize (Function.update_self ..) hsound₁ hminted
      (fun _ _ => rfl) hpatience₁
  rw [Becomes, Becomes, Function.update_idem] at hversions
  -- without versions the bucket has no keys
  obtain ⟨hsound₂, hlisting⟩ := VersionedBucket.listing_removeAll hsound₁ (List.append_nil _).symm
  have hempty := VersionedBucket.keys_eq_nil_of_listing hsound₂ hlisting
  have hdelete : Leads d top limit (call (.deleteBucket bucket))
      (Becomes A bucket (B₁.removeAll B₁.listing)) (.ok ()) (Function.update A bucket none) := by
    have hcall : Leads d top limit (call (.deleteBucket bucket)) _ _ _ :=
      .call (A := Becomes A bucket (B₁.removeAll B₁.listing)) hpos hlimit _ fun t h =>
        ⟨(h.held bucket _ (Function.update_self ..)).nameable, trivial⟩
    simp only [VersionedStore.answer, VersionedStore.deleteBucket, Becomes, Function.update_self,
      B₁, hempty, List.isEmpty_nil, if_true, Function.update_idem] at hcall
    exact hcall
  have hremovals : removals B = B.currentKeys.length + B₁.listing.length := by
    rw [hlength, removals]
    split <;> omega
  rw [hremovals]
  exact hobjects.bind (hversions.bind (hdelete.bind (.pure _)))

/-- A bucket that is not there cannot be emptied. -/
theorem leads_emptyAndDelete_of_absent (hlimit : limit ≤ UInt64.size)
    (hname : ObjectStore.isBucketName bucket = true) (hA : A bucket = none) {patience : Nat}
    (hpatience : 0 < patience) :
    Leads d top limit (emptyAndDelete patience bucket) A (.error (.noSuchBucket bucket)) A := by
  obtain ⟨pages, rfl⟩ : ∃ pages, patience = pages + 1 := ⟨patience - 1, by omega⟩
  have hlist : Leads d top limit (call (.listObjects bucket none)) A
      (.error (.noSuchBucket bucket)) A := by
    intro w h
    have hanswers : site.cloud.objects.answer (.listObjects bucket none) (d.files w) = _ :=
      d.answers (.store (.listObjects bucket none)) w
    rw [ObjectStore.answer, h.listObjects hlimit hname, VersionedStore.look, hA] at hanswers
    obtain ⟨hanswer, hfiles⟩ := Prod.mk.inj hanswers
    refine ⟨_, ?_, hfiles ▸ h⟩
    show (some (d.handler.answer (.store (.listObjects bucket none)) w).1, _) = _
    rw [← hanswer]
  have hobjects : Leads d top limit (deleteObjectsFrom bucket (pages + 1) none) A
      (.error (.noSuchBucket bucket)) A := hlist.bind_error
  exact hobjects.bind_error

/-- How taking a bucket down ends, by how emptying it ended. -/
def teardownOutcome (bucket : String) : Except StoreError Nat → Except Failure Nat
  | .ok removed => .ok removed
  | .error (.noSuchBucket _) => .ok 0
  | .error e => .error (.bucketTeardown bucket e)

theorem outcome_tearDown {patience : Nat} {w w' : d.State} {answer : Except StoreError Nat}
    (h : (emptyAndDelete patience bucket).run.run d.handler w = (some answer, w')) :
    (tearDown patience bucket).outcome d.handler w =
      (some (teardownOutcome bucket answer), w') := by
  show Program.run d.handler ((emptyAndDelete patience bucket).run.bind _) w = _
  rw [Program.run_bind, h]
  cases answer with
  | ok removed => rfl
  | error e => cases e <;> rfl

/-- A bucket is gone, and every other one is as it was. -/
structure Gone (s : ObjectStore) (bucket : String) (t t' : FileTree) : Prop where
  gone : s.bucketExists t' bucket = false
  exist (b : String) : ObjectStore.isBucketName b = true → b ≠ bucket →
    s.bucketExists t' b = s.bucketExists t b
  index (b : String) : ObjectStore.isBucketName b = true → b ≠ bucket →
    s.readIndex t' b = s.readIndex t b
  contents (b key : String) : ObjectStore.isBucketName b = true → b ≠ bucket →
    s.get t' b key = s.get t b key

theorem gone_of_represents {s : ObjectStore} {t t' : FileTree} (hlimit : limit ≤ UInt64.size)
    (h : s.Represents top limit A t)
    (h' : s.Represents top limit (Function.update A bucket none) t')
    (hname : ObjectStore.isBucketName bucket = true) : Gone s bucket t t' := by
  refine ⟨?_, fun b hb hne => ?_, fun b hb hne => ?_, fun b key hb hne => ?_⟩
  · rw [h'.bucketExists hname, Function.update_self]
    rfl
  · rw [h'.bucketExists hb, h.bucketExists hb, Function.update_of_ne hne]
  · have hsame := Function.update_of_ne hne none A
    cases hA : A b with
    | none =>
      rw [h.readIndex_of_absent hb hA, h'.readIndex_of_absent hb (hsame.trans hA)]
    | some B => rw [h.readIndex hlimit hA, h'.readIndex hlimit (hsame.trans hA)]
  · rw [h'.get hlimit hb, h.get hlimit hb, VersionedStore.look, VersionedStore.look,
      Function.update_of_ne hne]

/-- Whatever has been done to a store that started without buckets, and however long its pages
are, taking down a bucket comes to its end: the bucket is gone, and every deletion is counted.
Where versions are kept, every object is deleted twice over, once by a marker. -/
theorem tearDown_complete (d : DiskWorld site) (top : Location) (t₀ : FileTree) (w : d.State)
    (bucket : String) (hsize : 0 < site.cloud.objects.pageSize)
    (hfresh : site.cloud.objects.Fresh top t₀)
    (hreached : site.cloud.objects.Reached UInt64.size t₀ (d.files w))
    (hname : site.cloud.objects.Nameable UInt64.size bucket) :
    if site.cloud.objects.bucketExists (d.files w) bucket then
      ∃ dir i, site.cloud.objects.readIndex (d.files w) bucket = .ok (dir, i) ∧
        (i.nextVersion + (if i.versioned then i.currentKeys.length else 0) < idLimit →
          ∀ patience, i.allVersions.length + i.currentKeys.length < patience →
            ∃ w', (tearDown patience bucket).outcome d.handler w =
                (some (.ok (if i.versioned then i.allVersions.length + 2 * i.currentKeys.length
                  else i.currentKeys.length)), w') ∧
              Gone site.cloud.objects bucket (d.files w) (d.files w'))
    else ∀ patience, 0 < patience →
      ∃ w', (tearDown patience bucket).outcome d.handler w = (some (.ok 0), w') ∧
        Gone site.cloud.objects bucket (d.files w) (d.files w') := by
  have hpos : 0 < UInt64.size := by decide
  have hlimit : UInt64.size ≤ UInt64.size := Nat.le_refl _
  obtain ⟨A, hA⟩ := hreached.represents hfresh hpos hlimit
  rw [hA.bucketExists hname.name]
  cases hB : A bucket with
  | none =>
    intro patience hpatience
    obtain ⟨w', hrun, hA'⟩ := leads_emptyAndDelete_of_absent (d := d) hlimit hname.name hB
      hpatience w hA
    refine ⟨w', outcome_tearDown hrun, gone_of_represents hlimit hA ?_ hname.name⟩
    rwa [← hB, Function.update_eq_self]
  | some B =>
    refine ⟨_, B.index, hA.readIndex hlimit hB, ?_⟩
    rw [VersionedBucket.currentKeys_index, VersionedBucket.allVersions_index]
    intro hroom patience hpatience
    obtain ⟨w', hrun, hA'⟩ := leads_emptyAndDelete (d := d) hlimit (by decide) hsize hB
      (hA.held bucket B hB).sound hroom hpatience w hA
    exact ⟨w', outcome_tearDown hrun, gone_of_represents hlimit hA hA' hname.name⟩

namespace Sample

open ObjectStore.Sample

/-- A site whose cloud is the store of two keys to a page. -/
def place : Site :=
  ⟨⟨Path.ofString "/d"⟩, ⟨Path.ofString "/b"⟩, ⟨Path.ofString "/r"⟩,
    ⟨store, ⟨Path.ofString "/cloud", store, 1⟩, .atRoot .empty (Path.ofString "/cloud") []⟩⟩

/-- A disk with a bucket that keeps versions and has one object of one version. -/
@[irreducible] def disk : FileTree := store.actAll actions .empty

theorem reached : store.Reached UInt64.size .empty disk := by
  unfold disk
  exact .actAll .start (allowed (by decide) (Nat.le_refl _))

/-- What the bucket on the disk holds. -/
def held : VersionedBucket := ⟨true, 2, [("k", [⟨1, some "1".toUTF8⟩])]⟩

theorem represents : store.Represents ["cloud"] UInt64.size
    (VersionedStore.actAll 2 actions .empty) disk := by
  unfold disk
  exact (fresh.represents UInt64.size).actAll (by decide) (Nat.le_refl _) _
    (allowed (by decide) (Nat.le_refl _))

theorem readIndex_disk : store.readIndex disk "b" = .ok (store.dirPath "b", held.index) :=
  represents.readIndex (Nat.le_refl _) rfl

theorem bucketExists_disk : store.bucketExists disk "b" = true :=
  represents.bucketExists (by decide)

end Sample

/-- The object, its version and the marker are deleted. -/
theorem tearDown_complete_sample :
    0 < Sample.place.cloud.objects.pageSize ∧
      Sample.place.cloud.objects.Fresh ["cloud"] .empty ∧
      Sample.place.cloud.objects.Reached UInt64.size .empty Sample.disk ∧
      Sample.place.cloud.objects.Nameable UInt64.size "b" ∧
      ∃ w', (tearDown 3 "b").outcome Sample.place.handler (.start Sample.disk) =
          (some (.ok 3), w') ∧
        Gone Sample.place.cloud.objects "b" Sample.disk w'.files := by
  have hname := ObjectStore.Sample.nameable (Nat.le_refl UInt64.size)
  refine ⟨by decide, ObjectStore.Sample.fresh, Sample.reached, hname, ?_⟩
  have h := tearDown_complete Sample.place.world ["cloud"] .empty (.start Sample.disk) "b"
    (by decide) ObjectStore.Sample.fresh Sample.reached hname
  have hexists : Sample.place.cloud.objects.bucketExists
      (Sample.place.world.files (.start Sample.disk)) "b" = true := Sample.bucketExists_disk
  rw [if_pos hexists] at h
  obtain ⟨dir, i, hread, hdone⟩ := h
  obtain ⟨-, rfl⟩ := Prod.mk.inj (Except.ok.inj (Sample.readIndex_disk.symm.trans hread))
  exact hdone (by decide) 3 (by decide)

end Rollout.Artifacts
