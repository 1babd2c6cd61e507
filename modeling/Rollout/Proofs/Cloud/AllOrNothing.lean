import Rollout.Proofs.Cloud.Undone

/-!
Deleting a stack whole. One loop over the recorded buckets looks for a version in any of them, and a
second one deletes those that are there. As an empty bucket can always be deleted, and deleting one
makes no difference to the others, the second loop never meets a bucket that stops it: a stack goes
with all its buckets, or nothing but its status changes.
-/

namespace Rollout

open FileTree Outcome Json

namespace ObjectStore

variable {s : ObjectStore} {top l : Location} {t t' t₁ : FileTree} {bucket b : String}
  {buckets : List String}

/-! ## Empty buckets -/

/-- Whether a bucket is empty depends on its index alone. -/
theorem isEmpty_congr (h : s.readIndex t' bucket = s.readIndex t bucket) :
    s.isEmpty t' bucket = s.isEmpty t bucket := by
  rw [isEmpty, isEmpty, h]

/-- A bucket that holds no version goes with its directory, and nothing else does. -/
theorem deleteBucket_of_empty (ht : t.Tidy top) (hs : Within t.workDir top s.root)
    (hout : ¬s.bucketsPlace t.workDir <+: t.workDir) (hempty : s.isEmpty t bucket = .ok true) :
    ∃ t', s.deleteBucket bucket t = (.ok (), t') ∧ t'.Tidy top ∧
      Cuts (s.bucketPlace t.workDir bucket) t t' := by
  simp only [isEmpty, bind_eq_ok, pure_eq_ok] at hempty
  obtain ⟨⟨dir, i⟩, hread, hi⟩ := hempty
  obtain ⟨hdir, -, content, -, hentry, -⟩ := (readIndex_eq_ok ht hs).1 hread
  obtain ⟨hbelow, hplace⟩ := within_bucket hs hdir
  obtain ⟨husable, -⟩ := (bucketExists_eq_true ht hs hdir).1 (exists_of_readIndex ht hs hread)
  have hstands : t.entry? (s.bucketPlace t.workDir bucket) = some .dir :=
    ht.wf.entry?_of_prefix hentry (bucketPlace_prefix_index _) (by simp [indexPlace])
  obtain ⟨t', hrun, ht', hcuts⟩ := Effect.removeTree_exact ht hbelow husable
    (by rw [hplace, hstands]) (by rw [hplace]; exact outside_bucket hout bucket)
  have heffects : s.deleteBucketEffects t bucket = .ok [.removeTree dir] := by
    rw [deleteBucketEffects, hread, ok_bind]
    simp only [show i.objects.isEmpty = true from hi]
    rfl
  have hall : Effect.performAll [.removeTree dir] t = (.ok (), t') := by
    rw [Effect.performAll, bind_of_ok hrun]
    rfl
  refine ⟨t', ?_, ht', hplace ▸ hcuts⟩
  simp only [deleteBucket, performing, heffects, mapError_of_ok hall]

/-- Where one bucket has gone, it is not there, -/
theorem not_exists_of_cuts (hs : Within t.workDir top s.root) (ht' : t'.Tidy top)
    (hcuts : Cuts (s.bucketPlace t.workDir bucket) t t') : s.bucketExists t' bucket = false := by
  cases hdir : s.bucketDir bucket with
  | error e => rw [bucketExists, hdir]
  | ok dir =>
    rw [← Bool.not_eq_true, bucketExists_eq_true ht' (hcuts.work.symm ▸ hs) hdir, hcuts.work,
      hcuts.entry, if_pos List.prefix_rfl]
    rintro ⟨-, e, he⟩
    cases he

/-- and in the place of another the same stands. -/
theorem entry_of_cuts_ne (hcuts : Cuts (s.bucketPlace t.workDir bucket) t t') (hne : b ≠ bucket)
    (hl : s.bucketPlace t.workDir b <+: l) : t'.entry? l = t.entry? l := by
  rw [bucketPlace_eq] at hl
  rw [hcuts.entry, if_neg]
  exact (beside_of_ne (Ne.symm hne) (by rw [bucketPlace_eq]) hl).1

/-- A bucket that was not there does not come by taking away. -/
theorem not_exists_of_pruned {S : Location → Prop} (ht : t.Tidy top)
    (hs : Within t.workDir top s.root) (ht' : t'.Tidy top) (hpruned : Pruned S t t')
    (hno : s.bucketExists t bucket = false) : s.bucketExists t' bucket = false := by
  cases hdir : s.bucketDir bucket with
  | error e => rw [bucketExists, hdir]
  | ok dir =>
    rw [bucketExists, hdir] at hno ⊢
    exact hpruned.not_exists ht ht' (within_bucket hs hdir).1 hno

/-- The buckets of a list are gone with all that was in them, and nothing else is. -/
structure Cleared (s : ObjectStore) (buckets : List String) (t t' : FileTree) : Prop where
  gone : ∀ b ∈ buckets, s.bucketExists t' b = false
  pruned : Pruned (fun l => ∃ b ∈ buckets, s.bucketExists t b = true ∧
    s.bucketPlace t.workDir b <+: l) t t'

/-- One bucket after the other. -/
theorem Cleared.cons (ht : t.Tidy top) (hs : Within t.workDir top s.root) (ht₁ : t₁.Tidy top)
    (hexists : s.bucketExists t bucket = true)
    (hcuts : Cuts (s.bucketPlace t.workDir bucket) t t₁) (h : s.Cleared buckets t₁ t')
    (ht' : t'.Tidy top) : s.Cleared (bucket :: buckets) t t' := by
  have hother {b : String} (hne : b ≠ bucket) : s.bucketExists t₁ b = s.bucketExists t b :=
    bucketExists_congr ht ht₁ hs hcuts.work (entry_of_cuts_ne hcuts hne List.prefix_rfl)
  have hpruned : Pruned (fun l => ∃ b ∈ bucket :: buckets, s.bucketExists t b = true ∧
      s.bucketPlace t.workDir b <+: l) t t₁ := by
    refine ⟨hcuts.work, fun l => ?_⟩
    rw [hcuts.entry]
    split
    · exact .inr ⟨⟨bucket, List.mem_cons_self, hexists, ‹_›⟩, rfl⟩
    · exact .inl rfl
  constructor
  · intro b hb
    rcases List.mem_cons.1 hb with rfl | hb
    · exact not_exists_of_pruned ht₁ (hcuts.work.symm ▸ hs) ht' h.pruned
        (not_exists_of_cuts hs ht₁ hcuts)
    · exact h.gone b hb
  · refine hpruned.trans (h.pruned.mono ?_)
    rintro l ⟨b, hb, hexists₁, hl⟩
    by_cases hne : b = bucket
    · subst hne
      rw [not_exists_of_cuts hs ht₁ hcuts] at hexists₁
      cases hexists₁
    · exact ⟨b, List.mem_cons_of_mem _ hb, hother hne ▸ hexists₁, hcuts.work ▸ hl⟩

end ObjectStore

namespace StackProvider

variable {p : StackProvider} {t t' : FileTree} {top : Location} {name bucket : String}
  {buckets : List String} {doc : StackDoc}

/-! ## The two loops -/

/-- No bucket of a list is filled: each that is there is known to be empty, -/
theorem anyFilled_eq_false : p.anyFilled t buckets = .ok false ↔
    ∀ b ∈ buckets, p.objects.bucketExists t b = true → p.objects.isEmpty t b = .ok true := by
  induction buckets with
  | nil => simp [anyFilled]
  | cons bucket buckets ih =>
    rw [anyFilled, List.forall_mem_cons]
    cases hexists : p.objects.bucketExists t bucket with
    | false => simpa using ih
    | true =>
      cases hempty : p.objects.isEmpty t bucket with
      | error e => simp
      | ok empty => cases empty <;> simp [ih]

/-- some bucket is: it is there, and known not to be empty, -/
theorem exists_of_anyFilled (h : p.anyFilled t buckets = .ok true) :
    ∃ b ∈ buckets, p.objects.bucketExists t b = true ∧ p.objects.isEmpty t b = .ok false := by
  induction buckets with
  | nil => cases h
  | cons bucket buckets ih =>
    have hlater (h : p.anyFilled t buckets = .ok true) : ∃ b ∈ bucket :: buckets,
        p.objects.bucketExists t b = true ∧ p.objects.isEmpty t b = .ok false := by
      obtain ⟨b, hb, hfilled⟩ := ih h
      exact ⟨b, List.mem_cons_of_mem _ hb, hfilled⟩
    rw [anyFilled] at h
    cases hexists : p.objects.bucketExists t bucket with
    | false =>
      rw [hexists] at h
      exact hlater h
    | true =>
      rw [hexists] at h
      cases hempty : p.objects.isEmpty t bucket with
      | error e =>
        rw [hempty] at h
        cases h
      | ok empty =>
        rw [hempty] at h
        cases empty with
        | true => exact hlater h
        | false => exact ⟨bucket, List.mem_cons_self, hexists, hempty⟩

/-- Deleting buckets that are missing or empty succeeds, however often one is listed. -/
theorem deleteBuckets_of_empty (h : p.Housed top t)
    (hall : ∀ b ∈ buckets, p.objects.bucketExists t b = true → p.objects.isEmpty t b = .ok true) :
    ∃ t', p.deleteBuckets buckets t = (.ok (), t') ∧ t'.Tidy top ∧
      p.objects.Cleared buckets t t' := by
  induction buckets generalizing t with
  | nil =>
    exact ⟨t, rfl, h.tidy, nofun, Pruned.refl ..⟩
  | cons bucket buckets ih =>
    obtain ⟨hfirst, hrest⟩ := List.forall_mem_cons.1 hall
    have hget : (get : Disk ProviderError FileTree) t = (.ok t, t) := rfl
    rw [deleteBuckets, bind_of_ok hget]
    by_cases hexists : p.objects.bucketExists t bucket = true
    · obtain ⟨t₁, hdelete, ht₁, hcuts⟩ :=
        ObjectStore.deleteBucket_of_empty h.tidy h.store h.outside (hfirst hexists)
      -- a bucket that is still there is another one, with the index that it had
      have hall₁ : ∀ b ∈ buckets, p.objects.bucketExists t₁ b = true →
          p.objects.isEmpty t₁ b = .ok true := by
        intro b hb hexists₁
        have hne : b ≠ bucket := by
          rintro rfl
          rw [ObjectStore.not_exists_of_cuts h.store ht₁ hcuts] at hexists₁
          cases hexists₁
        have hsame {l : Location} (hl : p.objects.bucketPlace t.workDir b <+: l) :
            t₁.entry? l = t.entry? l := ObjectStore.entry_of_cuts_ne hcuts hne hl
        rw [ObjectStore.bucketExists_congr h.tidy ht₁ h.store hcuts.work (hsame List.prefix_rfl)]
          at hexists₁
        rw [ObjectStore.isEmpty_congr (ObjectStore.readIndex_congr h.tidy ht₁ h.store hcuts.work
          (hsame (ObjectStore.bucketPlace_prefix_index _)))]
        exact hrest b hb hexists₁
      obtain ⟨t', hrun, ht', hcleared⟩ := ih (h.of_work ht₁ hcuts.work) hall₁
      refine ⟨t', ?_, ht', .cons h.tidy h.store ht₁ hexists hcuts hcleared ht'⟩
      have hforStack : forStack (p.objects.deleteBucket bucket) t = (.ok (), t₁) :=
        mapError_of_ok hdelete
      rw [if_pos hexists, bind_of_ok hforStack]
      exact hrun
    · obtain ⟨t', hrun, ht', hcleared⟩ := ih h hrest
      refine ⟨t', ?_, ht', ?_, hcleared.pruned.mono ?_⟩
      · rw [if_neg hexists]
        exact hrun
      · intro b hb
        rcases List.mem_cons.1 hb with rfl | hb
        · exact ObjectStore.not_exists_of_pruned h.tidy h.store ht' hcleared.pruned
            (by simpa using hexists)
        · exact hcleared.gone b hb
      · rintro l ⟨b, hb, hexists, hl⟩
        exact ⟨b, List.mem_cons_of_mem _ hb, hexists, hl⟩

/-! ## The document -/

/-- What cannot be taken away with a bucket: the document of a stack. -/
theorem Housed.entry_of_cleared (h : p.Housed top t) (hn : Contained name)
    (hcleared : p.objects.Cleared buckets t t') :
    t'.entry? (p.stackPlace t.workDir name) = t.entry? (p.stackPlace t.workDir name) := by
  refine hcleared.pruned.same ?_
  rintro ⟨b, -, -, hl⟩
  rw [ObjectStore.bucketPlace_eq] at hl
  exact not_bucket_stackPlace h.root hn ((List.prefix_append _ _).trans hl)

/-- A document that is there is taken away, and nothing else is. -/
theorem remove_of_document (h : p.Housed top t) (hn : Contained name)
    (husable : Usable (p.stackPath name)) {content : ByteArray}
    (hentry : t.entry? (p.stackPlace t.workDir name) = some (.file content)) :
    ∃ t', (Effect.remove (p.stackPath name)).perform t = (.ok (), t') ∧ t'.Tidy top ∧
      Sets (p.stackPlace t.workDir name) none t t' := by
  have hbelow := below_stack h.within hn
  have hexists : t.exists? (p.stackPath name) = true :=
    (exists?_eq_true h.tidy.wf h.tidy.free hbelow.near hbelow.file).2 ⟨husable, _, hentry⟩
  have hfile : t.entry? ((p.stackPath name).place t.workDir) ≠ some .dir := by
    rw [show t.entry? ((p.stackPath name).place t.workDir) = some (.file content) from hentry]
    exact nofun
  obtain ⟨t', hremove, hsets⟩ := discard_exact h.tidy hbelow husable hfile
  rw [if_pos hexists] at hremove
  refine ⟨t', ?_, (remove_ok h.tidy hbelow hremove).1, hsets⟩
  simp only [Effect.perform, Disk.step, hremove]

/-! ## The whole -/

/-- What is recorded of a stack that is gone: its document, and the buckets it had. -/
def Holding (p : StackProvider) (t : FileTree) (name : String) (doc : StackDoc) (l : Location) :
    Prop :=
  l = p.stackPlace t.workDir name ∨ ∃ b ∈ TextMap.values doc.buckets,
    p.objects.bucketExists t b = true ∧ p.objects.bucketPlace t.workDir b <+: l

/-- A stack is gone with its buckets, all of which were empty; nothing else is. -/
structure Gone (p : StackProvider) (name : String) (doc : StackDoc) (t t' : FileTree) : Prop where
  empty : ∀ b ∈ TextMap.values doc.buckets, p.objects.bucketExists t b = true →
    p.objects.isEmpty t b = .ok true
  document : p.load t' name = .ok none
  buckets : ∀ b ∈ TextMap.values doc.buckets, p.objects.bucketExists t' b = false
  pruned : Pruned (p.Holding t name doc) t t'

/-- A stack is marked as one that could not be deleted, as one of its buckets is filled; nothing
else has changed. The template is read anew, which makes no difference to integers. -/
structure Marked (p : StackProvider) (name : String) (doc : StackDoc) (t t' : FileTree) :
    Prop where
  filled : ∃ b ∈ TextMap.values doc.buckets, p.objects.bucketExists t b = true ∧
    p.objects.isEmpty t b = .ok false
  document : ∃ found, p.load t' name = .ok (some found) ∧
    found.status = StackStatus.deleteFailed.text ∧ found.buckets = doc.buckets ∧
    ReadBack doc.template found.template
  sets : Sets (p.stackPlace t.workDir name) (some (.file (undeleted doc).toJson.pretty.toUTF8)) t t'

theorem Housed.gone_of_empty (h : p.Housed top t) (hn : Contained name)
    (hload : p.load t name = .ok (some doc)) {t₁ : FileTree} {r : Except FileError Unit}
    (hempty : p.anyFilled t (TextMap.values doc.buckets) = .ok false)
    (hbuckets : p.deleteBuckets (TextMap.values doc.buckets) t = (.ok (), t₁))
    (hremove : (Effect.remove (p.stackPath name)).perform t₁ = (r, t')) :
    r = .ok () ∧ p.Gone name doc t t' := by
  obtain ⟨husable, content, -, hentry, -⟩ := (load_eq_some h.tidy h.within hn).1 hload
  obtain ⟨t₂, hrun, ht₁, hcleared⟩ := deleteBuckets_of_empty h (anyFilled_eq_false.1 hempty)
  rw [hbuckets] at hrun
  cases hrun
  have h₁ := h.of_work ht₁ hcleared.pruned.work
  have hentry₁ : t₁.entry? (p.stackPlace t₁.workDir name) = some (.file content) := by
    rw [hcleared.pruned.work, h.entry_of_cleared hn hcleared, hentry]
  obtain ⟨t₂, hrun, ht', hsets⟩ := remove_of_document h₁ hn husable hentry₁
  rw [hremove] at hrun
  cases hrun
  rw [hcleared.pruned.work] at hsets
  have hpruned : Pruned (· = p.stackPlace t.workDir name) t₁ t' := by
    refine ⟨hsets.work, fun l => ?_⟩
    rw [hsets.entry]
    split
    · exact .inr ⟨‹_›, rfl⟩
    · exact .inl rfl
  refine ⟨rfl, anyFilled_eq_false.1 hempty, ?_, fun b hb => ?_, ?_⟩
  · refine load_of_absent ht' (h₁.of_work ht' hsets.work).within hn ?_
    rw [hsets.work, hcleared.pruned.work, hsets.entry]
    exact if_pos rfl
  · exact ObjectStore.not_exists_of_pruned ht₁ h₁.store ht' hpruned (hcleared.gone b hb)
  · exact (hcleared.pruned.mono fun _ => .inr).trans (hpruned.mono fun _ => .inl)

/-- A stack goes if it is deleted when its buckets are empty. -/
theorem Housed.delete_of_empty (h : p.Housed top t) (hn : Contained name)
    (hload : p.load t name = .ok (some doc))
    (hempty : p.anyFilled t (TextMap.values doc.buckets) = .ok false) :
    ∃ t', p.delete name t = (.ok (), t') ∧ p.Gone name doc t t' := by
  obtain ⟨t₁, hbuckets, -⟩ := deleteBuckets_of_empty h (anyFilled_eq_false.1 hempty)
  obtain ⟨r, t', hremove⟩ : ∃ r t', (Effect.remove (p.stackPath name)).perform t₁ = (r, t') :=
    ⟨_, _, (Prod.eta _).symm⟩
  obtain ⟨rfl, hgone⟩ := h.gone_of_empty hn hload hempty hbuckets hremove
  refine ⟨t', ?_, hgone⟩
  rw [StackProvider.delete_of_empty hload hempty]
  exact (bind_of_ok hbuckets).trans (mapError_of_ok hremove)

theorem Housed.marked_of_filled (h : p.Housed top t) (hn : Contained name)
    (hload : p.load t name = .ok (some doc)) {r : Except ProviderError Unit}
    (hfilled : p.anyFilled t (TextMap.values doc.buckets) = .ok true)
    (hsave : p.save name (undeleted doc) t = (r, t')) : r = .ok () ∧ p.Marked name doc t t' := by
  obtain ⟨husable, content, text, hentry, -, hdoc⟩ := (load_eq_some h.tidy h.within hn).1 hload
  obtain ⟨hcanonical, hordered⟩ := StackDoc.canonical_of_parse? hdoc
  obtain ⟨t₁, hrun, ht', hsets⟩ := save_of_document h hn husable hentry (undeleted doc)
  rw [hsave] at hrun
  cases hrun
  have hstored : p.Stored t' name (undeleted doc) := by
    refine ⟨husable, ?_⟩
    rw [hsets.work, hsets.entry, if_pos rfl]
  obtain ⟨template, hload', hback⟩ := exists_load ht' (hsets.work.symm ▸ h.within) hn hstored
    hordered hcanonical (show doc.template.nesting < _ from StackDoc.nesting_of_parse? hdoc)
  exact ⟨rfl, exists_of_anyFilled hfilled, ⟨_, hload', rfl, rfl, hback⟩, hsets⟩

/-- What deleting a stack comes to if it is all or nothing: it fails and changes nothing, there was no
such stack, the stack is gone with the buckets that it recorded, or it is marked and all of its
buckets are as they were. -/
inductive Whole (p : StackProvider) (name : String) (t : FileTree) :
    Except ProviderError Unit → FileTree → Prop where
  | failed (e : ProviderError) : Whole p name t (.error e) t
  | missing (hload : p.load t name = .ok none) : Whole p name t (.ok ()) t
  | gone {t' : FileTree} (doc : StackDoc) (hload : p.load t name = .ok (some doc))
    (hgone : p.Gone name doc t t') : Whole p name t (.ok ()) t'
  | marked {t' : FileTree} (doc : StackDoc) (hload : p.load t name = .ok (some doc))
    (hmarked : p.Marked name doc t t') : Whole p name t (.ok ()) t'

theorem Housed.whole (h : p.Housed top t) (hn : Contained name) {r : Except ProviderError Unit}
    (hrun : p.delete name t = (r, t')) : p.Whole name t r t' := by
  rcases delete_cases hrun with ⟨rfl, hnone⟩ | ⟨doc, hload, hremoves⟩
  · cases r with
    | error e => exact .failed e
    | ok done => exact .missing (hnone rfl)
  cases hremoves with
  | filled hfilled hsave =>
    obtain ⟨rfl, hmarked⟩ := h.marked_of_filled hn hload hfilled hsave
    exact .marked doc hload hmarked
  | stuck hempty hbuckets =>
    obtain ⟨t₁, hdone, -⟩ := deleteBuckets_of_empty h (anyFilled_eq_false.1 hempty)
    rw [hbuckets] at hdone
    cases hdone
  | emptied hempty hbuckets hremove hdone =>
    obtain ⟨hok, hgone⟩ := h.gone_of_empty hn hload hempty hbuckets hremove
    rw [hdone.2 hok]
    exact .gone doc hload hgone

/-- Deleting a stack that lies among the stacks is all or nothing. -/
theorem delete_all_or_nothing (h : p.Housed top t) (hn : Contained name) :
    p.Whole name t (p.delete name t).1 (p.delete name t).2 :=
  h.whole hn (Prod.eta _).symm

/-- A stack whose buckets were empty has gone, -/
theorem Whole.gone_of_empty (h : p.Whole name t (.ok ()) t') (hload : p.load t name = .ok (some doc))
    (hempty : p.anyFilled t (TextMap.values doc.buckets) = .ok false) : p.Gone name doc t t' := by
  cases h with
  | missing hnone =>
    rw [hload] at hnone
    cases hnone
  | gone doc' hload' hgone =>
    rw [hload] at hload'
    cases hload'
    exact hgone
  | marked doc' hload' hmarked =>
    rw [hload] at hload'
    cases hload'
    obtain ⟨b, hb, hexists, hfilled⟩ := hmarked.filled
    rw [anyFilled_eq_false.1 hempty b hb hexists] at hfilled
    cases hfilled

/-- and one of which a bucket was filled is marked. -/
theorem Whole.marked_of_filled (h : p.Whole name t (.ok ()) t')
    (hload : p.load t name = .ok (some doc))
    (hfilled : p.anyFilled t (TextMap.values doc.buckets) = .ok true) :
    p.Marked name doc t t' := by
  cases h with
  | missing hnone =>
    rw [hload] at hnone
    cases hnone
  | gone doc' hload' hgone =>
    rw [hload] at hload'
    cases hload'
    rw [anyFilled_eq_false.2 hgone.empty] at hfilled
    cases hfilled
  | marked doc' hload' hmarked =>
    rw [hload] at hload'
    cases hload'
    exact hmarked

namespace Sample

/-- The disk with a stack and its bucket. -/
def single : FileTree := provider.after (.stack (.create "s" template)) .empty

/-- The disk with an object in the bucket. -/
def laden : FileTree := provider.after (.store (.call (.put "s-b" "k" .empty))) single

theorem reached_single : provider.Reached ["cloud"] (fun _ _ => True) single :=
  .step (.start vacant) (.stack (.create "s" template)) (fun _ h => by cases h; decide) trivial

theorem reached_laden : provider.Reached ["cloud"] (fun _ _ => True) laden :=
  .step reached_single (.store (.call (.put "s-b" "k" .empty))) trivial trivial

theorem single_spec : holdsLasting "s" template [("B", "s-b")] = true ∧
    (provider.create "s" template .empty).1.toOption = some .created ∧
    (provider.anyFilled single ["s-b"]).toOption = some false ∧
    (provider.anyFilled laden ["s-b"]).toOption = some true := by
  decide +kernel

theorem create_single : provider.create "s" template .empty = (.ok .created, single) :=
  create_eq single_spec.2.1

/-- What the disk has of the stack. -/
theorem load_single : ∃ value,
    provider.load single "s" = .ok (some (created value [("B", "s-b")])) := by
  obtain ⟨value, hparse, hlasting⟩ := exists_lasting single_spec.1
  exact ⟨value, vacant.orderly.load_of_create (by decide) hparse hlasting create_single⟩

/-- Storing an object leaves the stack alone. -/
theorem load_laden : ∃ value,
    provider.load laden "s" = .ok (some (created value [("B", "s-b")])) := by
  obtain ⟨value, hload⟩ := load_single
  have hsame : provider.load laden "s" = provider.load single "s" :=
    reached_single.orderly.load_of_act (by decide) (a := .call (.put "s-b" "k" .empty)) trivial
  exact ⟨value, hsame.trans hload⟩

/-- The stack of the disk goes when it is deleted. -/
theorem delete_single : ∃ t', provider.delete "s" single = (.ok (), t') ∧
    provider.load t' "s" = .ok none := by
  obtain ⟨value, hload⟩ := load_single
  obtain ⟨t', hdone, hgone⟩ := reached_single.orderly.housed.delete_of_empty
    (contained_of_simple (by decide)) hload (ok_of_toOption single_spec.2.2.1)
  exact ⟨t', hdone, hgone.document⟩

end Sample

/-- A stack whose bucket is empty goes, and one whose bucket holds an object stays. -/
theorem delete_all_or_nothing_sample :
    (∃ doc, Sample.provider.load Sample.single "s" = .ok (some doc) ∧
      Sample.provider.Gone "s" doc Sample.single (Sample.provider.delete "s" Sample.single).2) ∧
    ∃ doc, Sample.provider.load Sample.laden "s" = .ok (some doc) ∧
      Sample.provider.Marked "s" doc Sample.laden (Sample.provider.delete "s" Sample.laden).2 := by
  have hn : Contained "s" := contained_of_simple (by decide)
  have hhoused := Sample.reached_laden.orderly.housed
  have hwhole := delete_all_or_nothing Sample.reached_single.orderly.housed hn
  have hwhole' := delete_all_or_nothing hhoused hn
  obtain ⟨value, hload⟩ := Sample.load_single
  obtain ⟨value', hload'⟩ := Sample.load_laden
  obtain ⟨t', hdone, -⟩ := Sample.delete_single
  have hempty := ok_of_toOption Sample.single_spec.2.2.1
  have hfilled := ok_of_toOption Sample.single_spec.2.2.2
  -- a stack with a filled bucket is saved anew, which succeeds
  obtain ⟨hdone', -⟩ := hhoused.marked_of_filled hn hload' hfilled (Prod.eta _).symm
  rw [hdone] at hwhole ⊢
  rw [delete_of_filled hload' hfilled, hdone'] at hwhole'
  rw [delete_of_filled hload' hfilled]
  exact ⟨⟨_, hload, hwhole.gone_of_empty hload hempty⟩,
    ⟨_, hload', hwhole'.marked_of_filled hload' hfilled⟩⟩

namespace Sample

/-- A template of a bucket with a name of its own. -/
def boxed (bucket : String) : String :=
  "\x7b\"Resources\":\x7b\"B\":\x7b\"Type\":\"AWS::S3::Bucket\"," ++
    "\"Properties\":\x7b\"BucketName\":\"" ++ bucket ++ "\"\x7d\x7d\x7d\x7d"

/-- The disk with a stack whose document is the index of its own bucket. -/
def entangled : FileTree := (provider.create "../buckets/x/index" (boxed "x") single).2

theorem entangled_spec :
    (provider.delete "../buckets/x/index" entangled).1.toOption = none ∧
      provider.objects.bucketExists entangled "x" = true ∧
      provider.objects.bucketExists (provider.delete "../buckets/x/index" entangled).2 "x" = false := by
  decide +kernel

end Sample

/-- A stack whose name leads out of the stacks can be deleted by half: its bucket goes, and with it its
document, which is then missed. -/
theorem deleted_by_half : (Sample.provider.delete "../buckets/x/index" Sample.entangled).1 ≠ .ok () ∧
    (Sample.provider.delete "../buckets/x/index" Sample.entangled).2 ≠ Sample.entangled := by
  obtain ⟨hfails, hbefore, hafter⟩ := Sample.entangled_spec
  constructor
  · intro hok
    rw [hok] at hfails
    cases hfails
  · intro hsame
    rw [hsame, hbefore] at hafter
    cases hafter

end StackProvider

end Rollout
