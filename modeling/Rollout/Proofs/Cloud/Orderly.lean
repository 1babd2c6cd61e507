import Rollout.Proofs.Cloud.StackCalls

/-!
Clouds in order. In a cloud that came about by calls alone, every document among the stacks is the
one that was last saved for its stack. A call about a stack changes the document of that stack and
the buckets that it declares or has, and nothing else.
-/

namespace Rollout

open FileTree Outcome

/-! ## What can be done to a cloud -/

/-- Something that is done to a cloud: to its store or to its stacks. -/
inductive CloudAction where
  | store (a : StoreAction)
  | stack (c : StackCall)

/-- The stack a call is about. -/
def StackCall.name? : StackCall → Option String
  | .create name _ | .update name _ | .delete name | .status name => some name
  | .listExports _ => none

/-- A name of one part: no slash is in it. -/
def SimpleName (name : String) : Prop := '/' ∉ name.toList

instance (name : String) : Decidable (SimpleName name) := inferInstanceAs (Decidable (_ ∉ _))

/-- Stacks have simple names. -/
def CloudAction.Simple : CloudAction → Prop
  | .store _ => True
  | .stack c => ∀ name, c.name? = some name → SimpleName name

namespace StackProvider

variable {p : StackProvider} {t t' : FileTree} {top work l : Location} {name name' bucket : String}
  {doc : StackDoc} {B : String → Prop}

/-- The disk after an action. -/
def after (p : StackProvider) : CloudAction → FileTree → FileTree
  | .store a, t => (p.objects.act a t).2
  | .stack c, t => (p.answer c t).2

theorem after_stack (c : StackCall) (t : FileTree) : p.after (.stack c) t = (p.answer c t).2 := rfl

/-! ## Places -/

/-- Where the documents of the stacks are. -/
def stacksPlace (p : StackProvider) (work : Location) : Location := p.root.place work ++ ["stacks"]

theorem contained_of_simple (h : SimpleName name) : Contained name :=
  .of_isEntry (isEntry_document h)

theorem stackPlace_of_simple (work : Location) (h : SimpleName name) :
    p.stackPlace work name = p.stacksPlace work ++ [name ++ documentEnding] := by
  rw [stackPlace_eq work (contained_of_simple h), (isEntry_document h).names_ofString, stacksPlace,
    List.append_assoc]
  rfl

theorem name_eq_of_stackPlace (hn : SimpleName name) (hn' : SimpleName name')
    (h : p.stackPlace work name = p.stackPlace work name') : name = name' := by
  rw [stackPlace_of_simple work hn, stackPlace_of_simple work hn'] at h
  simpa [String.append_left_inj] using h

/-- What can be changed for a stack: its document, and buckets. -/
def Sphere (p : StackProvider) (work : Location) (name : String) (B : String → Prop)
    (l : Location) : Prop :=
  l = p.stackPlace work name ∨ ∃ b, B b ∧ l = p.objects.bucketPlace work b

theorem stacksPlace_above (work : Location) (h : SimpleName name) :
    p.stacksPlace work <+: p.stackPlace work name := by
  rw [stackPlace_of_simple work h]
  exact List.prefix_append _ _

/-- Buckets lie beside the stacks. -/
theorem beside_bucket (hroot : p.objects.root = p.root) (hl : p.stacksPlace work <+: l)
    (b : String) :
    ¬p.objects.bucketPlace work b <+: l ∧ ¬l <+: p.objects.bucketPlace work b := by
  have hb : p.root.place work ++ ["buckets"] <+: p.objects.bucketPlace work b := by
    rw [ObjectStore.bucketPlace_eq, ObjectStore.bucketsPlace, hroot]
    exact List.prefix_append _ _
  exact beside_of_ne (by decide) hb hl

/-- The documents of other stacks are out of reach of what is changed for a stack, -/
theorem beside_sphere_stack (hroot : p.objects.root = p.root) (hn : SimpleName name)
    (hn' : SimpleName name') (hne : name' ≠ name) :
    ∀ s, p.Sphere work name B s →
      ¬s <+: p.stackPlace work name' ∧ ¬p.stackPlace work name' <+: s := by
  rintro s (rfl | ⟨b, -, rfl⟩)
  · have hfile : name ++ documentEnding ≠ name' ++ documentEnding := by
      rw [Ne, String.append_left_inj]
      exact hne.symm
    rw [stackPlace_of_simple work hn, stackPlace_of_simple work hn']
    exact beside_of_ne hfile List.prefix_rfl List.prefix_rfl
  · exact beside_bucket hroot (stacksPlace_above work hn') b

/-- and so are other buckets. -/
theorem beside_sphere_bucket (hroot : p.objects.root = p.root) (hn : SimpleName name)
    (hb : ¬B bucket) (hl : p.objects.bucketPlace work bucket <+: l) :
    ∀ s, p.Sphere work name B s → ¬s <+: l ∧ ¬l <+: s := by
  rintro s (rfl | ⟨b, hB, rfl⟩)
  · obtain ⟨hdown, hup⟩ :=
      beside_bucket hroot (stacksPlace_above (p := p) work hn) bucket
    refine ⟨fun h => ?_, fun h => hdown (hl.trans h)⟩
    rcases List.prefix_or_prefix_of_prefix hl h with h | h
    · exact hdown h
    · exact hup h
  · have hne : b ≠ bucket := by
      rintro rfl
      exact hb hB
    rw [ObjectStore.bucketPlace_eq] at hl
    refine beside_of_ne hne ?_ hl
    rw [ObjectStore.bucketPlace_eq]

/-! ## Order -/

/-- A cloud in order: the store is steady, the run is in none of its buckets, and every document
is one that was saved for its stack. -/
structure Orderly (p : StackProvider) (top : Location) (t : FileTree) : Prop where
  steady : p.objects.Steady top t
  root : p.objects.root = p.root
  outside : ¬p.objects.bucketsPlace t.workDir <+: t.workDir
  documents : ∀ l, p.stacksPlace t.workDir <+: l → l ≠ p.stacksPlace t.workDir →
    t.entry? l ≠ none → ∃ name doc, SimpleName name ∧ l = p.stackPlace t.workDir name ∧
      doc.buckets.Ordered ∧ p.Stored t name doc

namespace Orderly

theorem within (h : p.Orderly top t) : Within t.workDir top p.root := h.root ▸ h.steady.within

theorem tidy (h : p.Orderly top t) : t.Tidy top := h.steady.tidy

theorem settled (h : p.Orderly top t) : p.objects.Settled top t := ⟨h.steady, h.outside⟩

/-- Order is kept if documents only go or are saved. -/
theorem of_documents (h : p.Orderly top t) (hs : p.objects.Steady top t')
    (hwork : t'.workDir = t.workDir)
    (hdocuments : ∀ l, p.stacksPlace t.workDir <+: l → l ≠ p.stacksPlace t.workDir →
      t'.entry? l ≠ none → t'.entry? l = t.entry? l ∨
        ∃ name doc, SimpleName name ∧ l = p.stackPlace t.workDir name ∧
          doc.buckets.Ordered ∧ p.Stored t' name doc) : p.Orderly top t' where
  steady := hs
  root := h.root
  outside := hwork ▸ h.outside
  documents l hl hne hsome := by
    rw [hwork] at hl hne ⊢
    rcases hdocuments l hl hne hsome with hsame | hsaved
    · rw [hsame] at hsome
      obtain ⟨name, doc, hn, rfl, hordered, husable, hentry⟩ := h.documents l hl hne hsome
      exact ⟨name, doc, hn, rfl, hordered, husable, by rw [hwork, hsame, hentry]⟩
    · exact hsaved

/-- What is done to a bucket leaves a cloud in order. -/
theorem of_lessened (h : p.Orderly top t) (hs : p.objects.Steady top t')
    (hl : p.objects.Lessened bucket t t') : p.Orderly top t' := by
  obtain ⟨t₁, haround, hpruned⟩ := hl
  refine h.of_documents hs (hpruned.work.trans haround.work) fun l hl _ hsome => .inl ?_
  have hbeside := haround.entry l fun s hs => by
    rw [hs]
    exact beside_bucket h.root hl bucket
  rcases hpruned.entry l with hsame | ⟨-, hnone⟩
  · rw [hsame, hbeside]
  · exact absurd hnone hsome

theorem after_store (h : p.Orderly top t) (a : StoreAction) :
    p.Orderly top (p.after (.store a) t) := by
  obtain ⟨hs, hl⟩ := h.settled.act a
  exact h.of_lessened hs hl

end Orderly

/-! ## Saving -/

/-- A document is saved, or nothing changes but on the way to it. -/
theorem save_cases (h : p.Orderly top t) (hn : SimpleName name) (hd : doc.buckets.Ordered)
    {r : Except ProviderError Unit} (hrun : p.save name doc t = (r, t')) :
    p.Orderly top t' ∧ Around (· = p.stackPlace t.workDir name) t t' ∧
      (r = .ok () → p.Stored t' name doc) ∧
      (r ≠ .ok () → t'.entry? (p.stackPlace t.workDir name) =
        t.entry? (p.stackPlace t.workDir name)) := by
  have hcontained := contained_of_simple hn
  obtain ⟨hquiet, hstored⟩ := @save_spec p t top name doc h.steady h.root hcontained
  have hkept := hquiet r t' hrun
  obtain ⟨r', hreplace, hok⟩ := mapError_eq hrun
  obtain ⟨hconfined, hpaved⟩ :=
    Effect.replace_confined h.tidy (below_stack h.within hcontained) hreplace
  have hsaved (hr : r = .ok ()) : p.Stored t' name doc := by
    subst hr
    exact hstored t' hrun
  have hunsaved (hr : r ≠ .ok ()) : t'.entry? (p.stackPlace t.workDir name) =
      t.entry? (p.stackPlace t.workDir name) := by
    have hfails : r' ≠ .ok () := by
      rintro rfl
      cases r with
      | ok _ => exact hr rfl
      | error e =>
        simp only [StackProvider.save, Disk.mapError, hreplace] at hrun
        cases hrun
    refine (hpaved hfails).entry _ fun hway => ?_
    have hlength : (p.stackPlace t.workDir name).length ≤
        (p.stackPlace t.workDir name).dropLast.length := hway.length_le
    simp [stackPlace_of_simple _ hn] at hlength
  refine ⟨h.of_documents hkept.steady hkept.touched.work fun l hl hne hsome => ?_,
    hconfined.around, hsaved, hunsaved⟩
  by_cases hway : l <+: p.stackPlace t.workDir name
  · -- of the locations on the way to the document, only its own lies among the documents
    have heq : l = p.stackPlace t.workDir name := by
      rw [stackPlace_of_simple _ hn, List.prefix_concat_iff] at hway
      rcases hway with heq | hway
      · rw [heq, stackPlace_of_simple _ hn]
      · exact absurd (hl.eq_of_length_le hway.length_le).symm hne
    subst heq
    by_cases hr : r = .ok ()
    · exact .inr ⟨name, doc, hn, rfl, hd, hsaved hr⟩
    · exact .inl (hunsaved hr)
  · exact .inl (hconfined.entry l hway)

/-! ## Calls -/

/-- The buckets that a call about a stack can change: those its template declares, or those the
stack has that is deleted. -/
def Reaches (p : StackProvider) (t : FileTree) : StackCall → String → Prop
  | .create name body, b => ∃ template, Template.parse (some body) = .ok template ∧
    ∃ spec ∈ Template.buckets name template, spec.physical = b
  | .update name url, b => ∃ template, p.Fetches t url template ∧
    ∃ spec ∈ Template.buckets name template, spec.physical = b
  | .delete name, b => ∃ doc, p.load t name = .ok (some doc) ∧ b ∈ TextMap.values doc.buckets
  | _, _ => False

/-- Provisioning changes the declared buckets. -/
theorem provision_around (specs : List BucketSpec) (h : p.objects.Steady top t)
    {r : Except ProviderError (List (String × String))} (hrun : p.provision specs t = (r, t')) :
    Around (fun l => ∃ spec ∈ specs, l = p.objects.bucketPlace t.workDir spec.physical) t t' := by
  have hstep {spec : BucketSpec} (hspec : spec ∈ specs) {t₁ t₂ : FileTree}
      (hwork : t₁.workDir = t.workDir)
      (haround : Around (· = p.objects.bucketPlace t₁.workDir spec.physical) t₁ t₂) :
      t₂.workDir = t.workDir ∧
        Around (fun l => ∃ spec ∈ specs, l = p.objects.bucketPlace t.workDir spec.physical)
          t₁ t₂ := by
    refine ⟨haround.work.trans hwork, haround.mono ?_⟩
    rintro s rfl
    exact ⟨_, ⟨spec, hspec, by rw [hwork]⟩, List.prefix_rfl⟩
  refine (provision_induction
    (R := fun t₁ t₂ => t₁.workDir = t.workDir → t₂.workDir = t.workDir ∧
      Around (fun l => ∃ spec ∈ specs, l = p.objects.bucketPlace t.workDir spec.physical) t₁ t₂)
    (fun t₁ hwork => ⟨hwork, .refl ..⟩) ?_ specs ?_ ?_ h hrun rfl).2
  · intro t₁ t₂ t₃ h₁ h₂ hwork
    obtain ⟨hwork₂, haround⟩ := h₁ hwork
    obtain ⟨hwork₃, haround'⟩ := h₂ hwork₂
    exact ⟨hwork₃, haround.trans haround'⟩
  · intro spec hspec t₁ r t₂ h₁ hcreate hwork
    refine hstep hspec hwork ?_
    have haround := h₁.createBucket_around spec.physical
    rwa [hcreate] at haround
  · intro spec hspec _ t₁ r t₂ h₁ hversions hwork
    refine hstep hspec hwork ?_
    have haround := h₁.enableVersioning_around spec.physical
    rwa [hversions] at haround

/-- Deleting buckets changes those. -/
theorem deleteBuckets_around (buckets : List String) (h : p.objects.Settled top t)
    {r : Except ProviderError Unit} (hrun : p.deleteBuckets buckets t = (r, t')) :
    p.objects.Steady top t' ∧
      Around (fun l => ∃ b ∈ buckets, l = p.objects.bucketPlace t.workDir b) t t' := by
  have hall := deleteBuckets_induction
    (R := fun t₁ t₂ => p.objects.Steady top t₁ ∧ t₁.workDir = t.workDir →
      (p.objects.Steady top t₂ ∧ t₂.workDir = t.workDir) ∧
        Around (fun l => ∃ b ∈ buckets, l = p.objects.bucketPlace t.workDir b) t₁ t₂)
    (fun t₁ h₁ => ⟨h₁, .refl ..⟩)
    (fun t₁ t₂ t₃ h₁ h₂ hsteady => by
      obtain ⟨hsteady₂, haround⟩ := h₁ hsteady
      obtain ⟨hsteady₃, haround'⟩ := h₂ hsteady₂
      exact ⟨hsteady₃, haround.trans haround'⟩) buckets
    (fun b hb t₁ r t₂ h₁ hdelete hsteady => by
      have haround := h₁.act_around (a := .call (.deleteBucket b)) trivial
      have hsteady₂ := (h₁.act (.call (.deleteBucket b))).1
      rw [show p.objects.act (.call (.deleteBucket b)) t₁ = (r, t₂) from hdelete]
        at haround hsteady₂
      refine ⟨⟨hsteady₂, haround.work.trans hsteady.2⟩, haround.mono ?_⟩
      rintro s rfl
      exact ⟨_, ⟨b, hb, by rw [hsteady.2]; rfl⟩, List.prefix_rfl⟩) h hrun
  obtain ⟨⟨hsteady, -⟩, haround⟩ := hall ⟨h.steady, rfl⟩
  exact ⟨hsteady, haround⟩

/-- Changes to buckets leave a cloud in order. -/
theorem Orderly.of_around (h : p.Orderly top t) (hs : p.objects.Steady top t')
    {S : Location → Prop} (haround : Around S t t')
    (hS : ∀ l, S l → ∃ b, l = p.objects.bucketPlace t.workDir b) : p.Orderly top t' := by
  refine h.of_documents hs haround.work fun l hl _ _ => .inl (haround.entry l fun s hs => ?_)
  obtain ⟨b, rfl⟩ := hS s hs
  exact beside_bucket h.root hl b

theorem Orderly.of_provision (h : p.Orderly top t) {specs : List BucketSpec}
    {r : Except ProviderError (List (String × String))} (hrun : p.provision specs t = (r, t')) :
    p.Orderly top t' :=
  h.of_around (provision_spec _ h.steady _ _ hrun).steady (provision_around _ h.steady hrun)
    fun _ ⟨_, _, hl⟩ => ⟨_, hl⟩

/-- A stack that gets a document leaves the cloud in order, and all but itself as it was. -/
theorem Settles.frame {template : Json} {failed : StackDoc}
    {done : List (String × String) → StackDoc} {r : Except ProviderError Unit}
    (hs : p.Settles name template failed done t r t') (h : p.Orderly top t) (hn : SimpleName name)
    (hfailed : failed.buckets.Ordered) (hdone : ∀ buckets, (done buckets).buckets.Ordered) :
    p.Orderly top t' ∧
      Around (p.Sphere t.workDir name
        fun b => ∃ spec ∈ Template.buckets name template, spec.physical = b) t t' := by
  have hprovisioned {r : Except ProviderError (List (String × String))} {t₁ : FileTree}
      (hrun : p.provision (Template.buckets name template) t = (r, t₁)) :
      p.Orderly top t₁ ∧ Around (p.Sphere t.workDir name
        fun b => ∃ spec ∈ Template.buckets name template, spec.physical = b) t t₁ := by
    have haround := provision_around _ h.steady hrun
    refine ⟨h.of_provision hrun, haround.mono ?_⟩
    · rintro l ⟨spec, hspec, rfl⟩
      exact ⟨_, .inr ⟨_, ⟨spec, hspec, rfl⟩, rfl⟩, List.prefix_rfl⟩
  have hsaved {t₁ t₂ : FileTree} {doc : StackDoc} {r : Except ProviderError Unit}
      (h₁ : p.Orderly top t₁) (hd : doc.buckets.Ordered) (hwork : t₁.workDir = t.workDir)
      (hrun : p.save name doc t₁ = (r, t₂)) :
      p.Orderly top t₂ ∧ Around (p.Sphere t.workDir name
        fun b => ∃ spec ∈ Template.buckets name template, spec.physical = b) t₁ t₂ := by
    obtain ⟨horderly, haround, -⟩ := save_cases h₁ hn hd hrun
    refine ⟨horderly, haround.mono ?_⟩
    rintro l rfl
    exact ⟨_, .inl (by rw [hwork]), List.prefix_rfl⟩
  cases hs with
  | failing _ hsave => exact hsaved h hfailed rfl hsave
  | stuck _ hprovision => exact hprovisioned hprovision
  | provisioned _ hprovision hsave =>
    obtain ⟨h₁, haround⟩ := hprovisioned hprovision
    obtain ⟨h', haround'⟩ := hsaved h₁ (hdone _) haround.work hsave
    exact ⟨h', haround.trans haround'⟩

/-- What is in place of a stack that got a document. -/
theorem Settles.stored {template : Json} {failed : StackDoc}
    {done : List (String × String) → StackDoc}
    (hs : p.Settles name template failed done t (.ok ()) t') (h : p.Orderly top t)
    (hn : SimpleName name) (hfailed : failed.buckets.Ordered)
    (hdone : ∀ buckets, (done buckets).buckets.Ordered) :
    (Template.requestsFailure template = true ∧ p.Stored t' name failed) ∨
      (Template.requestsFailure template = false ∧ p.Stored t' name
        (done ((Template.buckets name template).map fun spec => (spec.logical, spec.physical)))) := by
  cases hs with
  | failing hfails hsave => exact .inl ⟨hfails, (save_cases h hn hfailed hsave).2.2.1 rfl⟩
  | provisioned hfails hprovision hsave =>
    have h₁ := h.of_provision hprovision
    obtain rfl := eq_of_provision _ hprovision
    exact .inr ⟨hfails, (save_cases h₁ hn (hdone _) hsave).2.2.1 rfl⟩

/-- A stack that could not get its document has the one it had, and so has every other. -/
theorem Settles.entry_of_error {template : Json} {failed : StackDoc}
    {done : List (String × String) → StackDoc} {e : ProviderError}
    (hs : p.Settles name template failed done t (.error e) t') (h : p.Orderly top t)
    (hn : SimpleName name) (hfailed : failed.buckets.Ordered)
    (hdone : ∀ buckets, (done buckets).buckets.Ordered) (other : String)
    (hother : SimpleName other) : t'.entry? (p.stackPlace t.workDir other) =
      t.entry? (p.stackPlace t.workDir other) := by
  have hprovisioned {r : Except ProviderError (List (String × String))} {t₁ : FileTree}
      (hrun : p.provision (Template.buckets name template) t = (r, t₁)) :
      p.Orderly top t₁ ∧ t₁.workDir = t.workDir ∧
        t₁.entry? (p.stackPlace t.workDir other) = t.entry? (p.stackPlace t.workDir other) := by
    have haround := provision_around _ h.steady hrun
    refine ⟨h.of_provision hrun, haround.work, haround.entry _ ?_⟩
    rintro spot ⟨spec, -, rfl⟩
    exact beside_bucket h.root (stacksPlace_above _ hother) _
  have hunsaved {t₁ : FileTree} (h₁ : p.Orderly top t₁) {doc : StackDoc}
      (hd : doc.buckets.Ordered) (hrun : p.save name doc t₁ = (.error e, t')) :
      t'.entry? (p.stackPlace t₁.workDir other) = t₁.entry? (p.stackPlace t₁.workDir other) := by
    obtain ⟨-, haround, -, hsame⟩ := save_cases h₁ hn hd hrun
    by_cases heq : other = name
    · exact heq ▸ hsame nofun
    · refine haround.entry _ fun spot hspot => ?_
      exact beside_sphere_stack (B := fun _ => False) h₁.root hn hother heq spot (.inl hspot)
  cases hs with
  | failing _ hsave => exact hunsaved h hfailed hsave
  | stuck _ hprovision => exact (hprovisioned hprovision).2.2
  | provisioned _ hprovision hsave =>
    obtain ⟨h₁, hwork, hsame⟩ := hprovisioned hprovision
    have hlast := hunsaved h₁ (hdone _) hsave
    rw [hwork] at hlast
    exact hlast.trans hsame

/-- A document is taken away, or nothing changes. -/
theorem remove_cases (h : p.Orderly top t) (hn : SimpleName name) {r : Except FileError Unit}
    (hrun : (Effect.remove (p.stackPath name)).perform t = (r, t')) :
    p.Orderly top t' ∧ Pruned (· = p.stackPlace t.workDir name) t t' ∧
      (r = .ok () → t'.entry? (p.stackPlace t.workDir name) = none) := by
  have hbelow := below_stack h.within (contained_of_simple hn)
  obtain ⟨htidy, hpruned, hnone⟩ := Effect.remove_spec h.tidy hbelow hrun
  refine ⟨h.of_documents (h.steady.of_pruned htidy hpruned) hpruned.work fun l _ _ hsome =>
    .inl ?_, hpruned, hnone⟩
  exact (hpruned.entry l).resolve_right fun hgone => hsome hgone.2

/-- A stack that is deleted leaves the cloud in order, and all but itself as it was. -/
theorem Removes.frame {r : Except ProviderError Unit} (hr : p.Removes name doc t r t')
    (h : p.Orderly top t) (hn : SimpleName name) (hd : doc.buckets.Ordered) :
    p.Orderly top t' ∧
      Around (p.Sphere t.workDir name (· ∈ TextMap.values doc.buckets)) t t' := by
  have hdeleted {r : Except ProviderError Unit} {t₁ : FileTree}
      (hrun : p.deleteBuckets (TextMap.values doc.buckets) t = (r, t₁)) :
      p.Orderly top t₁ ∧
        Around (p.Sphere t.workDir name (· ∈ TextMap.values doc.buckets)) t t₁ := by
    obtain ⟨hsteady, haround⟩ := deleteBuckets_around _ h.settled hrun
    refine ⟨h.of_around hsteady haround ?_, haround.mono ?_⟩
    · rintro l ⟨b, -, rfl⟩
      exact ⟨b, rfl⟩
    · rintro l ⟨b, hb, rfl⟩
      exact ⟨_, .inr ⟨b, hb, rfl⟩, List.prefix_rfl⟩
  cases hr with
  | filled _ hsave =>
    obtain ⟨h', haround, -⟩ := save_cases h hn (show (undeleted doc).buckets.Ordered from hd) hsave
    refine ⟨h', haround.mono ?_⟩
    rintro l rfl
    exact ⟨_, .inl rfl, List.prefix_rfl⟩
  | stuck _ hbuckets => exact hdeleted hbuckets
  | emptied _ hbuckets hremove _ =>
    obtain ⟨h₁, haround⟩ := hdeleted hbuckets
    obtain ⟨h', hpruned, -⟩ := remove_cases h₁ hn hremove
    refine ⟨h', haround.trans ⟨hpruned.work, fun l hl => hpruned.same ?_⟩⟩
    rintro rfl
    exact (hl _ (.inl (by rw [haround.work]))).1 List.prefix_rfl

/-- What was loaded of a stack has its buckets in order. -/
theorem Orderly.canonical_of_load (h : p.Orderly top t) (hn : SimpleName name)
    (hload : p.load t name = .ok (some doc)) : doc.template.Canonical ∧ doc.buckets.Ordered := by
  obtain ⟨-, content, text, -, -, hdoc⟩ :=
    (load_eq_some h.tidy h.within (contained_of_simple hn)).1 hload
  exact StackDoc.canonical_of_parse? hdoc

/-- Its template leaves a level of nesting. -/
theorem Orderly.nesting_of_load (h : p.Orderly top t) (hn : SimpleName name)
    (hload : p.load t name = .ok (some doc)) : doc.template.nesting < Json.nestingLimit := by
  obtain ⟨-, content, text, -, -, hdoc⟩ :=
    (load_eq_some h.tidy h.within (contained_of_simple hn)).1 hload
  exact StackDoc.nesting_of_parse? hdoc

theorem Orderly.load_of_missing (h : p.Orderly top t) (hn : SimpleName name)
    (hnone : t.entry? (p.stackPlace t.workDir name) = none) : p.load t name = .ok none :=
  load_of_absent h.tidy h.within (contained_of_simple hn) hnone

/-- A call about a stack leaves the cloud in order, and all but that stack as it was. -/
theorem Orderly.answer (h : p.Orderly top t) (c : StackCall)
    (hc : ∀ name, c.name? = some name → SimpleName name) :
    p.Orderly top (p.answer c t).2 ∧ ∀ name, c.name? = some name →
      Around (p.Sphere t.workDir name (p.Reaches t c)) t (p.answer c t).2 := by
  have hstays (hsame : (p.answer c t).2 = t) :
      p.Orderly top (p.answer c t).2 ∧ ∀ name, c.name? = some name →
        Around (p.Sphere t.workDir name (p.Reaches t c)) t (p.answer c t).2 :=
    hsame.symm ▸ ⟨h, fun _ _ => .refl ..⟩
  have hwider {name : String} {B : String → Prop} (hname : c.name? = some name)
      (hB : ∀ b, B b → p.Reaches t c b)
      (hframe : p.Orderly top (p.answer c t).2 ∧
        Around (p.Sphere t.workDir name B) t (p.answer c t).2) :
      p.Orderly top (p.answer c t).2 ∧ ∀ name, c.name? = some name →
        Around (p.Sphere t.workDir name (p.Reaches t c)) t (p.answer c t).2 := by
    refine ⟨hframe.1, fun name' hname' => hframe.2.mono fun l hl => ⟨l, ?_, List.prefix_rfl⟩⟩
    rw [hname, Option.some.injEq] at hname'
    exact hname' ▸ hl.imp id fun ⟨b, hb, hl⟩ => ⟨b, hB b hb, hl⟩
  cases c with
  | create name body =>
    rcases create_cases (Prod.eta (p.create name body t)).symm with
      ⟨hsame, -⟩ | ⟨template, r, -, hparse, hsettles, -⟩
    · exact hstays hsame
    · exact hwider rfl (fun b hb => ⟨template, hparse, hb⟩)
        (hsettles.frame h (hc name rfl) TextMap.Ordered.nil fun _ => TextMap.ordered_ofList _)
  | update name url =>
    rcases update_cases (Prod.eta (p.update name url t)).symm with
      ⟨hsame, -⟩ | ⟨doc, template, r, hload, hfetches, -, hsettles, -⟩
    · exact hstays hsame
    · have hordered := (h.canonical_of_load (hc name rfl) hload).2
      exact hwider rfl (fun b hb => ⟨template, hfetches, hb⟩)
        (hsettles.frame h (hc name rfl) hordered fun _ => hordered.union _)
  | delete name =>
    rcases delete_cases (Prod.eta (p.delete name t)).symm with
      ⟨hsame, -⟩ | ⟨doc, hload, hremoves⟩
    · exact hstays hsame
    · exact hwider rfl (fun b hb => ⟨doc, hload, hb⟩)
        (hremoves.frame h (hc name rfl) (h.canonical_of_load (hc name rfl) hload).2)
  | status name => exact hstays rfl
  | listExports token => exact hstays rfl

/-- Other stacks are loaded as before. -/
theorem Orderly.load_of_around (h : p.Orderly top t) (h' : p.Orderly top t')
    (haround : Around (p.Sphere t.workDir name B) t t') (hn : SimpleName name)
    (hn' : SimpleName name') (hne : name' ≠ name) : p.load t' name' = p.load t name' :=
  load_congr h.tidy h'.tidy h.within (contained_of_simple hn') haround.work
    (haround.entry _ (beside_sphere_stack h.root hn hn' hne))

/-! ## Reaching a cloud -/

/-- A disk without stacks and without buckets. -/
structure Vacant (p : StackProvider) (top : Location) (t : FileTree) : Prop where
  tidy : t.Tidy top
  within : Within t.workDir top p.root
  root : p.objects.root = p.root
  nothing : ∀ dir ∈ ["buckets", "stacks"], ∀ l, p.root.place t.workDir ++ [dir] <+: l →
    t.entry? l = none

/-- What a vacant disk becomes by actions, each of which is as `Q` allows it where it is done. -/
inductive Reached (p : StackProvider) (top : Location) (Q : FileTree → CloudAction → Prop) :
    FileTree → Prop where
  | start {t : FileTree} (h : p.Vacant top t) : Reached p top Q t
  | step {t : FileTree} (h : Reached p top Q t) (a : CloudAction) (ha : a.Simple) (hQ : Q t a) :
    Reached p top Q (p.after a t)

/-- Where there are no buckets, none has an index. -/
theorem Vacant.readIndex_ne (h : p.Vacant top t) (bucket : String) (found : Path × BucketIndex) :
    p.objects.readIndex t bucket ≠ .ok found := by
  intro hread
  have hin : Within t.workDir top p.objects.root := h.root.symm ▸ h.within
  obtain ⟨-, -, content, text, hentry, -, -⟩ := (ObjectStore.readIndex_eq_ok h.tidy hin).1 hread
  have hbelow : p.root.place t.workDir ++ ["buckets"] <+: p.objects.indexPlace t.workDir bucket := by
    refine List.IsPrefix.trans ?_ (ObjectStore.bucketPlace_prefix_index _)
    rw [ObjectStore.bucketPlace_eq, ObjectStore.bucketsPlace, h.root]
    exact List.prefix_append _ _
  rw [h.nothing "buckets" (by simp) _ hbelow] at hentry
  cases hentry

/-- There is room for any number of versions that can be counted. -/
theorem Vacant.room (h : p.Vacant top t) {n : Nat} (hn : n < UInt64.size) :
    p.objects.Room t n := ⟨hn, fun _ _ _ hread => absurd hread (h.readIndex_ne _ _)⟩

theorem Vacant.orderly (h : p.Vacant top t) : p.Orderly top t where
  steady :=
    { tidy := h.tidy
      within := h.root.symm ▸ h.within
      sound := fun _ _ _ hread => absurd hread (h.readIndex_ne _ _) }
  root := h.root
  outside hin := by
    have hnone := h.nothing "buckets" (by simp) t.workDir (h.root ▸ hin)
    rw [h.tidy.wf.work] at hnone
    cases hnone
  documents l hl _ hsome := absurd (h.nothing "stacks" (by simp) l hl) hsome

variable {Q : FileTree → CloudAction → Prop}

theorem Orderly.after (h : p.Orderly top t) (a : CloudAction) (ha : a.Simple) :
    p.Orderly top (p.after a t) := by
  cases a with
  | store a => exact h.after_store a
  | stack c => exact (h.answer c ha).1

/-- The run stays where it is. -/
theorem Orderly.work_after (h : p.Orderly top t) {a : CloudAction} (ha : a.Simple) :
    (p.after a t).workDir = t.workDir := by
  cases a with
  | store a =>
    obtain ⟨t₁, haround, hpruned⟩ := (h.settled.act a).2
    exact hpruned.work.trans haround.work
  | stack c =>
    cases hname : c.name? with
    | some name => exact ((h.answer c ha).2 name hname).work
    | none =>
      cases c with
      | listExports token => rfl
      | _ => cases hname

/-- A cloud that came about by calls is in order. -/
theorem Reached.orderly (h : p.Reached top Q t) : p.Orderly top t := by
  induction h with
  | start h => exact h.orderly
  | step _ a ha _ ih => exact ih.after a ha

namespace Sample

/-- A provider with two exports to a page, on an empty disk. -/
def provider : StackProvider := ⟨Path.ofString "/cloud", ObjectStore.Sample.store, 2⟩

theorem vacant : provider.Vacant ["cloud"] .empty where
  tidy := ObjectStore.Sample.fresh.tidy
  within := ObjectStore.Sample.fresh.within
  root := rfl
  nothing dir _ l hl := by
    cases l with
    | nil => exact absurd hl.length_le (by simp)
    | cons name l => rfl

end Sample

end StackProvider

end Rollout
