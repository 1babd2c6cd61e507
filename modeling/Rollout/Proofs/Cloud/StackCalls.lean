import Rollout.Proofs.Cloud.Steadiness

/-!
What the calls of a stack provider come to. A call that is refused does nothing. Any other gives
the stack a new document: one that says the call failed, if the template asks for that, or one with
the buckets that were provisioned before. Deleting a stack deletes its buckets before its document.
-/

namespace Rollout

open FileTree Outcome

namespace StackProvider

variable {p : StackProvider} {t t' : FileTree} {top : Location} {name body url : String}

/-! ## Templates -/

theorem canonical_of_parse {text : Option String} {template : Json}
    (h : Template.parse text = .ok template) : template.Canonical := by
  obtain ⟨s, -, hparse⟩ := parse_eq_ok h
  exact Json.canonical_of_parse? hparse

/-- How a stack gets the document for a template: `failed` if the template asks the provider to
fail, and what `done` makes of the buckets that were provisioned otherwise. -/
inductive Settles (p : StackProvider) (name : String) (template : Json) (failed : StackDoc)
    (done : List (String × String) → StackDoc) (t : FileTree) :
    Except ProviderError Unit → FileTree → Prop where
  | failing {r : Except ProviderError Unit} {t' : FileTree}
    (hfails : Template.requestsFailure template = true) (hsave : p.save name failed t = (r, t')) :
    Settles p name template failed done t r t'
  | stuck {e : ProviderError} {t' : FileTree} (hfails : Template.requestsFailure template = false)
    (hprovision : p.provision (Template.buckets name template) t = (.error e, t')) :
    Settles p name template failed done t (.error e) t'
  | provisioned {buckets : List (String × String)} {r : Except ProviderError Unit}
    {t₁ t' : FileTree} (hfails : Template.requestsFailure template = false)
    (hprovision : p.provision (Template.buckets name template) t = (.ok buckets, t₁))
    (hsave : p.save name (done buckets) t₁ = (r, t')) :
    Settles p name template failed done t r t'

/-- The document of a stack that was created. -/
def created (template : Json) (buckets : List (String × String)) : StackDoc :=
  ⟨StackStatus.createComplete.text, template, TextMap.ofList buckets⟩

/-- The document of a stack that was updated. -/
def updated (doc : StackDoc) (template : Json) (buckets : List (String × String)) : StackDoc :=
  ⟨StackStatus.updateComplete.text, template, TextMap.union doc.buckets buckets⟩

/-- The document of a stack whose update was rolled back. -/
def restored (doc : StackDoc) : StackDoc :=
  { doc with status := StackStatus.updateRollbackComplete.text }

/-- The document of a stack that could not be deleted. -/
def undeleted (doc : StackDoc) : StackDoc :=
  { doc with status := StackStatus.deleteFailed.text }

/-- The common end of creating and of updating a stack. -/
theorem settles_of_eq {α : Type} {template : Json} {failed : StackDoc}
    {done : List (String × String) → StackDoc} {outcome : α} {r : Except ProviderError α}
    (hrun : (do
      if Template.requestsFailure template then p.save name failed
      else
        let buckets ← p.provision (Template.buckets name template)
        p.save name (done buckets)
      return outcome : Disk ProviderError α) t = (r, t')) :
    ∃ r', p.Settles name template failed done t r' t' ∧ r = r'.map fun _ => outcome := by
  by_cases hfails : Template.requestsFailure template = true
  · simp only [hfails, if_true] at hrun
    rcases bind_eq hrun with ⟨e, hsave, rfl⟩ | ⟨⟨⟩, t₁, hsave, hrun⟩
    · exact ⟨.error e, .failing hfails hsave, rfl⟩
    · cases hrun
      exact ⟨.ok (), .failing hfails hsave, rfl⟩
  · have hfails : Template.requestsFailure template = false := by simpa using hfails
    simp only [hfails, Bool.false_eq_true, if_false] at hrun
    rcases bind_eq hrun with ⟨e, hprovision, rfl⟩ | ⟨buckets, t₁, hprovision, hrun⟩
    · exact ⟨.error e, .stuck hfails hprovision, rfl⟩
    rcases bind_eq hrun with ⟨e, hsave, rfl⟩ | ⟨⟨⟩, t₂, hsave, hrun⟩
    · exact ⟨.error e, .provisioned hfails hprovision hsave, rfl⟩
    · cases hrun
      exact ⟨.ok (), .provisioned hfails hprovision hsave, rfl⟩

/-- A stack is there already or cannot be made, or it gets a document. -/
theorem create_cases {r : Except ProviderError CreateOutcome}
    (hrun : p.create name body t = (r, t')) :
    (t' = t ∧ r ≠ .ok .created ∧
      (r = .ok .alreadyExists → ∃ doc, p.load t name = .ok (some doc))) ∨
    ∃ template r', p.load t name = .ok none ∧ Template.parse (some body) = .ok template ∧
      p.Settles name template .rolledBack (created template) t r' t' ∧
      r = r'.map fun _ => .created := by
  rw [create] at hrun
  rcases reading_bind_eq hrun with ⟨rfl, e, rfl⟩ | ⟨found, hload, hrun⟩
  · exact .inl ⟨rfl, by rintro ⟨⟩, by rintro ⟨⟩⟩
  cases found with
  | some doc =>
    cases hrun
    exact .inl ⟨rfl, by rintro ⟨⟩, fun _ => ⟨doc, hload⟩⟩
  | none =>
    rcases reading_bind_eq hrun with ⟨rfl, e, rfl⟩ | ⟨template, hparse, hrun⟩
    · exact .inl ⟨rfl, by rintro ⟨⟩, by rintro ⟨⟩⟩
    obtain ⟨r', hsettles, hr⟩ := settles_of_eq hrun
    exact .inr ⟨template, r', hload, hparse, hsettles, hr⟩

/-- The template behind a URL. -/
def Fetches (p : StackProvider) (t : FileTree) (url : String) (template : Json) : Prop :=
  ∃ body, p.fetchTemplate t url = .ok body ∧
    Template.parse (String.fromUTF8? body) = .ok template

theorem Fetches.unique {template template' : Json} (h : p.Fetches t url template)
    (h' : p.Fetches t url template') : template = template' := by
  obtain ⟨body, hbody, hparse⟩ := h
  obtain ⟨body', hbody', hparse'⟩ := h'
  rw [hbody] at hbody'
  cases hbody'
  rw [hparse] at hparse'
  exact Except.ok.inj hparse'

/-- A stack cannot be updated or has the template already, or it gets a document. -/
theorem update_cases {r : Except ProviderError UpdateOutcome}
    (hrun : p.update name url t = (r, t')) :
    (t' = t ∧ r ≠ .ok .updating ∧
      (r = .ok .noChanges → ∃ doc template, p.load t name = .ok (some doc) ∧
        p.Fetches t url template ∧ template.same doc.template = true)) ∨
    ∃ doc template r', p.load t name = .ok (some doc) ∧ p.Fetches t url template ∧
      template.same doc.template = false ∧
      p.Settles name template (restored doc) (updated doc template) t r' t' ∧
      r = r'.map fun _ => .updating := by
  rw [update] at hrun
  rcases reading_bind_eq hrun with ⟨rfl, e, rfl⟩ | ⟨found, hload, hrun⟩
  · exact .inl ⟨rfl, by rintro ⟨⟩, by rintro ⟨⟩⟩
  cases found with
  | none =>
    cases hrun
    exact .inl ⟨rfl, by rintro ⟨⟩, by rintro ⟨⟩⟩
  | some doc =>
    rcases reading_bind_eq hrun with ⟨rfl, e, rfl⟩ | ⟨body, hbody, hrun⟩
    · exact .inl ⟨rfl, by rintro ⟨⟩, by rintro ⟨⟩⟩
    rcases reading_bind_eq hrun with ⟨rfl, e, rfl⟩ | ⟨template, hparse, hrun⟩
    · exact .inl ⟨rfl, by rintro ⟨⟩, by rintro ⟨⟩⟩
    have hfetches : p.Fetches t url template := ⟨body, hbody, hparse⟩
    by_cases hsame : template.same doc.template = true
    · simp only [hsame, if_true] at hrun
      cases hrun
      exact .inl ⟨rfl, by rintro ⟨⟩, fun _ => ⟨doc, template, hload, hfetches, hsame⟩⟩
    · have hsame : template.same doc.template = false := by simpa using hsame
      simp only [hsame, Bool.false_eq_true, if_false] at hrun
      obtain ⟨r', hsettles, hr⟩ := settles_of_eq hrun
      exact .inr ⟨doc, template, r', hload, hfetches, hsame, hsettles, hr⟩

/-! ## Deleting -/

/-- How a stack with a document is deleted: a filled bucket keeps the stack; otherwise its buckets
go, and at last the document. -/
inductive Removes (p : StackProvider) (name : String) (doc : StackDoc) (t : FileTree) :
    Except ProviderError Unit → FileTree → Prop where
  | filled {r : Except ProviderError Unit} {t' : FileTree}
    (hfilled : p.anyFilled t (TextMap.values doc.buckets) = .ok true)
    (hsave : p.save name (undeleted doc) t = (r, t')) : Removes p name doc t r t'
  | stuck {e : ProviderError} {t' : FileTree}
    (hempty : p.anyFilled t (TextMap.values doc.buckets) = .ok false)
    (hbuckets : p.deleteBuckets (TextMap.values doc.buckets) t = (.error e, t')) :
    Removes p name doc t (.error e) t'
  | emptied {r : Except ProviderError Unit} {r' : Except FileError Unit} {t₁ t' : FileTree}
    (hempty : p.anyFilled t (TextMap.values doc.buckets) = .ok false)
    (hbuckets : p.deleteBuckets (TextMap.values doc.buckets) t = (.ok (), t₁))
    (hremove : (Effect.remove (p.stackPath name)).perform t₁ = (r', t'))
    (hdone : r = .ok () ↔ r' = .ok ()) : Removes p name doc t r t'

theorem delete_cases {r : Except ProviderError Unit} (hrun : p.delete name t = (r, t')) :
    (t' = t ∧ (r = .ok () → p.load t name = .ok none)) ∨
      ∃ doc, p.load t name = .ok (some doc) ∧ p.Removes name doc t r t' := by
  rw [delete] at hrun
  rcases reading_bind_eq hrun with ⟨rfl, e, rfl⟩ | ⟨found, hload, hrun⟩
  · exact .inl ⟨rfl, by rintro ⟨⟩⟩
  cases found with
  | none =>
    cases hrun
    exact .inl ⟨rfl, fun _ => hload⟩
  | some doc =>
    rcases reading_bind_eq hrun with ⟨rfl, e, rfl⟩ | ⟨filled, hfilled, hrun⟩
    · exact .inl ⟨rfl, by rintro ⟨⟩⟩
    refine .inr ⟨doc, hload, ?_⟩
    cases filled with
    | true => exact .filled hfilled hrun
    | false =>
      rcases bind_eq hrun with ⟨e, hbuckets, rfl⟩ | ⟨⟨⟩, t₁, hbuckets, hrun⟩
      · exact .stuck hfilled hbuckets
      · obtain ⟨r', hremove, hok⟩ := mapError_eq hrun
        refine .emptied hfilled hbuckets hremove ⟨hok (), ?_⟩
        rintro rfl
        rw [mapError_of_ok hremove] at hrun
        exact (congrArg Prod.fst hrun).symm

/-! ## Buckets one after the other -/

variable {R : FileTree → FileTree → Prop}

/-- What making declared buckets and keeping their versions does, provisioning does. -/
theorem provision_induction (hrefl : ∀ t, R t t)
    (htrans : ∀ t₁ t₂ t₃, R t₁ t₂ → R t₂ t₃ → R t₁ t₃) (specs : List BucketSpec)
    (hcreate : ∀ spec ∈ specs, ∀ t r t', p.objects.Steady top t →
      p.objects.createBucket spec.physical t = (r, t') → R t t')
    (hkeep : ∀ spec ∈ specs, spec.versioned = true → ∀ t r t', p.objects.Steady top t →
      p.objects.enableVersioning spec.physical t = (r, t') → R t t')
    (h : p.objects.Steady top t) {r : Except ProviderError (List (String × String))}
    (hrun : p.provision specs t = (r, t')) : R t t' := by
  induction specs generalizing t r with
  | nil =>
    cases hrun
    exact hrefl _
  | cons spec specs ih =>
    have hmore {t₁ : FileTree} {r : Except ProviderError (List (String × String))}
        (h₁ : p.objects.Steady top t₁)
        (hrest : (do
          let rest ← p.provision specs
          pure ((spec.logical, spec.physical) :: rest) :
            Disk ProviderError (List (String × String))) t₁ = (r, t')) : R t₁ t' := by
      have hothers {r' : Except ProviderError (List (String × String))}
          (hrun : p.provision specs t₁ = (r', t')) : R t₁ t' :=
        ih (fun s hs => hcreate s (List.mem_cons_of_mem _ hs))
          (fun s hs => hkeep s (List.mem_cons_of_mem _ hs)) h₁ hrun
      rcases bind_eq hrest with ⟨e, he, -⟩ | ⟨rest, t₂, he, hlast⟩
      · exact hothers he
      · cases hlast
        exact hothers he
    rw [provision] at hrun
    rcases bind_eq hrun with ⟨e, hmake, -⟩ | ⟨⟨⟩, t₁, hmake, hrun⟩
    · obtain ⟨r', hmake, -⟩ := mapError_eq hmake
      exact hcreate spec List.mem_cons_self t r' t' h hmake
    obtain ⟨r', hmake, -⟩ := mapError_eq hmake
    have hmade := hcreate spec List.mem_cons_self t r' t₁ h hmake
    have h₁ := (ObjectStore.createBucket_spec h hmake).steady
    by_cases hversioned : spec.versioned = true
    · simp only [hversioned, if_true] at hrun
      have hkept := hkeep spec List.mem_cons_self hversioned t₁
      rcases bind_eq hrun with ⟨e, hversions, -⟩ | ⟨⟨⟩, t₂, hversions, hrun⟩
      · obtain ⟨r', hversions, -⟩ := mapError_eq hversions
        exact htrans _ _ _ hmade (hkept r' t' h₁ hversions)
      · obtain ⟨r', hversions, -⟩ := mapError_eq hversions
        have h₂ := (ObjectStore.enableVersioning_spec h₁ hversions).steady
        exact htrans _ _ _ hmade (htrans _ _ _ (hkept r' t₂ h₁ hversions) (hmore h₂ hrun))
    · simp only [hversioned] at hrun
      exact htrans _ _ _ hmade (hmore h₁ hrun)

/-- Provisioning says which declared bucket is which. -/
theorem eq_of_provision (specs : List BucketSpec) {buckets : List (String × String)}
    (hrun : p.provision specs t = (.ok buckets, t')) :
    buckets = specs.map fun spec => (spec.logical, spec.physical) := by
  induction specs generalizing t buckets with
  | nil =>
    cases hrun
    rfl
  | cons spec specs ih =>
    have hmore {t₁ : FileTree} (hrest : (do
          let rest ← p.provision specs
          pure ((spec.logical, spec.physical) :: rest) :
            Disk ProviderError (List (String × String))) t₁ = (.ok buckets, t')) :
        buckets = (spec :: specs).map fun spec => (spec.logical, spec.physical) := by
      rcases bind_eq hrest with ⟨e, -, he⟩ | ⟨rest, t₂, he, hlast⟩
      · cases he
      · cases hlast
        rw [ih he, List.map_cons]
    rw [provision] at hrun
    rcases bind_eq hrun with ⟨e, -, he⟩ | ⟨⟨⟩, t₁, -, hrun⟩
    · cases he
    by_cases hversioned : spec.versioned = true
    · simp only [hversioned, if_true] at hrun
      rcases bind_eq hrun with ⟨e, -, he⟩ | ⟨⟨⟩, t₂, -, hrun⟩
      · cases he
      · exact hmore hrun
    · simp only [hversioned] at hrun
      exact hmore hrun

/-- What deleting a bucket does, deleting buckets does. -/
theorem deleteBuckets_induction (hrefl : ∀ t, R t t)
    (htrans : ∀ t₁ t₂ t₃, R t₁ t₂ → R t₂ t₃ → R t₁ t₃) (buckets : List String)
    (hdelete : ∀ b ∈ buckets, ∀ t r t', p.objects.Settled top t →
      p.objects.deleteBucket b t = (r, t') → R t t')
    (h : p.objects.Settled top t) {r : Except ProviderError Unit}
    (hrun : p.deleteBuckets buckets t = (r, t')) : R t t' := by
  induction buckets generalizing t r with
  | nil =>
    cases hrun
    exact hrefl _
  | cons bucket buckets ih =>
    have hmore := fun b hb => hdelete b (List.mem_cons_of_mem bucket hb)
    rw [deleteBuckets] at hrun
    rcases bind_eq hrun with ⟨e, he, -⟩ | ⟨t₁, t₂, hget, hrun⟩
    · cases he
    cases hget
    by_cases hexists : p.objects.bucketExists t bucket = true
    · simp only [hexists, if_true] at hrun
      rcases bind_eq hrun with ⟨e, hfirst, -⟩ | ⟨⟨⟩, t₁, hfirst, hrest⟩
      · obtain ⟨r', hfirst, -⟩ := mapError_eq hfirst
        exact hdelete bucket List.mem_cons_self t r' t' h hfirst
      · obtain ⟨r', hfirst, -⟩ := mapError_eq hfirst
        obtain ⟨hsteady, hless⟩ := h.act (.call (.deleteBucket bucket))
        rw [show p.objects.act (.call (.deleteBucket bucket)) t = (r', t₁) from hfirst]
          at hsteady hless
        exact htrans _ _ _ (hdelete bucket List.mem_cons_self t r' t₁ h hfirst)
          (ih hmore (h.of_lessened hsteady hless) hrest)
    · simp only [hexists] at hrun
      exact ih hmore h hrun

end StackProvider

end Rollout
