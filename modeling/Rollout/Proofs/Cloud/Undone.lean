import Rollout.Proofs.Cloud.Growth
import Rollout.Proofs.Cloud.Legible

/-!
Calls about a stack that do not take effect. One that fails leaves every stack as it was, and at
most buckets of its template that are empty or have their versions kept; one that is refused does
nothing at all. One that is rolled back changes the status of its stack and no more.
-/

namespace Rollout

open FileTree Outcome Json

namespace StackProvider

variable {p : StackProvider} {t t' : FileTree} {top : Location} {name body url : String}
  {doc failed : StackDoc} {template : Json} {done : List (String × String) → StackDoc}
  {B V : String → Prop}

/-! ## Errors -/

/-- What was done for a stack and failed makes the provider unavailable. -/
theorem unavailable_of_forStack {d : Disk StoreError Unit} {e : ProviderError}
    (hrun : forStack d t = (.error e, t')) : ∃ text, e = .unavailable text := by
  simp only [forStack, Disk.mapError] at hrun
  split at hrun
  · cases hrun
  · cases hrun
    exact ⟨_, rfl⟩

theorem unavailable_of_save {e : ProviderError} (hrun : p.save name doc t = (.error e, t')) :
    ∃ text, e = .unavailable text := by
  simp only [save, Disk.mapError] at hrun
  split at hrun
  · cases hrun
  · cases hrun
    exact ⟨_, rfl⟩

theorem unavailable_of_provision (specs : List BucketSpec) {e : ProviderError}
    (hrun : p.provision specs t = (.error e, t')) : ∃ text, e = .unavailable text := by
  induction specs generalizing t with
  | nil => cases hrun
  | cons spec specs ih =>
    have hmore {t₁ : FileTree} (hrest : (do
          let rest ← p.provision specs
          pure ((spec.logical, spec.physical) :: rest) :
            Disk ProviderError (List (String × String))) t₁ = (.error e, t')) :
        ∃ text, e = .unavailable text := by
      rcases bind_eq hrest with ⟨e', he, heq⟩ | ⟨rest, t₂, -, hlast⟩
      · cases heq
        exact ih he
      · cases hlast
    rw [provision] at hrun
    rcases bind_eq hrun with ⟨e', hmake, heq⟩ | ⟨⟨⟩, t₁, -, hrun⟩
    · cases heq
      exact unavailable_of_forStack hmake
    by_cases hversioned : spec.versioned = true
    · simp only [hversioned, if_true] at hrun
      rcases bind_eq hrun with ⟨e', hversions, heq⟩ | ⟨⟨⟩, t₂, -, hrun⟩
      · cases heq
        exact unavailable_of_forStack hversions
      · exact hmore hrun
    · simp only [hversioned] at hrun
      exact hmore hrun

/-! ## What is left -/

/-- A stack's document is saved beside all buckets. -/
theorem save_grown (h : p.Orderly top t) (hn : SimpleName name) (hd : doc.buckets.Ordered)
    {r : Except ProviderError Unit} (hrun : p.save name doc t = (r, t')) (B V : String → Prop) :
    p.objects.Grown B V t t' := by
  obtain ⟨h', haround, -⟩ := save_cases h hn hd hrun
  refine h.steady.grown_of_same h'.tidy haround.work (fun b l hl => haround.entry l ?_) B V
  rintro spot rfl
  obtain ⟨hdown, hup⟩ := beside_bucket (p := p) h.root
    (stacksPlace_above t.workDir hn) b
  refine ⟨fun hin => ?_, fun hin => hdown (hl.trans hin)⟩
  rcases List.prefix_or_prefix_of_prefix hl hin with hin | hin
  · exact hdown hin
  · exact hup hin

/-- A stack that gets a document has its declared buckets made, and nothing is taken from any. -/
theorem Settles.grown {r : Except ProviderError Unit}
    (hs : p.Settles name template failed done t r t') (h : p.Orderly top t) (hn : SimpleName name)
    (hfailed : failed.buckets.Ordered) (hdone : ∀ buckets, (done buckets).buckets.Ordered) :
    p.objects.Grown (fun b => ∃ spec ∈ Template.buckets name template, spec.physical = b)
      (fun b => ∃ spec ∈ Template.buckets name template,
        spec.physical = b ∧ spec.versioned = true) t t' := by
  cases hs with
  | failing _ hsave => exact save_grown h hn hfailed hsave _ _
  | stuck _ hprovision => exact provision_grown _ h.steady hprovision
  | provisioned _ hprovision hsave =>
    have h₁ := h.of_provision hprovision
    exact (provision_grown _ h.steady hprovision).trans (save_grown h₁ hn (hdone _) hsave _ _)

/-- A stack that could not get its document has the one it had, and so has every other. -/
theorem Settles.load_of_error {e : ProviderError}
    (hs : p.Settles name template failed done t (.error e) t') (h : p.Orderly top t)
    (hn : SimpleName name) (hfailed : failed.buckets.Ordered)
    (hdone : ∀ buckets, (done buckets).buckets.Ordered) (other : String)
    (hother : SimpleName other) : p.load t' other = p.load t other := by
  obtain ⟨h', haround⟩ := hs.frame h hn hfailed hdone
  exact load_congr h.tidy h'.tidy h.within (contained_of_simple hother) haround.work
    (hs.entry_of_error h hn hfailed hdone other hother)

theorem Settles.unavailable {e : ProviderError}
    (hs : p.Settles name template failed done t (.error e) t') : ∃ text, e = .unavailable text := by
  cases hs with
  | failing _ hsave => exact unavailable_of_save hsave
  | stuck _ hprovision => exact unavailable_of_provision _ hprovision
  | provisioned _ _ hsave => exact unavailable_of_save hsave

/-- A bucket that the template of a call declares. -/
def Declares (p : StackProvider) (t : FileTree) : StackCall → BucketSpec → Prop
  | .create name body, spec => ∃ template, Template.parse (some body) = .ok template ∧
    spec ∈ Template.buckets name template
  | .update name url, spec => ∃ template, p.Fetches t url template ∧
    spec ∈ Template.buckets name template
  | _, _ => False

/-- What a failed call leaves: the stacks as they were, and the buckets but for what was begun on
those the template declares. If it was refused, nothing was begun. -/
structure LeftBy (p : StackProvider) (c : StackCall) (e : ProviderError) (t t' : FileTree) :
    Prop where
  documents : ∀ other, SimpleName other → p.load t' other = p.load t other
  buckets : p.objects.Grown (fun b => ∃ spec, p.Declares t c spec ∧ spec.physical = b)
    (fun b => ∃ spec, p.Declares t c spec ∧ spec.physical = b ∧ spec.versioned = true) t t'
  contents : ∀ b key, p.objects.bucketExists t b = true →
    p.objects.content t' b key = p.objects.content t b key
  refused : ∀ text, e = .rejected text → t' = t

/-- What a call that was rolled back leaves: other stacks and all buckets as they were. -/
structure RolledBack (p : StackProvider) (name : String) (t t' : FileTree) : Prop where
  others : ∀ other, SimpleName other → other ≠ name → p.load t' other = p.load t other
  buckets : p.objects.Grown (fun _ => False) (fun _ => False) t t'
  contents : ∀ b key, p.objects.bucketExists t b = true →
    p.objects.content t' b key = p.objects.content t b key

/-- A stack that is as it was but for its status. Its template is read anew, which makes no
difference to integers. -/
def Restored (doc found : StackDoc) : Prop :=
  found.buckets = doc.buckets ∧ ReadBack doc.template found.template ∧
    (doc.template.integersOnly = true → found.template = doc.template ∧ found.exports = doc.exports)

/-- A call that gave its stack no document left what a failed call may leave. -/
theorem Settles.leftBy {e : ProviderError} {c : StackCall}
    (hs : p.Settles name template failed done t (.error e) t') (h : p.Orderly top t)
    (hn : SimpleName name) (hfailed : failed.buckets.Ordered)
    (hdone : ∀ buckets, (done buckets).buckets.Ordered)
    (hdeclares : ∀ spec ∈ Template.buckets name template, p.Declares t c spec) :
    p.LeftBy c e t t' := by
  obtain ⟨text, rfl⟩ := hs.unavailable
  have hgrown : p.objects.Grown (fun b => ∃ spec, p.Declares t c spec ∧ spec.physical = b)
      (fun b => ∃ spec, p.Declares t c spec ∧ spec.physical = b ∧ spec.versioned = true) t t' := by
    refine (hs.grown h hn hfailed hdone).mono ?_ ?_
    · rintro b ⟨spec, hspec, hb⟩
      exact ⟨spec, hdeclares spec hspec, hb⟩
    · rintro b ⟨spec, hspec, hb⟩
      exact ⟨spec, hdeclares spec hspec, hb⟩
  have h' := (hs.frame h hn hfailed hdone).1
  exact ⟨hs.load_of_error h hn hfailed hdone, hgrown,
    fun b key hb => hgrown.content h.steady h'.steady hb, nofun⟩

/-- A call that did nothing left nothing. -/
theorem LeftBy.refl (h : p.Orderly top t) (c : StackCall) (e : ProviderError) :
    p.LeftBy c e t t :=
  ⟨fun _ _ => rfl, .refl h.tidy h.steady.within .., fun _ _ _ => rfl, fun _ _ => rfl⟩

/-! ## Rolling back -/

/-- The status of a stack that got a document says so. -/
theorem Orderly.status_of_stored (h : p.Orderly top t) (hn : SimpleName name)
    (hstored : p.Stored t name doc) (hd : doc.buckets.Ordered) {status : StackStatus}
    (hstatus : p.status t name = .ok status) : status = .ofText doc.status := by
  rw [StackProvider.status] at hstatus
  split at hstatus
  · cases hstatus
  · rename_i hload
    obtain ⟨doc', hdoc', -⟩ :=
      load_of_stored h.tidy h.within (contained_of_simple hn) hstored hload
    cases hdoc'
  · rename_i found hload
    obtain ⟨doc', hdoc', hparse⟩ :=
      load_of_stored h.tidy h.within (contained_of_simple hn) hstored hload
    cases hdoc'
    cases hstatus
    rw [(StackDoc.status_of_parse?_toJson hd hparse).1]

/-- A call that saved no more than a status left other stacks and all buckets as they were. -/
theorem rolledBack_of_save (h : p.Orderly top t) (hn : SimpleName name) (hd : doc.buckets.Ordered)
    {r : Except ProviderError Unit} (hrun : p.save name doc t = (r, t')) :
    p.RolledBack name t t' := by
  obtain ⟨h', haround, -⟩ := save_cases h hn hd hrun
  have hgrown := save_grown h hn hd hrun (fun _ => False) fun _ => False
  refine ⟨fun other hother hne => ?_, hgrown, fun b key hb =>
    hgrown.content h.steady h'.steady hb⟩
  exact h.load_of_around (B := fun _ => False) h' (haround.mono fun l hl => ⟨l, .inl hl, List.prefix_rfl⟩)
    hn hother hne

/-- So did a call that did nothing. -/
theorem RolledBack.refl (h : p.Orderly top t) (name : String) : p.RolledBack name t t :=
  ⟨fun _ _ _ => rfl, .refl h.tidy h.steady.within .., fun _ _ _ => rfl⟩

/-- A stack whose status was restored is found with its template read anew. -/
theorem Orderly.exists_load_of_restored (h : p.Orderly top t) (hn : SimpleName name)
    (hload : p.load t name = .ok (some doc)) (hsave : p.save name (restored doc) t = (.ok (), t')) :
    ∃ template, p.load t' name = .ok (some { restored doc with template }) ∧
      ReadBack doc.template template := by
  obtain ⟨hcanonical, hordered⟩ := h.canonical_of_load hn hload
  have hrestored : (restored doc).buckets.Ordered := hordered
  obtain ⟨h', -, hstored, -⟩ := save_cases h hn hrestored hsave
  have hshallow : (restored doc).template.nesting < nestingLimit :=
    show doc.template.nesting < nestingLimit from h.nesting_of_load hn hload
  exact exists_load h'.tidy h'.within (contained_of_simple hn) (hstored rfl) hrestored hcanonical
    hshallow

/-! ## Creating and updating -/

theorem Orderly.leftBy_create (h : p.Orderly top t) (hn : SimpleName name) {e : ProviderError}
    (hrun : p.create name body t = (.error e, t')) : p.LeftBy (.create name body) e t t' := by
  rcases create_cases hrun with ⟨rfl, -⟩ | ⟨template, r, -, hparse, hsettles, hr⟩
  · exact .refl h _ e
  obtain ⟨e'⟩ | ⟨⟨⟩⟩ := r
  · cases hr
    exact hsettles.leftBy h hn TextMap.Ordered.nil (fun _ => TextMap.ordered_ofList _)
      fun spec hspec => ⟨template, hparse, hspec⟩
  · cases hr

theorem Orderly.leftBy_update (h : p.Orderly top t) (hn : SimpleName name) {e : ProviderError}
    (hrun : p.update name url t = (.error e, t')) : p.LeftBy (.update name url) e t t' := by
  rcases update_cases hrun with ⟨rfl, -⟩ | ⟨doc, template, r, hload, hfetches, -, hsettles, hr⟩
  · exact .refl h _ e
  obtain ⟨e'⟩ | ⟨⟨⟩⟩ := r
  · cases hr
    have hordered := (h.canonical_of_load hn hload).2
    exact hsettles.leftBy h hn hordered (fun _ => hordered.union _)
      fun spec hspec => ⟨template, hfetches, hspec⟩
  · cases hr

theorem Orderly.rolledBack_create (h : p.Orderly top t) (hn : SimpleName name)
    {outcome : CreateOutcome} (hrun : p.create name body t = (.ok outcome, t'))
    (hstatus : p.status t' name = .ok .rollbackComplete) : p.RolledBack name t t' := by
  rcases create_cases hrun with ⟨rfl, -⟩ | ⟨template, r, -, -, hsettles, hr⟩
  · exact .refl h name
  obtain ⟨e⟩ | ⟨⟨⟩⟩ := r
  · cases hr
  have hdone (buckets : List (String × String)) : (created template buckets).buckets.Ordered :=
    TextMap.ordered_ofList _
  have h' := (hsettles.frame h hn TextMap.Ordered.nil hdone).1
  rcases hsettles.stored h hn TextMap.Ordered.nil hdone with ⟨hfails, -⟩ | ⟨-, hstored⟩
  · cases hsettles with
    | failing _ hsave => exact rolledBack_of_save h hn TextMap.Ordered.nil hsave
    | provisioned hno _ _ =>
      rw [hfails] at hno
      cases hno
  · exact absurd (h'.status_of_stored hn hstored (hdone _) hstatus)
      (show StackStatus.rollbackComplete ≠ .ofText StackStatus.createComplete.text by decide)

theorem Orderly.rolledBack_update (h : p.Orderly top t) (hn : SimpleName name)
    (hrun : p.update name url t = (.ok .updating, t'))
    (hstatus : p.status t' name = .ok .updateRollbackComplete) : p.RolledBack name t t' ∧
      ∃ doc found, p.load t name = .ok (some doc) ∧ p.load t' name = .ok (some found) ∧
        Restored doc found := by
  rcases update_cases hrun with ⟨-, hupdating, -⟩ | ⟨doc, template, r, hload, -, -, hsettles, hr⟩
  · exact absurd rfl hupdating
  obtain ⟨e⟩ | ⟨⟨⟩⟩ := r
  · cases hr
  have hordered : (restored doc).buckets.Ordered := (h.canonical_of_load hn hload).2
  have hdone (buckets : List (String × String)) : (updated doc template buckets).buckets.Ordered :=
    TextMap.Ordered.union hordered _
  have h' := (hsettles.frame h hn hordered hdone).1
  rcases hsettles.stored h hn hordered hdone with ⟨hfails, -⟩ | ⟨-, hstored⟩
  · cases hsettles with
    | failing _ hsave =>
      obtain ⟨found, hfound, hback⟩ := h.exists_load_of_restored hn hload hsave
      refine ⟨rolledBack_of_save h hn hordered hsave, doc, _, hload, hfound, rfl, hback,
        fun hi => ?_⟩
      have hsame : found = doc.template := hback.same hi
      exact ⟨hsame, by rw [hsame]; rfl⟩
    | provisioned hno _ _ =>
      rw [hfails] at hno
      cases hno
  · exact absurd (h'.status_of_stored hn hstored (hdone _) hstatus)
      (show StackStatus.updateRollbackComplete ≠ .ofText StackStatus.updateComplete.text by decide)

/-- Creating or updating a stack without effect: where it failed, all stacks are as they were and
the buckets too, but that those of the template may have been begun, and if it was refused nothing
was; where it was rolled back, only the status of the stack has changed. -/
theorem ineffective_call_leaves (h : p.Reached top (fun _ _ => True) t) (hn : SimpleName name) :
    (∀ body e t', p.create name body t = (.error e, t') → p.LeftBy (.create name body) e t t') ∧
    (∀ url e t', p.update name url t = (.error e, t') → p.LeftBy (.update name url) e t t') ∧
    (∀ body outcome t', p.create name body t = (.ok outcome, t') →
      p.status t' name = .ok .rollbackComplete → p.RolledBack name t t') ∧
    ∀ url t', p.update name url t = (.ok .updating, t') →
      p.status t' name = .ok .updateRollbackComplete → p.RolledBack name t t' ∧
        ∃ doc found, p.load t name = .ok (some doc) ∧ p.load t' name = .ok (some found) ∧
          Restored doc found :=
  ⟨fun _ _ _ hrun => h.orderly.leftBy_create hn hrun,
    fun _ _ _ hrun => h.orderly.leftBy_update hn hrun,
    fun _ _ _ hrun hstatus => h.orderly.rolledBack_create hn hrun hstatus,
    fun _ _ hrun hstatus => h.orderly.rolledBack_update hn hrun hstatus⟩

namespace Sample

/-- A template of a bucket, and of another that cannot be named so. -/
def halfNamed : String :=
  "\x7b\"Resources\":\x7b\"A\":\x7b\"Type\":\"AWS::S3::Bucket\"\x7d,\"B\":\x7b" ++
    "\"Type\":\"AWS::S3::Bucket\",\"Properties\":\x7b\"BucketName\":\"/\"\x7d\x7d\x7d\x7d"

/-- The disk after the first of the buckets was made. -/
def halfMade : FileTree := (provider.create "s" halfNamed .empty).2

theorem halfMade_spec : (provider.create "s" halfNamed .empty).1.toOption = none ∧
    provider.objects.bucketExists .empty "s-a" = false ∧
    provider.objects.bucketExists halfMade "s-a" = true := by
  decide +kernel

end Sample

/-- A bucket that was begun is left, and a stack is rolled back without a trace. -/
theorem ineffective_call_leaves_sample :
    (∃ e, (Sample.provider.create "s" Sample.halfNamed .empty).1 = .error e ∧
      Sample.provider.LeftBy (.create "s" Sample.halfNamed) e .empty Sample.halfMade) ∧
    (Sample.provider.create "s" Sample.failing .empty).1.toOption = some .created ∧
    Sample.provider.status Sample.rolledBack "s" = .ok .rollbackComplete ∧
    Sample.provider.RolledBack "s" .empty Sample.rolledBack := by
  have hreached : Sample.provider.Reached ["cloud"] (fun _ _ => True) .empty := .start Sample.vacant
  obtain ⟨hcreate, -, hrolled, -⟩ := ineffective_call_leaves hreached (show SimpleName "s" by decide)
  have hfailing : (Sample.provider.create "s" Sample.failing .empty).1.toOption = some .created ∧
      (Sample.provider.status Sample.rolledBack "s").toOption = some .rollbackComplete := by
    decide +kernel
  obtain ⟨hcreated, hstatus⟩ := hfailing
  obtain ⟨e, he⟩ := error_of_toOption Sample.halfMade_spec.1
  have hstatus := ok_of_toOption hstatus
  refine ⟨⟨e, he, hcreate _ e _ (Prod.ext he (by rw [Sample.halfMade]))⟩, hcreated, hstatus, ?_⟩
  exact hrolled _ _ _ (Prod.ext (ok_of_toOption hcreated) (by rw [Sample.rolledBack])) hstatus

namespace Sample

/-- The disk with a stack whose template has a fraction, and a template that asks for a failure. -/
def fractional : FileTree :=
  [CloudAction.stack (.create "s" "\x7b\"\":4e-97\x7d"), .store (.createBucket "b"),
    .store (.call (.put "b" "k" failing.toUTF8))].foldl (fun t a => provider.after a t) .empty

/-- The disk after an update with that template. -/
def drifted : FileTree := (provider.update "s" "local://b/k" fractional).2

/-- The same of a disk that is known to be that one. -/
def driftedFrom (t : FileTree) (_ : t = fractional) : FileTree :=
  (provider.update "s" "local://b/k" t).2

theorem driftedFrom_eq (t : FileTree) (h : t = fractional) :
    driftedFrom t h = (provider.update "s" "local://b/k" t).2 := rfl

-- Both sides are unfolded at once. To compare `drifted` with its own definition, a projection, would
-- be to run the update.
theorem drifted_eq : drifted = driftedFrom fractional rfl := rfl

theorem offered_failing :
    ((provider.objects.put "b" "k" failing.toUTF8 (beside "\x7b\"\":4e-97\x7d" "b")).1.toOption =
      some () ∧
      (provider.create "s" "\x7b\"\":4e-97\x7d" .empty).1.toOption = some .created) ∧
    ((Template.parse (some failing)).toOption.any fun failing => Template.requestsFailure failing &&
      (Template.parse (some "\x7b\"\":4e-97\x7d")).toOption.any fun template =>
        !Template.requestsFailure template && decide (template.nesting < nestingLimit) &&
          (Written.value? (nestingLimit - 1) template.written).any fun first =>
            !failing.same first &&
              (Written.value? (nestingLimit - 1) first.written).any fun second =>
                first.compact ≠ second.compact) = true := by
  exact ⟨⟨by decide +kernel, by decide +kernel⟩, by decide +kernel⟩

/-- The template of the stack has been read anew by the update. -/
theorem drifted_spec : (provider.update "s" "local://b/k" fractional).1 = .ok .updating ∧
    provider.status drifted "s" = .ok .updateRollbackComplete ∧
    ∃ doc found, provider.load fractional "s" = .ok (some doc) ∧
      provider.load drifted "s" = .ok (some found) ∧ found.template ≠ doc.template := by
  have hn : SimpleName "s" := by decide
  obtain ⟨⟨hput, hcreated⟩, htemplates⟩ := offered_failing
  obtain ⟨failed, hfailed, htemplates⟩ := (Option.any_eq_true ..).1 htemplates
  obtain ⟨hfails, htemplates⟩ := Bool.and_eq_true_iff.1 htemplates
  obtain ⟨template, hparse, htemplates⟩ := (Option.any_eq_true ..).1 htemplates
  simp only [Bool.and_eq_true, Bool.not_eq_true', decide_eq_true_eq] at htemplates
  obtain ⟨⟨hsucceeds, hnesting⟩, hread⟩ := htemplates
  have hfractional : fractional = offering "\x7b\"\":4e-97\x7d" "b" failing := by
    rw [fractional, List.foldl_cons, List.foldl_cons, List.foldl_cons, List.foldl_nil, offering,
      beside]
  obtain ⟨first, hload, hback⟩ := vacant.orderly.exists_load_of_create hn
    (ok_of_toOption hparse) hsucceeds hnesting (create_eq hcreated)
  rw [← load_offering _ "b" failing, ← hfractional] at hload
  have horderly : provider.Orderly ["cloud"] fractional := hfractional ▸ orderly_offering ..
  have hfetches : provider.Fetches fractional "local://b/k" failed :=
    hfractional ▸ fetches_offering (by decide) hput (ok_of_toOption hfailed)
  rw [hback.value, Option.any_some, Bool.and_eq_true, Bool.not_eq_true'] at hread
  obtain ⟨hnew, hread⟩ := hread
  obtain ⟨t', hupdate, hsave⟩ := horderly.update_of_failing hn hload hfetches hnew hfails
  have hdrifted : drifted = t' := by rw [drifted_eq, driftedFrom_eq, hupdate]
  obtain ⟨second, hload', hback'⟩ := horderly.exists_load_of_restored hn hload hsave
  have hdiffers : first.compact ≠ second.compact := by
    rw [show Written.value? (nestingLimit - 1) first.written = some second from hback'.value,
      Option.any_some, decide_eq_true_eq] at hread
    exact hread
  rw [hdrifted]
  refine ⟨by rw [hupdate], ?_, _, _, hload, hload', fun hsame => hdiffers ?_⟩
  · rw [status, hload']
    rfl
  · exact congrArg Json.compact (show second = first from hsame).symm

end Sample

namespace Sample

/-- The disk after a stack was rolled back whose name leads to the index of a bucket. -/
def strayed : FileTree := (provider.create "../buckets/x/index" failing .empty).2

theorem strayed_spec :
    (provider.create "../buckets/x/index" failing .empty).1.toOption = some .created ∧
      (provider.status strayed "../buckets/x/index").toOption = some .rollbackComplete ∧
      provider.objects.bucketExists .empty "x" = false ∧
      provider.objects.bucketExists strayed "x" = true := by
  decide +kernel

end Sample

/-- A call may leave more: a bucket that it made before it failed, a bucket where the name of a
stack leads out of the stacks, and a fraction that was read anew. -/
theorem ineffective_call_changes :
    ((Sample.provider.create "s" Sample.halfNamed .empty).1.toOption = none ∧
      Sample.provider.objects.bucketExists .empty "s-a" = false ∧
      Sample.provider.objects.bucketExists Sample.halfMade "s-a" = true) ∧
    ((Sample.provider.create "../buckets/x/index" Sample.failing .empty).1.toOption =
        some .created ∧
      (Sample.provider.status Sample.strayed "../buckets/x/index").toOption =
        some .rollbackComplete ∧
      Sample.provider.objects.bucketExists .empty "x" = false ∧
      Sample.provider.objects.bucketExists Sample.strayed "x" = true) ∧
    (Sample.provider.update "s" "local://b/k" Sample.fractional).1.toOption = some .updating ∧
      Sample.provider.status Sample.drifted "s" = .ok .updateRollbackComplete ∧
      ∃ doc found, Sample.provider.load Sample.fractional "s" = .ok (some doc) ∧
        Sample.provider.load Sample.drifted "s" = .ok (some found) ∧
        found.template ≠ doc.template := by
  obtain ⟨hupdate, hstatus, hdrifted⟩ := Sample.drifted_spec
  exact ⟨Sample.halfMade_spec, Sample.strayed_spec, by rw [hupdate]; rfl, hstatus, hdrifted⟩

end StackProvider

end Rollout
