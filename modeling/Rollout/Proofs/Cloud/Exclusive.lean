import Rollout.Proofs.Cloud.AllOrNothing
import Rollout.Proofs.Cloud.Records

/-!
Whose bucket it is. Where no template names its buckets, a bucket is named after its stack and its
logical name, joined and in lower case. Two stacks share a bucket only if they have logical names
that are joined to the same text; what is done to one stack leaves all other buckets as they were.
-/

namespace Rollout

open FileTree Outcome

namespace Text

/-- A hyphen ends a word: what comes after it makes no difference to what is before. -/
theorem casedAhead_hyphen (cs ds : List Char) :
    casedAhead (cs ++ '-' :: ds) = casedAhead (cs ++ ['-']) := by
  induction cs with
  | nil =>
    have hseen : inRanges caseIgnorableRanges '-' = false := by decide +kernel
    simp only [List.nil_append, casedAhead, hseen, Bool.false_eq_true, if_false]
  | cons c cs ih => simp only [List.cons_append, casedAhead, ih]

theorem lowercaseAfter_hyphen (before cs ds : List Char) :
    lowercaseAfter before (cs ++ ['-']) <+: lowercaseAfter before (cs ++ '-' :: ds) := by
  induction cs generalizing before with
  | nil =>
    simp only [List.nil_append, lowercaseAfter, List.append_nil]
    exact List.prefix_append _ _
  | cons c cs ih =>
    simp only [List.cons_append, lowercaseAfter, casedAhead_hyphen cs ds]
    exact (List.prefix_append_right_inj _).2 (ih _)

end Text

namespace Template

/-- What a bucket of a stack is called that has no name of its own. -/
def bucketName (stack logical : String) : String := Text.lowercase (stack ++ "-" ++ logical)

/-- Names of stacks of which none is, up to a hyphen and case, the beginning of the other. -/
def NamesApart (stack other : String) : Prop :=
  ¬(Text.lowercase (stack ++ "-")).toList <+: (Text.lowercase (other ++ "-")).toList ∧
    ¬(Text.lowercase (other ++ "-")).toList <+: (Text.lowercase (stack ++ "-")).toList

instance (stack other : String) : Decidable (NamesApart stack other) :=
  inferInstanceAs (Decidable (_ ∧ _))

theorem prefix_bucketName (stack logical : String) :
    (Text.lowercase (stack ++ "-")).toList <+: (bucketName stack logical).toList := by
  rw [bucketName, Text.lowercase, Text.lowercase, String.toList_ofList, String.toList_ofList]
  simpa [String.toList_append] using Text.lowercaseAfter_hyphen [] stack.toList logical.toList

/-- Then no bucket of the one is called like any of the other. -/
theorem bucketName_ne_of_apart {stack other : String} (h : NamesApart stack other)
    (logical logical' : String) : bucketName stack logical ≠ bucketName other logical' := by
  intro heq
  have hother := prefix_bucketName other logical'
  rw [← heq] at hother
  rcases List.prefix_or_prefix_of_prefix (prefix_bucketName stack logical) hother with hin | hin
  · exact h.1 hin
  · exact h.2 hin

/-- A template that names none of its buckets. -/
def Unnamed (template : Json) : Prop :=
  ∀ e ∈ resources template, resourceType e.2 = some bucketType →
    (e.2.path? ["Properties", "BucketName"]).bind Json.str? = none

theorem physical_of_unnamed {template : Json} (h : Unnamed template) {name : String}
    {spec : BucketSpec} (hspec : spec ∈ buckets name template) :
    spec.physical = bucketName name spec.logical := by
  simp only [buckets, List.mem_map, List.mem_filter, decide_eq_true_eq] at hspec
  obtain ⟨⟨l, r⟩, ⟨hr, htype⟩, rfl⟩ := hspec
  rw [bucketSpec, h _ hr htype]
  rfl

end Template

namespace StackProvider

variable {p : StackProvider} {t t' : FileTree} {top : Location}
  {name name' l l' b b' : String} {B : String → Prop}

open Template (bucketName)

/-- Calls with templates that name none of their buckets. -/
def Unnamed (p : StackProvider) (t : FileTree) : CloudAction → Prop
  | .stack (.create _ body) =>
    ∀ template, Template.parse (some body) = .ok template → Template.Unnamed template
  | .stack (.update _ url) => ∀ template, p.Fetches t url template → Template.Unnamed template
  | _ => True

/-- Nothing is recorded where there are no stacks. -/
theorem Vacant.not_records (h : p.Vacant top t) (hn : SimpleName name) :
    ¬p.Records t name l b := by
  rintro ⟨doc, ⟨-, hentry⟩, -⟩
  rw [h.nothing "stacks" (by simp) _ (stacksPlace_above _ hn)] at hentry
  cases hentry

/-- A bucket that is recorded by a stack is named after it. -/
theorem Reached.named (h : p.Reached top p.Unnamed t) (hn : SimpleName name)
    (hrecords : p.Records t name l b) : b = bucketName name l := by
  induction h generalizing l b with
  | start h => exact absurd hrecords (h.not_records hn)
  | @step t h a ha hunnamed ih =>
    have horderly := h.orderly
    have hwork : (p.after a t).workDir = t.workDir := horderly.work_after ha
    cases horderly.becomes ha hn with
    | stays hentry =>
      exact ih (hrecords.of_entry hwork.symm (by rw [hwork]; exact hentry.symm))
    | goes hnone =>
      obtain ⟨doc, ⟨-, hentry⟩, -⟩ := hrecords
      rw [hwork, hnone] at hentry
      cases hentry
    | saved doc hd hstored hrewrites =>
      have hget := (hstored.records_iff hd).1 hrecords
      have hbound {template : Json} (hno : Template.Unnamed template)
          (hmem : (l, b) ∈ Template.bindings name template) : b = bucketName name l := by
        obtain ⟨spec, hspec, rfl, rfl⟩ := Template.mem_bindings.1 hmem
        exact Template.physical_of_unnamed hno hspec
      generalize hbuckets : doc.buckets = buckets at hrewrites hget
      cases hrewrites with
      | same hload => exact ih ((horderly.records_iff hn hload).2 hget)
      | rolledBack _ => cases hget
      | created _ hparse =>
        exact hbound (hunnamed _ hparse) (TextMap.mem_of_mem_ofList (TextMap.mem_of_get? hget))
      | updated hload hfetches _ _ =>
        rcases TextMap.get?_union _ _ l with ⟨-, hold⟩ | ⟨b', hmem, hnew⟩
        · exact ih ((horderly.records_iff hn hload).2 (hold ▸ hget))
        · rw [hnew, Option.some.injEq] at hget
          exact hbound (hunnamed _ hfetches) (hget ▸ hmem)

/-! ## Other buckets -/

/-- A bucket that is as it was, with all that is in it. -/
structure Untouched (p : StackProvider) (b : String) (t t' : FileTree) : Prop where
  files : ∀ l, p.objects.bucketPlace t.workDir b <+: l → t'.entry? l = t.entry? l
  present : p.objects.bucketExists t' b = p.objects.bucketExists t b
  index : p.objects.readIndex t' b = p.objects.readIndex t b
  contents : ∀ key, p.objects.content t' b key = p.objects.content t b key

/-- What happens beside a bucket leaves it as it was. -/
theorem untouched_of_around {S : Location → Prop} (h : p.objects.Steady top t)
    (h' : p.objects.Steady top t') (haround : Around S t t')
    (hS : ∀ l, p.objects.bucketPlace t.workDir b <+: l → ∀ spot, S spot →
      ¬spot <+: l ∧ ¬l <+: spot) : p.Untouched b t t' := by
  have hfiles (l : Location) (hl : p.objects.bucketPlace t.workDir b <+: l) :
      t'.entry? l = t.entry? l := haround.entry l (hS l hl)
  have hindex : p.objects.readIndex t' b = p.objects.readIndex t b :=
    ObjectStore.readIndex_congr h.tidy h'.tidy h.within haround.work
      (hfiles _ (ObjectStore.bucketPlace_prefix_index _))
  refine ⟨hfiles, ObjectStore.bucketExists_congr h.tidy h'.tidy h.within haround.work
    (hfiles _ List.prefix_rfl), hindex, fun key => Option.ext fun body => ?_⟩
  rw [ObjectStore.content_eq_some_of_sound h'.tidy h'.within h'.sound,
    ObjectStore.content_eq_some_of_sound h.tidy h.within h.sound, hindex, haround.work]
  refine exists_congr fun dir => exists_congr fun i => exists_congr fun v => ?_
  rw [hfiles _ (ObjectStore.bucketPlace_prefix_blob _ _)]

/-- Deleting a stack leaves a bucket that it does not record as it was. -/
theorem Orderly.untouched_of_delete (h : p.Orderly top t) (hn : SimpleName name)
    (hno : ∀ l, ¬p.Records t name l b) : p.Untouched b t (p.delete name t).2 := by
  obtain ⟨h', haround⟩ := h.answer (.delete name) fun _ hname => by cases hname; exact hn
  refine untouched_of_around h.steady h'.steady (haround name rfl) fun l hl =>
    beside_sphere_bucket h.root hn ?_ hl
  rintro ⟨doc, hload, hb⟩
  obtain ⟨⟨l, b'⟩, hmem, rfl⟩ := List.mem_map.1 hb
  exact hno l ((h.records_iff hn hload).2
    (TextMap.get?_of_mem (h.canonical_of_load hn hload).2 hmem))

/-- Acting on some buckets leaves others as they were. -/
theorem Orderly.untouched_of_actAll (h : p.Orderly top t) (as : List StoreAction)
    (has : ∀ a ∈ as, a.Proper ∧ a.bucket ≠ b) :
    p.Untouched b t (p.objects.actAll as t) := by
  have hall : p.objects.Settled top (p.objects.actAll as t) ∧
      Around (fun l => ∃ a ∈ as, l = p.objects.bucketPlace t.workDir a.bucket) t
        (p.objects.actAll as t) := by
    have hsettled := h.settled
    clear h
    induction as generalizing t with
    | nil => exact ⟨hsettled, .refl ..⟩
    | cons a as ih =>
      have ha := has a List.mem_cons_self
      have hfirst := hsettled.act_around ha.1
      have hsettled' : p.objects.Settled top (p.objects.act a t).2 := by
        obtain ⟨hsteady, hlessened⟩ := hsettled.act a
        exact hsettled.of_lessened hsteady hlessened
      obtain ⟨hlast, haround⟩ := ih (fun a ha => has a (List.mem_cons_of_mem _ ha)) hsettled'
      refine ⟨hlast, (hfirst.mono ?_).trans (haround.mono ?_)⟩
      · rintro l rfl
        exact ⟨_, ⟨a, List.mem_cons_self, rfl⟩, List.prefix_rfl⟩
      · rintro l ⟨a', ha', rfl⟩
        exact ⟨_, ⟨a', List.mem_cons_of_mem _ ha', by rw [hfirst.work]⟩, List.prefix_rfl⟩
  refine untouched_of_around h.steady hall.1.steady hall.2 ?_
  rintro l hl spot ⟨a, ha, rfl⟩
  rw [ObjectStore.bucketPlace_eq] at hl
  exact beside_of_ne (has a ha).2 (by rw [ObjectStore.bucketPlace_eq]) hl

/-- Where no template names its buckets, two stacks record the same bucket only if the names of both
are joined to the same text, and then the name of one of the stacks begins like that of the other. A
bucket that the one stack records and the other does not is left as it was when the other is deleted
and whatever is done to the buckets of the other. -/
theorem exclusive_of_unnamed (h : p.Reached top p.Unnamed t) (hn : SimpleName name)
    (hn' : SimpleName name') (hne : name' ≠ name) :
    (∀ l l' b, p.Records t name l b → p.Records t name' l' b →
      bucketName name l = bucketName name' l' ∧ ¬Template.NamesApart name name') ∧
    ∀ l' b, p.Records t name' l' b → (∀ l, ¬p.Records t name l b) →
      (p.Untouched b t (p.delete name t).2 ∧ p.load (p.delete name t).2 name' = p.load t name') ∧
      ∀ as, (∀ a ∈ as, a.Proper ∧ ∃ l, p.Records t name l a.bucket) →
        p.Untouched b t (p.objects.actAll as t) := by
  have horderly := h.orderly
  constructor
  · intro l l' b hrecords hrecords'
    have hjoined : bucketName name l = bucketName name' l' := by
      rw [← h.named hn hrecords, ← h.named hn' hrecords']
    exact ⟨hjoined, fun hapart => Template.bucketName_ne_of_apart hapart l l' hjoined⟩
  · intro l' b _ hno
    refine ⟨⟨horderly.untouched_of_delete hn hno, ?_⟩, fun as has =>
      horderly.untouched_of_actAll as fun a ha => ⟨(has a ha).1, ?_⟩⟩
    · obtain ⟨h', haround⟩ :=
        horderly.answer (.delete name) fun _ hname => by cases hname; exact hn
      exact horderly.load_of_around h' (haround name rfl) hn hn' hne
    · obtain ⟨-, l, hl⟩ := has a ha
      intro heq
      exact hno l (heq ▸ hl)

namespace Sample

theorem unnamed_template (t : FileTree) (name : String) :
    provider.Unnamed t (.stack (.create name template)) := by
  intro found hfound
  have hall : ((Template.parse (some template)).toOption.all fun found =>
      (Template.resources found).all fun e =>
        ((e.2.path? ["Properties", "BucketName"]).bind Json.str?).isNone) = true := by
    decide +kernel
  rw [hfound] at hall
  intro e he _
  simpa using List.all_eq_true.1 hall e he

/-- The disk with two stacks of one template. -/
def pair (name name' : String) : FileTree :=
  provider.after (.stack (.create name' template))
    (provider.after (.stack (.create name template)) .empty)

theorem reached_pair {name name' : String} (hn : SimpleName name) (hn' : SimpleName name') :
    provider.Reached ["cloud"] provider.Unnamed (pair name name') := by
  refine .step (.step (.start vacant) _ ?_ (unnamed_template _ _)) _ ?_ (unnamed_template _ _)
  · intro _ h
    cases h
    exact hn
  · intro _ h
    cases h
    exact hn'

/-- Two stages of one project. -/
def stages : FileTree := pair "shop-dev" "shop-prod"

/-- Two stages of one project that are told apart by case alone. -/
def alike : FileTree := pair "shop-dev" "shop-Dev"

/-- The template is accepted and declares a bucket of this name in a stack of that. -/
def Declares (name b : String) : Prop :=
  ∃ found, Template.parse (some template) = .ok found ∧
    Template.requestsFailure found = false ∧ ("B", b) ∈ Template.bindings name found

theorem declares_stages : Declares "shop-dev" "shop-dev-b" ∧
    Declares "shop-prod" "shop-prod-b" ∧ Declares "shop-Dev" "shop-dev-b" :=
  ⟨Template.exists_declares (by decide +kernel), Template.exists_declares (by decide +kernel),
    Template.exists_declares (by decide +kernel)⟩

/-- The stack of a stage is created. -/
def Creates (name : String) (t : FileTree) : Prop :=
  (provider.create name template t).1.toOption = some .created

/-- All the stacks are created, and the bucket that two of them share is empty. -/
theorem creates_stages : Creates "shop-dev" .empty ∧
    Creates "shop-prod" (provider.after (.stack (.create "shop-dev" template)) .empty) ∧
    Creates "shop-Dev" (provider.after (.stack (.create "shop-dev" template)) .empty) ∧
    holdsLasting "shop-Dev" template [("B", "shop-dev-b")] = true ∧
    (provider.anyFilled alike ["shop-dev-b"]).toOption = some false ∧
    provider.objects.bucketExists alike "shop-dev-b" = true := by
  unfold Creates
  decide +kernel

/-- Each of the two stacks records the bucket that its template declares. -/
theorem records_pair {name name' b b' : String} (hn : SimpleName name) (hn' : SimpleName name')
    (hne : name ≠ name') (hcreates : Creates name .empty)
    (hcreates' : Creates name' (provider.after (.stack (.create name template)) .empty))
    (hdeclares : Declares name b) (hdeclares' : Declares name' b') :
    provider.Records (pair name name') name "B" b ∧
      provider.Records (pair name name') name' "B" b' := by
  obtain ⟨found, hparse, hfails, hmem⟩ := hdeclares
  obtain ⟨found', hparse', hfails', hmem'⟩ := hdeclares'
  have hfirst := vacant.orderly.records_of_create hn
    (Prod.ext (ok_of_toOption hcreates) rfl) hparse hfails hmem
  have horderly := vacant.orderly.after (.stack (.create name template))
    fun _ h => by cases h; exact hn
  obtain ⟨-, haround⟩ := horderly.answer (.create name' template) fun _ h => by cases h; exact hn'
  have haround := haround name' rfl
  refine ⟨hfirst.of_entry haround.work ?_, horderly.records_of_create hn'
    (Prod.ext (ok_of_toOption hcreates') rfl) hparse' hfails' hmem'⟩
  exact haround.entry _ (beside_sphere_stack horderly.root hn' hn hne)

theorem records_stages : provider.Records stages "shop-dev" "B" "shop-dev-b" ∧
    provider.Records stages "shop-prod" "B" "shop-prod-b" :=
  records_pair (by decide) (by decide) (by decide) creates_stages.1 creates_stages.2.1
    declares_stages.1 declares_stages.2.1

theorem records_alike : provider.Records alike "shop-dev" "B" "shop-dev-b" ∧
    provider.Records alike "shop-Dev" "B" "shop-dev-b" :=
  records_pair (by decide) (by decide) (by decide) creates_stages.1 creates_stages.2.2.1
    declares_stages.1 declares_stages.2.2

theorem delete_alike : provider.objects.bucketExists (provider.delete "shop-Dev" alike).2
    "shop-dev-b" = false := by
  have hn : SimpleName "shop-Dev" := by decide
  have horderly : provider.Orderly ["cloud"] _ := vacant.orderly.after
    (.stack (.create "shop-dev" template)) fun _ h => by cases h; decide
  obtain ⟨-, -, hcreates, hlasts, hempty, -⟩ := creates_stages
  obtain ⟨found, hparse, hlasting⟩ := exists_lasting hlasts
  have hload := horderly.load_of_create hn hparse hlasting (create_eq hcreates)
  have hreached : provider.Reached ["cloud"] provider.Unnamed alike := reached_pair (by decide) hn
  obtain ⟨t', hdone, hgone⟩ := hreached.orderly.housed.delete_of_empty
    (contained_of_simple hn) hload (ok_of_toOption hempty)
  rw [hdone]
  exact hgone.buckets _ (List.mem_singleton.2 rfl)

end Sample

/-- The bucket of one stage stays as it was when another stage is deleted. -/
theorem exclusive_of_unnamed_sample :
    Sample.provider.Records Sample.stages "shop-prod" "B" "shop-prod-b" ∧
      (∀ l, ¬Sample.provider.Records Sample.stages "shop-dev" l "shop-prod-b") ∧
      Sample.provider.Untouched "shop-prod-b" Sample.stages
        (Sample.provider.delete "shop-dev" Sample.stages).2 := by
  have hdev : SimpleName "shop-dev" := by decide
  have hprod : SimpleName "shop-prod" := by decide
  have hreached := Sample.reached_pair hdev hprod
  have hrecords : Sample.provider.Records Sample.stages "shop-prod" "B" "shop-prod-b" :=
    Sample.records_stages.2
  obtain ⟨hshared, huntouched⟩ := exclusive_of_unnamed hreached hdev hprod (by decide)
  have hno (l : String) : ¬Sample.provider.Records Sample.stages "shop-dev" l "shop-prod-b" :=
    fun hl => (hshared l "B" _ hl hrecords).2 (by decide +kernel)
  exact ⟨hrecords, hno, (huntouched "B" _ hrecords hno).1.1⟩

/-- Two stages whose names differ in case alone share their buckets: deleting one of them takes the
bucket of the other away. -/
theorem shared_by_two_stages :
    Sample.provider.Reached ["cloud"] Sample.provider.Unnamed Sample.alike ∧
      Sample.provider.Records Sample.alike "shop-dev" "B" "shop-dev-b" ∧
      Sample.provider.Records Sample.alike "shop-Dev" "B" "shop-dev-b" ∧
      Sample.provider.objects.bucketExists Sample.alike "shop-dev-b" = true ∧
      Sample.provider.objects.bucketExists (Sample.provider.delete "shop-Dev" Sample.alike).2
        "shop-dev-b" = false := by
  exact ⟨Sample.reached_pair (by decide) (by decide), Sample.records_alike.1,
    Sample.records_alike.2, Sample.creates_stages.2.2.2.2.2, Sample.delete_alike⟩

end StackProvider

end Rollout
