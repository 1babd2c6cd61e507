import Rollout.Proofs.Cloud.Orderly

/-!
The buckets that a stack records. A call about a stack leaves the buckets that its document says,
or adds those of a new template to them; of two buckets for one logical name the later stands.
-/

namespace Rollout

open FileTree Outcome

namespace Template

variable {template : Json} {name : String} {spec spec' : BucketSpec}

/-- The resources of a template that was read have one name each. -/
theorem ordered_resources (h : template.Canonical) : (resources template).Ordered := by
  unfold resources
  cases hfound : (template.member? "Resources").bind Json.members? with
  | none => exact TextMap.Ordered.nil
  | some found =>
    obtain ⟨v, hv, hmembers⟩ := Option.bind_eq_some_iff.1 hfound
    obtain ⟨members, htemplate, hget⟩ := Option.bind_eq_some_iff.1 hv
    cases template with
    | obj ms =>
      cases htemplate
      have hcanonical := Json.canonicalMembers_iff.1 h.2 _ (TextMap.mem_of_get? hget)
      cases v with
      | obj ms' =>
        cases hmembers
        exact hcanonical.1
      | _ => cases hmembers
    | _ => cases htemplate

/-- So have the buckets it declares. -/
theorem eq_of_logical (h : template.Canonical) (hspec : spec ∈ buckets name template)
    (hspec' : spec' ∈ buckets name template) (heq : spec.logical = spec'.logical) :
    spec = spec' := by
  simp only [buckets, List.mem_map, List.mem_filter] at hspec hspec'
  obtain ⟨⟨l, r⟩, ⟨hr, -⟩, rfl⟩ := hspec
  obtain ⟨⟨l', r'⟩, ⟨hr', -⟩, rfl⟩ := hspec'
  obtain rfl : l = l' := heq
  have hget := TextMap.get?_of_mem (ordered_resources h) hr
  rw [TextMap.get?_of_mem (ordered_resources h) hr', Option.some.injEq] at hget
  rw [hget]

/-- The pairs of logical and physical names that a template declares for a stack. -/
def bindings (name : String) (template : Json) : List (String × String) :=
  (buckets name template).map fun spec => (spec.logical, spec.physical)

theorem mem_bindings {l b : String} : (l, b) ∈ bindings name template ↔
    ∃ spec ∈ buckets name template, spec.logical = l ∧ spec.physical = b := by
  simp [bindings]

/-- A template that a text holds, if it declares a bucket and asks for no failure. -/
theorem exists_declares {name body l b : String}
    (h : ((parse (some body)).toOption.any fun template =>
      !requestsFailure template && decide ((l, b) ∈ bindings name template)) = true) :
    ∃ template, parse (some body) = .ok template ∧ requestsFailure template = false ∧
      (l, b) ∈ bindings name template := by
  obtain ⟨template, hparse, hall⟩ := (Option.any_eq_true ..).1 h
  simp only [Bool.and_eq_true, Bool.not_eq_true', decide_eq_true_eq] at hall
  exact ⟨template, ok_of_toOption hparse, hall⟩

/-- What a template declares stands in every map it is added to. -/
theorem get?_union_bindings {l b : String} (h : template.Canonical) (m : TextMap String)
    (hmem : (l, b) ∈ bindings name template) :
    TextMap.get? l (TextMap.union m (bindings name template)) = some b := by
  rcases TextMap.get?_union m (bindings name template) l with ⟨hno, -⟩ | ⟨b', hmem', hget⟩
  · exact absurd rfl (hno _ hmem)
  · obtain ⟨spec, hspec, rfl, rfl⟩ := mem_bindings.1 hmem
    obtain ⟨spec', hspec', hlogical, rfl⟩ := mem_bindings.1 hmem'
    rw [hget, eq_of_logical h hspec hspec' hlogical.symm]

end Template

namespace StackProvider

variable {p : StackProvider} {t t' : FileTree} {top : Location} {name l b : String}
  {doc : StackDoc} {a : CloudAction} {template : Json} {body url : String}

/-- The document of a stack names a bucket. -/
def Records (p : StackProvider) (t : FileTree) (name l b : String) : Prop :=
  ∃ doc, p.Stored t name doc ∧ doc.buckets.Ordered ∧ TextMap.get? l doc.buckets = some b

/-- What is loaded of a stack are the buckets its document names. -/
theorem Orderly.records_iff (h : p.Orderly top t) (hn : SimpleName name)
    (hload : p.load t name = .ok (some doc)) :
    p.Records t name l b ↔ TextMap.get? l doc.buckets = some b := by
  have hsame {doc' : StackDoc} (hstored : p.Stored t name doc') (hd : doc'.buckets.Ordered) :
      doc.buckets = doc'.buckets := by
    obtain ⟨found, hfound, hparse⟩ :=
      load_of_stored h.tidy h.within (contained_of_simple hn) hstored hload
    cases hfound
    exact (StackDoc.status_of_parse?_toJson hd hparse).2
  constructor
  · rintro ⟨doc', hstored, hd, hget⟩
    rw [hsame hstored hd, hget]
  · intro hget
    obtain ⟨-, content, -, hentry, -⟩ :=
      (load_eq_some h.tidy h.within (contained_of_simple hn)).1 hload
    obtain ⟨name', doc', hn', hplace, hd, hstored⟩ := h.documents _ (stacksPlace_above _ hn)
      (by rw [stackPlace_of_simple _ hn]; simp) (by rw [hentry]; exact nofun)
    obtain rfl := name_eq_of_stackPlace hn hn' hplace
    exact ⟨doc', hstored, hd, by rw [← hsame hstored hd, hget]⟩

/-- A document in place names the buckets that are in it. -/
theorem Stored.records_iff (hstored : p.Stored t name doc) (hd : doc.buckets.Ordered) :
    p.Records t name l b ↔ TextMap.get? l doc.buckets = some b := by
  refine ⟨?_, fun hget => ⟨doc, hstored, hd, hget⟩⟩
  rintro ⟨doc', hstored', hd', hget⟩
  have hbytes := hstored.2
  rw [hstored'.2, Option.some.injEq, Entry.file.injEq] at hbytes
  have htext := congrArg String.fromUTF8? hbytes
  rw [Text.fromUTF8?_toUTF8, Text.fromUTF8?_toUTF8, Option.some.injEq] at htext
  rw [← StackDoc.buckets_of_pretty_eq hd' hd htext, hget]

/-- A stack whose document is in place is there, if it can be loaded. -/
theorem Orderly.load_of_records (h : p.Orderly top t) (hn : SimpleName name)
    (hrecords : p.Records t name l b) : p.load t name ≠ .ok none := by
  intro hload
  obtain ⟨doc, hstored, -⟩ := hrecords
  obtain ⟨doc', hdoc', -⟩ := load_of_stored h.tidy h.within (contained_of_simple hn) hstored hload
  cases hdoc'

/-- A bucket is recorded as long as the document stays what it is. -/
theorem Records.of_entry (h : p.Records t name l b) (hwork : t'.workDir = t.workDir)
    (hentry : t'.entry? (p.stackPlace t.workDir name) = t.entry? (p.stackPlace t.workDir name)) :
    p.Records t' name l b := by
  obtain ⟨doc, ⟨hu, hstored⟩, hd, hget⟩ := h
  exact ⟨doc, ⟨hu, by rw [hwork, hentry, hstored]⟩, hd, hget⟩

/-- A stack that was created records the buckets of its template, -/
theorem Orderly.records_of_create (h : p.Orderly top t) (hn : SimpleName name)
    (hrun : p.create name body t = (.ok .created, t'))
    (hparse : Template.parse (some body) = .ok template)
    (hfails : Template.requestsFailure template = false)
    (hmem : (l, b) ∈ Template.bindings name template) : p.Records t' name l b := by
  rcases create_cases hrun with ⟨-, hcreated, -⟩ | ⟨template', r, -, hparse', hsettles, hr⟩
  · exact absurd rfl hcreated
  rw [hparse] at hparse'
  cases hparse'
  obtain ⟨⟩ | ⟨⟨⟩⟩ := r
  · cases hr
  rcases hsettles.stored h hn TextMap.Ordered.nil fun _ => TextMap.ordered_ofList _ with
    ⟨hfails', -⟩ | ⟨-, hstored⟩
  · rw [hfails] at hfails'
    cases hfails'
  · exact ⟨_, hstored, TextMap.ordered_ofList _,
      Template.get?_union_bindings (canonical_of_parse hparse) [] hmem⟩

/-- and so does one that was updated. -/
theorem Orderly.records_of_update (h : p.Orderly top t) (hn : SimpleName name)
    (hrun : p.update name url t = (.ok .updating, t')) (hfetches : p.Fetches t url template)
    (hfails : Template.requestsFailure template = false)
    (hmem : (l, b) ∈ Template.bindings name template) : p.Records t' name l b := by
  rcases update_cases hrun with
    ⟨-, hupdating, -⟩ | ⟨doc, template', r, hload, hfetches', -, hsettles, hr⟩
  · exact absurd rfl hupdating
  obtain rfl := hfetches.unique hfetches'
  obtain ⟨⟩ | ⟨⟨⟩⟩ := r
  · cases hr
  have hordered := (h.canonical_of_load hn hload).2
  rcases hsettles.stored h hn (show (restored doc).buckets.Ordered from hordered) fun _ =>
      hordered.union _ with ⟨hfails', -⟩ | ⟨-, hstored⟩
  · rw [hfails] at hfails'
    cases hfails'
  · obtain ⟨_, -, hparse⟩ := hfetches
    exact ⟨_, hstored, hordered.union _,
      Template.get?_union_bindings (canonical_of_parse hparse) doc.buckets hmem⟩

/-! ## What an action does to a document -/

/-- What a new document of a stack says about its buckets. -/
inductive Rewrites (p : StackProvider) (t : FileTree) (name : String) :
    CloudAction → TextMap String → Prop where
  | same {a : CloudAction} {old : StackDoc} (hload : p.load t name = .ok (some old)) :
    Rewrites p t name a old.buckets
  | rolledBack {body : String} (hload : p.load t name = .ok none) :
    Rewrites p t name (.stack (.create name body)) []
  | created {body : String} {template : Json} (hload : p.load t name = .ok none)
    (hparse : Template.parse (some body) = .ok template) :
    Rewrites p t name (.stack (.create name body))
      (TextMap.ofList (Template.bindings name template))
  | updated {url : String} {template : Json} {old : StackDoc}
    (hload : p.load t name = .ok (some old)) (hfetches : p.Fetches t url template)
    (hfails : Template.requestsFailure template = false)
    (hdone : (p.update name url t).1 = .ok .updating) :
    Rewrites p t name (.stack (.update name url))
      (TextMap.union old.buckets (Template.bindings name template))

/-- What becomes of the document of a stack. -/
inductive Becomes (p : StackProvider) (name : String) (a : CloudAction) (t t' : FileTree) :
    Prop where
  | stays (hentry : t'.entry? (p.stackPlace t.workDir name) =
      t.entry? (p.stackPlace t.workDir name))
  | goes (hnone : t'.entry? (p.stackPlace t.workDir name) = none)
  | saved (doc : StackDoc) (hd : doc.buckets.Ordered) (hstored : p.Stored t' name doc)
    (hrewrites : p.Rewrites t name a doc.buckets)

/-- A stack that got a document or not. -/
theorem Settles.becomes {template : Json} {failed : StackDoc}
    {done : List (String × String) → StackDoc} {r : Except ProviderError Unit}
    (hs : p.Settles name template failed done t r t') (h : p.Orderly top t) (hn : SimpleName name)
    (hfailed : failed.buckets.Ordered) (hdone : ∀ buckets, (done buckets).buckets.Ordered)
    (hrolledBack : p.Rewrites t name a failed.buckets)
    (hmade : Template.requestsFailure template = false → r = .ok () →
      p.Rewrites t name a (done (Template.bindings name template)).buckets) :
    p.Becomes name a t t' := by
  obtain ⟨e⟩ | ⟨⟨⟩⟩ := r
  · exact .stays (hs.entry_of_error h hn hfailed hdone name hn)
  · rcases hs.stored h hn hfailed hdone with ⟨-, hstored⟩ | ⟨hfails, hstored⟩
    · exact .saved failed hfailed hstored hrolledBack
    · exact .saved _ (hdone _) hstored (hmade hfails rfl)

/-- A stack that was to be deleted. -/
theorem Removes.becomes {r : Except ProviderError Unit} (hr : p.Removes name doc t r t')
    (h : p.Orderly top t) (hn : SimpleName name) (hload : p.load t name = .ok (some doc)) :
    p.Becomes name a t t' := by
  have hd : doc.buckets.Ordered := (h.canonical_of_load hn hload).2
  have hdeleted {r : Except ProviderError Unit} {t₁ : FileTree}
      (hrun : p.deleteBuckets (TextMap.values doc.buckets) t = (r, t₁)) :
      p.Orderly top t₁ ∧ t₁.workDir = t.workDir ∧
        t₁.entry? (p.stackPlace t.workDir name) = t.entry? (p.stackPlace t.workDir name) := by
    obtain ⟨hsteady, haround⟩ := deleteBuckets_around _ h.settled hrun
    refine ⟨h.of_around hsteady haround fun l ⟨b, _, hl⟩ => ⟨b, hl⟩, haround.work,
      haround.entry _ ?_⟩
    rintro spot ⟨b, -, rfl⟩
    exact beside_bucket h.root (stacksPlace_above _ hn) b
  cases hr with
  | filled _ hsave =>
    obtain ⟨-, -, hsaved, hunsaved⟩ :=
      save_cases h hn (show (undeleted doc).buckets.Ordered from hd) hsave
    have hsame : p.Rewrites t name a doc.buckets := .same hload
    by_cases hok : r = .ok ()
    · exact .saved (undeleted doc) hd (hsaved hok) hsame
    · exact .stays (hunsaved hok)
  | stuck _ hbuckets => exact .stays (hdeleted hbuckets).2.2
  | emptied _ hbuckets hremove _ =>
    obtain ⟨h₁, hwork, hsame⟩ := hdeleted hbuckets
    obtain ⟨-, hpruned, -⟩ := remove_cases h₁ hn hremove
    rcases hpruned.entry (p.stackPlace t.workDir name) with hstays | ⟨-, hnone⟩
    · exact .stays (hstays.trans hsame)
    · exact .goes hnone

/-- What an action does to the document of a stack. -/
theorem Orderly.becomes (h : p.Orderly top t) (ha : a.Simple) (hn : SimpleName name) :
    p.Becomes name a t (p.after a t) := by
  cases a with
  | store a =>
    obtain ⟨t₁, haround, hpruned⟩ := (h.settled.act a).2
    have hbeside : t₁.entry? (p.stackPlace t.workDir name) =
        t.entry? (p.stackPlace t.workDir name) := by
      refine haround.entry _ fun spot hspot => ?_
      rw [hspot]
      exact beside_bucket h.root (stacksPlace_above _ hn) a.bucket
    rcases hpruned.entry (p.stackPlace t.workDir name) with hstays | ⟨-, hnone⟩
    · exact .stays (hstays.trans hbeside)
    · exact .goes hnone
  | stack c =>
    have hother {other : String} (hname : c.name? = some other) (hne : name ≠ other) :
        p.Becomes name (.stack c) t (p.after (.stack c) t) :=
      .stays (((h.answer c ha).2 other hname).entry _
        (beside_sphere_stack h.root (ha other hname) hn hne))
    cases c with
    | create other body =>
      by_cases hne : name = other
      · subst hne
        rcases create_cases (Prod.eta (p.create name body t)).symm with
          ⟨hsame, -⟩ | ⟨template, r, hload, hparse, hsettles, -⟩
        · exact .stays (congrArg (fun t' => t'.entry? (p.stackPlace t.workDir name)) hsame)
        · exact hsettles.becomes h hn TextMap.Ordered.nil (fun _ => TextMap.ordered_ofList _)
            (.rolledBack hload) fun _ _ => .created hload hparse
      · exact hother rfl hne
    | update other url =>
      by_cases hne : name = other
      · subst hne
        rcases update_cases (Prod.eta (p.update name url t)).symm with
          ⟨hsame, -⟩ | ⟨doc, template, r, hload, hfetches, -, hsettles, hr⟩
        · exact .stays (congrArg (fun t' => t'.entry? (p.stackPlace t.workDir name)) hsame)
        · have hd := (h.canonical_of_load hn hload).2
          have hsame : p.Rewrites t name (.stack (.update name url)) doc.buckets := .same hload
          refine hsettles.becomes h hn hd (fun _ => hd.union _) hsame fun hfails hok => ?_
          exact .updated hload hfetches hfails (by rw [hr, hok]; rfl)
      · exact hother rfl hne
    | delete other =>
      by_cases hne : name = other
      · subst hne
        rcases delete_cases (Prod.eta (p.delete name t)).symm with
          ⟨hsame, -⟩ | ⟨doc, hload, hremoves⟩
        · exact .stays (congrArg (fun t' => t'.entry? (p.stackPlace t.workDir name)) hsame)
        · exact hremoves.becomes h hn hload
      · exact hother rfl hne
    | status other => exact .stays rfl
    | listExports token => exact .stays rfl

end StackProvider

end Rollout
