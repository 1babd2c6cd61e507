import Rollout.Proofs.Cloud.Exclusive

/-!
The buckets of a stack over its life. A ledger is kept of the buckets that the calls about a stack
have provisioned since the stack was not there. As long as no call provisions another bucket under a
logical name that is taken, the document of the stack records all of them, through updates that drop
resources, failed ones and deletions that did not go through; so none is left when the stack goes.
-/

namespace Rollout

open FileTree Outcome

namespace StackProvider

variable {p : StackProvider} {t t' : FileTree} {top : Location} {name l b : String}
  {a : CloudAction} {made : String → String → Prop}

/-- A call about a stack that succeeds and gives the stack a bucket of its template. -/
def Provisions (p : StackProvider) (t : FileTree) (name l b : String) : CloudAction → Prop
  | .stack (.create other body) => other = name ∧ (p.create name body t).1 = .ok .created ∧
    ∃ template, Template.parse (some body) = .ok template ∧
      Template.requestsFailure template = false ∧ (l, b) ∈ Template.bindings name template
  | .stack (.update other url) => other = name ∧ (p.update name url t).1 = .ok .updating ∧
    ∃ template, p.Fetches t url template ∧
      Template.requestsFailure template = false ∧ (l, b) ∈ Template.bindings name template
  | _ => False

/-- The life of a stack: what the cloud has become since the stack was not there, and which buckets
have been provisioned for it since, under which logical names. A logical name stands for one bucket
at a time. -/
inductive Life (p : StackProvider) (top : Location) (name : String) :
    FileTree → (String → String → Prop) → Prop where
  | begin {t : FileTree} (h : p.Reached top (fun _ _ => True) t)
    (hnone : p.load t name = .ok none) : Life p top name t fun _ _ => False
  | step {t : FileTree} {made : String → String → Prop} (h : Life p top name t made)
    (a : CloudAction) (ha : a.Simple)
    (hbound : ∀ l b b', p.Records t name l b → p.Provisions t name l b' a → b' = b)
    (hstays : p.load (p.after a t) name ≠ .ok none) :
    Life p top name (p.after a t) fun l b => made l b ∨ p.Provisions t name l b a

theorem Life.reached (h : p.Life top name t made) : p.Reached top (fun _ _ => True) t := by
  induction h with
  | begin h _ => exact h
  | step _ a ha _ _ ih => exact .step ih a ha trivial

/-! ## What is recorded -/

/-- What a call provisions is recorded, -/
theorem Orderly.records_of_provisions (h : p.Orderly top t) (hn : SimpleName name)
    (hmade : p.Provisions t name l b a) : p.Records (p.after a t) name l b := by
  cases a with
  | store a => exact hmade.elim
  | stack c =>
    cases c with
    | create other body =>
      obtain ⟨rfl, hcreated, template, hparse, hfails, hmem⟩ := hmade
      exact h.records_of_create hn (Prod.ext hcreated rfl) hparse hfails hmem
    | update other url =>
      obtain ⟨rfl, hupdated, template, hfetches, hfails, hmem⟩ := hmade
      exact h.records_of_update hn (Prod.ext hupdated rfl) hfetches hfails hmem
    | delete other => exact hmade.elim
    | status other => exact hmade.elim
    | listExports token => exact hmade.elim

/-- and what was recorded stays so, unless its logical name is given to another bucket or the stack
goes. -/
theorem Orderly.records_after (h : p.Orderly top t) (ha : a.Simple) (hn : SimpleName name)
    (hrecords : p.Records t name l b)
    (hbound : ∀ b', p.Provisions t name l b' a → b' = b)
    (hstays : p.load (p.after a t) name ≠ .ok none) : p.Records (p.after a t) name l b := by
  have hwork : (p.after a t).workDir = t.workDir := h.work_after ha
  cases h.becomes ha hn with
  | stays hentry => exact hrecords.of_entry hwork hentry
  | goes hnone =>
    rw [← hwork] at hnone
    exact absurd ((h.after a ha).load_of_missing hn hnone) hstays
  | saved doc hd hstored hrewrites =>
    rw [hstored.records_iff hd]
    generalize doc.buckets = buckets at hrewrites
    cases hrewrites with
    | same hload => exact (h.records_iff hn hload).1 hrecords
    | rolledBack hload => exact absurd hload (h.load_of_records hn hrecords)
    | created hload _ => exact absurd hload (h.load_of_records hn hrecords)
    | updated hload hfetches hfails hdone =>
      have hold := (h.records_iff hn hload).1 hrecords
      rcases TextMap.get?_union _ (Template.bindings name _) l with ⟨-, hsame⟩ | ⟨b', hmem, hnew⟩
      · rw [hsame, hold]
      · rw [hnew, hbound b' ⟨rfl, hdone, _, hfetches, hfails, hmem⟩]

/-- All that was provisioned for a stack is recorded. -/
theorem Life.records (h : p.Life top name t made) (hn : SimpleName name) (hmade : made l b) :
    p.Records t name l b := by
  induction h generalizing l b with
  | begin _ _ => exact hmade.elim
  | @step t made h a ha hbound hstays ih =>
    have horderly := h.reached.orderly
    rcases hmade with hmade | hmade
    · exact horderly.records_after ha hn (ih hmade) (fun b' => hbound l b b' (ih hmade)) hstays
    · exact horderly.records_of_provisions hn hmade

/-- A stack that was deleted and is not there leaves none of the buckets that it recorded. -/
theorem Orderly.not_exists_of_delete (h : p.Orderly top t) (hn : SimpleName name)
    {r : Except ProviderError Unit} (hrun : p.delete name t = (r, t'))
    (hnone : p.load t' name = .ok none) (hrecords : p.Records t name l b) :
    p.objects.bucketExists t' b = false := by
  have hthere := h.load_of_records hn hrecords
  cases h.housed.whole (contained_of_simple hn) hrun with
  | failed e => exact absurd hnone hthere
  | missing hload => exact absurd hload hthere
  | gone doc hload hgone =>
    have hmem := TextMap.mem_of_get? ((h.records_iff hn hload).1 hrecords)
    exact hgone.buckets b (List.mem_map.2 ⟨(l, b), hmem, rfl⟩)
  | marked doc hload hmarked =>
    obtain ⟨found, hfound, -⟩ := hmarked.document
    rw [hfound] at hnone
    cases hnone

/-- No bucket is leaked: whatever was provisioned over the life of a stack is recorded by it, and
nothing of it exists once the stack was deleted and is not there. -/
theorem no_bucket_leaked (h : p.Life top name t made) (hn : SimpleName name) :
    (∀ l b, made l b → p.Records t name l b) ∧
      ∀ r t', p.delete name t = (r, t') → p.load t' name = .ok none →
        ∀ l b, made l b → p.objects.bucketExists t' b = false :=
  ⟨fun _ _ => h.records hn, fun _ _ hrun hnone _ _ hmade =>
    h.reached.orderly.not_exists_of_delete hn hrun hnone (h.records hn hmade)⟩

namespace Sample

theorem provisions_single :
    provider.Provisions .empty "s" "B" "s-b" (.stack (.create "s" template)) :=
  ⟨rfl, congrArg Prod.fst create_single, Template.exists_declares (by decide +kernel)⟩

theorem life_single : provider.Life ["cloud"] "s" single fun l b =>
    False ∨ provider.Provisions .empty "s" l b (.stack (.create "s" template)) := by
  have horderly : provider.Orderly ["cloud"] .empty := vacant.orderly
  have hn : SimpleName "s" := by decide
  have hnone : provider.load .empty "s" = .ok none := horderly.load_of_missing hn rfl
  have hsimple : (CloudAction.stack (.create "s" template)).Simple := fun _ h => by cases h; exact hn
  refine .step (.begin (.start vacant) hnone) _ hsimple (fun l b b' hrecords _ => ?_) ?_
  · exact absurd hnone (horderly.load_of_records hn hrecords)
  · exact (horderly.after _ hsimple).load_of_records hn
      (horderly.records_of_provisions hn provisions_single)

/-- The disk after an update that gives the logical name of a bucket to another. -/
def rebound : FileTree :=
  [CloudAction.stack (.create "s" (boxed "x")), .store (.createBucket "c"),
    .store (.call (.put "c" "k" (boxed "y").toUTF8)), .stack (.update "s" "local://c/k")].foldl
      (fun t a => provider.after a t) .empty

/-- The disk before that update. -/
def offered : FileTree :=
  provider.after (.store (.call (.put "c" "k" (boxed "y").toUTF8)))
    (provider.after (.store (.createBucket "c"))
      (provider.after (.stack (.create "s" (boxed "x"))) .empty))

/-- The disk when the update has made its bucket. -/
def widened : FileTree := (provider.provision [⟨"B", "y", false⟩] offered).2

theorem offered_eq : offered = offering (boxed "x") "c" (boxed "y") := by
  rw [offered, offering, beside]

theorem offered_spec :
    (provider.create "s" (boxed "x") .empty).1.toOption = some .created ∧
      (provider.objects.put "c" "k" (boxed "y").toUTF8 (beside (boxed "x") "c")).1.toOption =
        some () ∧
      (holdsLasting "s" (boxed "x") [("B", "x")] = true ∧
        holdsLasting "s" (boxed "y") [("B", "y")] = true ∧
        ((Template.parse (some (boxed "y"))).toOption.any fun template =>
          decide (Template.buckets "s" template = [⟨"B", "y", false⟩]) &&
            (Template.parse (some (boxed "x"))).toOption.all fun old => !template.same old) =
          true) ∧
      (provider.provision [⟨"B", "y", false⟩] offered).1.toOption = some [("B", "y")] ∧
      (provider.anyFilled widened ["y"]).toOption = some false ∧
      provider.objects.bucketExists widened "x" = true := by
  decide +kernel

theorem orderly_offered : provider.Orderly ["cloud"] offered := by
  rw [offered_eq]
  exact orderly_offering ..

theorem load_offered : ∃ value, Template.parse (some (boxed "x")) = .ok value ∧
    provider.load offered "s" = .ok (some (created value [("B", "x")])) := by
  have hn : SimpleName "s" := by decide
  obtain ⟨hcreated, -, ⟨hlasts, -⟩, -⟩ := offered_spec
  obtain ⟨value, hparse, hlasting⟩ := exists_lasting hlasts
  have hrun : provider.create "s" (boxed "x") .empty =
      (.ok .created, provider.after (.stack (.create "s" (boxed "x"))) .empty) := by
    refine Prod.ext (ok_of_toOption hcreated) ?_
    simp only [after, answer]
  refine ⟨value, hparse, ?_⟩
  rw [offered_eq, load_offering]
  exact vacant.orderly.load_of_create hn hparse hlasting hrun

/-- The stack has another bucket now, and the one that it was created with is still there. -/
theorem rebound_spec : provider.Orderly ["cloud"] rebound ∧
    (∃ doc, provider.load rebound "s" = .ok (some doc) ∧ doc.buckets = [("B", "y")]) ∧
    provider.anyFilled rebound ["y"] = .ok false ∧
    provider.objects.bucketExists rebound "x" = true := by
  have hn : SimpleName "s" := by decide
  obtain ⟨-, hput, ⟨-, hlasts, htemplate⟩, hmade, hempty, hx⟩ := offered_spec
  obtain ⟨old, hold, hload⟩ := load_offered
  obtain ⟨template, hparse, hlasting⟩ := exists_lasting hlasts
  simp only [hparse, hold, Except.toOption, Option.any_some, Option.all_some, Bool.and_eq_true,
    Bool.not_eq_true', decide_eq_true_eq] at htemplate
  obtain ⟨hbuckets, hnew⟩ := htemplate
  have hfetches : provider.Fetches offered "local://c/k" template := by
    rw [offered_eq]
    exact fetches_offering (by decide) hput hparse
  have hprovision : provider.provision (Template.buckets "s" template) offered =
      (.ok [("B", "y")], widened) := by
    rw [hbuckets]
    exact Prod.ext (ok_of_toOption hmade) (by rw [widened])
  obtain ⟨t', hupdate, hsave⟩ :=
    orderly_offered.update_of_provision hn hload hfetches hnew hlasting.succeeds hprovision
  have hrebound : rebound = t' := by
    rw [rebound, List.foldl_cons, List.foldl_cons, List.foldl_cons, List.foldl_cons,
      List.foldl_nil, ← offered, after_stack]
    exact congrArg Prod.snd hupdate
  have hwidened := orderly_offered.of_provision hprovision
  -- saving the document leaves both buckets alone
  obtain ⟨h', haround, -⟩ := save_cases hwidened hn (TextMap.ordered_ofList [("B", "y")]) hsave
  have hsphere : Around (provider.Sphere widened.workDir "s" fun _ => False) widened t' :=
    haround.mono fun l hl => ⟨l, .inl hl, List.prefix_rfl⟩
  have huntouched (b : String) : provider.Untouched b widened t' :=
    untouched_of_around hwidened.steady h'.steady hsphere
      fun _ => beside_sphere_bucket hwidened.root hn id
  rw [hrebound]
  refine ⟨h', ⟨_, orderly_offered.load_of_update hn hload hfetches hlasting hupdate, rfl⟩, ?_,
    (huntouched "x").present.trans hx⟩
  refine anyFilled_eq_false.2 fun b hb hexists => ?_
  rw [(huntouched b).present] at hexists
  rw [ObjectStore.isEmpty_congr (huntouched b).index]
  exact anyFilled_eq_false.1 (ok_of_toOption hempty) b hb hexists

end Sample

/-- A stack that is deleted after it was created takes its bucket along. -/
theorem no_bucket_leaked_sample :
    Sample.provider.load (Sample.provider.delete "s" Sample.single).2 "s" = .ok none ∧
      Sample.provider.objects.bucketExists (Sample.provider.delete "s" Sample.single).2 "s-b" =
        false := by
  have hn : SimpleName "s" := by decide
  obtain ⟨t', hdone, hnone⟩ := Sample.delete_single
  rw [hdone]
  exact ⟨hnone, (no_bucket_leaked Sample.life_single hn).2 _ _ hdone hnone "B" "s-b"
    (.inr Sample.provisions_single)⟩

/-- A bucket is leaked when its logical name is given to another: the stack is gone, and the bucket
that it was created with is still there. -/
theorem rebound_leaks :
    (Sample.provider.create "s" (Sample.boxed "x") .empty).1 = .ok .created ∧
      (Sample.provider.delete "s" Sample.rebound).1 = .ok () ∧
      Sample.provider.status (Sample.provider.delete "s" Sample.rebound).2 "s" = .ok .absent ∧
      Sample.provider.objects.bucketExists (Sample.provider.delete "s" Sample.rebound).2 "x" =
        true := by
  have hn : SimpleName "s" := by decide
  obtain ⟨horderly, ⟨doc, hload, hbuckets⟩, hempty, hx⟩ := Sample.rebound_spec
  obtain ⟨t', hdone, hgone⟩ := horderly.housed.delete_of_empty (contained_of_simple hn) hload
    (hbuckets.symm ▸ hempty)
  have huntouched := horderly.untouched_of_delete (b := "x") hn fun l hrecords => by
    have hget := (horderly.records_iff hn hload).1 hrecords
    rw [hbuckets] at hget
    exact absurd (TextMap.mem_of_get? hget) (by simp)
  rw [hdone] at huntouched ⊢
  refine ⟨ok_of_toOption Sample.offered_spec.1, rfl, ?_, huntouched.present.trans hx⟩
  rw [status, hgone.document]

end StackProvider

end Rollout
