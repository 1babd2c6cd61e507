import Rollout.Proofs.Cloud.Orderly
import Rollout.Proofs.Files.Listing

/-!
Clouds that can be read. The document of a stack lies one level around its template, so a template
that leaves a level of nesting is read back where it was stored, and then the exports of all stacks
can be listed; a template that is accepted and leaves none makes its own stack unreadable and with
it the list of the exports.
-/

namespace Rollout

open FileTree Outcome Json

namespace StackProvider

variable {p : StackProvider} {t t' : FileTree} {top : Location} {name name' body url : String}
  {doc found : StackDoc} {Q : FileTree → CloudAction → Prop}

/-! ## Listing -/

theorem stackName?_document (name : String) :
    stackName? (name ++ documentEnding) = some name := by
  rw [stackName?, String.toList_append, List.reverse_append, Text.after?_append]
  simp

/-- Stacks that are listed have simple names. -/
theorem Orderly.simple_of_stackNames (h : p.Orderly top t) {names : List String}
    (hnames : p.stackNames t = .ok names) : ∀ name ∈ names, SimpleName name := by
  intro name hname
  unfold stackNames at hnames
  split at hnames
  · cases hnames
    cases hname
  split at hnames
  · cases hnames
  · rename_i files hlist
    cases hnames
    rw [(Text.sortWith_perm _ _).mem_iff, List.mem_filterMap] at hname
    obtain ⟨file, hfile, hstack⟩ := hname
    simp only [list, bind_eq_ok] at hlist
    obtain ⟨⟨l, e⟩, hfind, hlist⟩ := hlist
    split at hlist
    · rename_i heq
      cases heq
      cases hlist
      have hbelow := h.within.entry isEntry_stacks
      obtain ⟨-, rfl, -⟩ := (find_eq_ok h.tidy.wf h.tidy.free hbelow.near hbelow.file).1 hfind
      rw [isEntry_stacks.place_joinText] at hfile
      obtain ⟨name', doc, hn', hplace, -⟩ := h.documents _ (List.prefix_append _ _) (by simp)
        (mem_children.1 hfile)
      rw [stackPlace_of_simple _ hn', stacksPlace, List.append_cancel_left_eq, List.cons.injEq]
        at hplace
      rw [hplace.1, stackName?_document, Option.some.injEq] at hstack
      exact hstack ▸ hn'
    · cases hlist

/-- Where a stack is loaded, the stacks are in a directory. -/
theorem Orderly.exists_stackNames (h : p.Orderly top t) (hn : SimpleName name)
    (hload : p.load t name = .ok (some doc)) : ∃ names, p.stackNames t = .ok names := by
  obtain ⟨-, content, -, hentry, -⟩ :=
    (load_eq_some h.tidy h.within (contained_of_simple hn)).1 hload
  have hdir := h.tidy.wf.above _ _ hentry
  rw [stackPlace_of_simple _ hn, List.dropLast_concat] at hdir
  have hbelow : Below t.workDir top p.stacksDir := h.within.entry isEntry_stacks
  have hplace : p.stacksDir.place t.workDir = p.stacksPlace t.workDir :=
    isEntry_stacks.place_joinText _ _
  unfold stackNames
  split
  · exact ⟨_, rfl⟩
  · rename_i hexists
    obtain ⟨husable, -⟩ :=
      (exists?_eq_true h.tidy.wf h.tidy.free hbelow.near hbelow.file).1 (by simpa using hexists)
    have hfind : t.find p.stacksDir = .ok (p.stacksPlace t.workDir, .dir) :=
      (find_eq_ok h.tidy.wf h.tidy.free hbelow.near hbelow.file).2 ⟨husable, hplace.symm, hdir⟩
    simp only [list, hfind]
    exact ⟨_, rfl⟩

/-- Every stack can be loaded or is not there. -/
def Loads (p : StackProvider) (t : FileTree) : Prop :=
  ∀ name, SimpleName name → ∃ found, p.load t name = .ok found

/-- A provider that answers: every stack can be loaded and has a status, and the exports of all
stacks can be listed from every place whose page ends at a place that is a word. -/
structure Legible (p : StackProvider) (t : FileTree) : Prop where
  loads : p.Loads t
  statuses : ∀ name, SimpleName name → ∃ status, p.status t name = .ok status
  exports : ∀ token start, pageStart token = .ok start →
    start + p.pageSize.toNat < UInt64.size → ∃ all next, p.allExports t = .ok all ∧
      p.listExports t token = .ok ⟨(all.drop start).take p.pageSize.toNat, next⟩

/-- A page that ends at a word holds what follows its place, and the token of its end if more
follows. -/
theorem pageFrom_eq {all : List StackExport} {start : Nat}
    (h : start + p.pageSize.toNat < UInt64.size) :
    p.pageFrom all start = ⟨(all.drop start).take p.pageSize.toNat,
      if start + p.pageSize.toNat < all.length then some (toString (start + p.pageSize.toNat))
      else none⟩ := by
  have hend : p.pageEnd start all.length = min (start + p.pageSize.toNat) all.length := by
    rw [pageEnd, Nat.mod_eq_of_lt h]
  rw [pageFrom, hend, ← List.take_eq_take_min, List.drop_take, Nat.add_sub_cancel_left]
  by_cases hmore : start + p.pageSize.toNat < all.length
  · rw [Nat.min_eq_left (Nat.le_of_lt hmore)]
  · rw [Nat.min_eq_right (Nat.not_lt.1 hmore), if_neg (Nat.lt_irrefl _), if_neg hmore]

theorem exists_loadAll (hall : p.Loads t) (names : List String)
    (hnames : ∀ name ∈ names, SimpleName name) : ∃ docs, p.loadAll t names = .ok docs := by
  induction names with
  | nil => exact ⟨[], rfl⟩
  | cons name names ih =>
    obtain ⟨found, hload⟩ := hall name (hnames name List.mem_cons_self)
    obtain ⟨docs, hdocs⟩ := ih fun n hn => hnames n (List.mem_cons_of_mem _ hn)
    exact ⟨_, by rw [loadAll, hload, ok_bind, hdocs, ok_bind]; rfl⟩

/-- If every stack can be loaded, and there is one, the provider answers. -/
theorem Orderly.legible (h : p.Orderly top t) (hall : p.Loads t) (hn : SimpleName name)
    (hload : p.load t name = .ok (some doc)) : p.Legible t where
  loads := hall
  statuses name hname := by
    obtain ⟨found, hfound⟩ := hall name hname
    rw [status, hfound]
    cases found <;> exact ⟨_, rfl⟩
  exports token start hstart hword := by
    obtain ⟨names, hnames⟩ := h.exists_stackNames hn hload
    obtain ⟨docs, hdocs⟩ := exists_loadAll hall names (h.simple_of_stackNames hnames)
    have hall : p.allExports t = .ok (docs.flatMap StackDoc.exports) := by
      rw [allExports, hnames, ok_bind, hdocs]
      rfl
    exact ⟨_, _, hall, by rw [listExports, hall, ok_bind, hstart, ok_bind, pageFrom_eq hword]; rfl⟩

/-! ## Templates read back -/

/-- What is loaded of a stack that was saved is what its document says, but that the template is
read anew. -/
theorem load_stored_iff (ht : t.Tidy top) (hp : Within t.workDir top p.root) (hn : Contained name)
    (hstored : p.Stored t name doc) (hd : doc.buckets.Ordered) :
    p.load t name = .ok (some found) ↔ ∃ template,
      Written.value? (nestingLimit - 1) doc.template.written = some template ∧
        found = { doc with template } := by
  obtain ⟨husable, hentry⟩ := hstored
  rw [load_eq_some ht hp hn]
  constructor
  · rintro ⟨-, content, text, hcontent, htext, hdoc⟩
    rw [hentry] at hcontent
    cases hcontent
    rw [Text.fromUTF8?_toUTF8] at htext
    cases htext
    rw [StackDoc.parse?_toJson hd, Option.map_eq_some_iff] at hdoc
    exact hdoc.imp fun _ hdoc => ⟨hdoc.1, hdoc.2.symm⟩
  · rintro ⟨template, htemplate, rfl⟩
    refine ⟨husable, _, _, hentry, Text.fromUTF8?_toUTF8 _, ?_⟩
    rw [StackDoc.parse?_toJson hd, htemplate]
    rfl

/-- A template is what another is read back as: the same if its numbers are integers. -/
structure ReadBack (template found : Json) : Prop where
  value : Written.value? (nestingLimit - 1) template.written = some found
  same : template.integersOnly = true → found = template

/-- A stack that was saved is loaded if its template leaves a level of nesting. -/
theorem exists_load (ht : t.Tidy top) (hp : Within t.workDir top p.root) (hn : Contained name)
    (hstored : p.Stored t name doc) (hd : doc.buckets.Ordered) (hc : doc.template.Canonical)
    (hnesting : doc.template.nesting < nestingLimit) :
    ∃ template, p.load t name = .ok (some { doc with template }) ∧
      ReadBack doc.template template := by
  obtain ⟨template, htemplate⟩ := exists_value?_written hc (Nat.le_sub_one_of_lt hnesting)
  exact ⟨template, (load_stored_iff ht hp hn hstored hd).2 ⟨template, htemplate, rfl⟩, htemplate,
    fun hi => eq_of_value?_written hi hc htemplate⟩

/-- A template whose buckets can be provisioned, and that is read back as it was given. -/
structure Lasting (name : String) (template : Json) (buckets : List (String × String)) : Prop where
  succeeds : Template.requestsFailure template = false
  integersOnly : template.integersOnly = true
  nesting : template.nesting < nestingLimit
  buckets : (Template.buckets name template).map (fun spec => (spec.logical, spec.physical)) =
    buckets

/-- Whether a text holds a template that is lasting. -/
def holdsLasting (name body : String) (buckets : List (String × String)) : Bool :=
  (Template.parse (some body)).toOption.any fun template =>
    !Template.requestsFailure template && template.integersOnly &&
      decide (template.nesting < nestingLimit) &&
        decide ((Template.buckets name template).map
          (fun spec => (spec.logical, spec.physical)) = buckets)

/-- A template that a text holds, if it is lasting. -/
theorem exists_lasting {name body : String} {buckets : List (String × String)}
    (h : holdsLasting name body buckets = true) :
    ∃ template, Template.parse (some body) = .ok template ∧ Lasting name template buckets := by
  obtain ⟨template, hparse, hall⟩ := (Option.any_eq_true ..).1 h
  simp only [Bool.and_eq_true, Bool.not_eq_true', decide_eq_true_eq, and_assoc] at hall
  obtain ⟨hsucceeds, hintegers, hnesting, hbuckets⟩ := hall
  exact ⟨template, ok_of_toOption hparse, hsucceeds, hintegers, hnesting, hbuckets⟩

/-- What a stack settles with is loaded, with its template read anew. -/
theorem Settles.exists_load {template : Json} {failed : StackDoc}
    {done : List (String × String) → StackDoc}
    (hs : p.Settles name template failed done t (.ok ()) t') (h : p.Orderly top t)
    (hn : SimpleName name) (hc : template.Canonical)
    (hsucceeds : Template.requestsFailure template = false)
    (hnesting : template.nesting < nestingLimit) (hfailed : failed.buckets.Ordered)
    (hdone : ∀ buckets, (done buckets).buckets.Ordered)
    (htemplate : ∀ buckets, (done buckets).template = template) :
    ∃ found, p.load t' name = .ok (some { done ((Template.buckets name template).map
        fun spec => (spec.logical, spec.physical)) with template := found }) ∧
      ReadBack template found := by
  obtain ⟨h', -⟩ := hs.frame h hn hfailed hdone
  rcases hs.stored h hn hfailed hdone with ⟨hfails, -⟩ | ⟨-, hstored⟩
  · rw [hsucceeds] at hfails
    cases hfails
  obtain ⟨found, hload, hback⟩ := StackProvider.exists_load h'.tidy h'.within
    (contained_of_simple hn) hstored (hdone _) ((htemplate _).symm ▸ hc)
    ((htemplate _).symm ▸ hnesting)
  exact ⟨found, hload, htemplate _ ▸ hback⟩

/-- A stack that was created. -/
theorem Orderly.exists_load_of_create (h : p.Orderly top t) (hn : SimpleName name) {template : Json}
    (hparse : Template.parse (some body) = .ok template)
    (hsucceeds : Template.requestsFailure template = false)
    (hnesting : template.nesting < nestingLimit)
    (hrun : p.create name body t = (.ok .created, t')) :
    ∃ found, p.load t' name = .ok (some (created found ((Template.buckets name template).map
      fun spec => (spec.logical, spec.physical)))) ∧ ReadBack template found := by
  rcases create_cases hrun with ⟨-, hcreated, -⟩ | ⟨template', r, -, hparse', hsettles, hr⟩
  · exact absurd rfl hcreated
  rw [hparse] at hparse'
  cases hparse'
  obtain ⟨⟩ | ⟨⟨⟩⟩ := r
  · cases hr
  exact hsettles.exists_load h hn (canonical_of_parse hparse) hsucceeds hnesting
    TextMap.Ordered.nil (fun _ => TextMap.ordered_ofList _) fun _ => rfl

/-- A stack that was created from a lasting template. -/
theorem Orderly.load_of_create (h : p.Orderly top t) (hn : SimpleName name) {template : Json}
    {buckets : List (String × String)} (hparse : Template.parse (some body) = .ok template)
    (hlasting : Lasting name template buckets)
    (hrun : p.create name body t = (.ok .created, t')) :
    p.load t' name = .ok (some (created template buckets)) := by
  obtain ⟨found, hload, hback⟩ :=
    h.exists_load_of_create hn hparse hlasting.succeeds hlasting.nesting hrun
  rw [hload, hback.same hlasting.integersOnly, hlasting.buckets]

/-- A stack that was updated to a lasting template. -/
theorem Orderly.load_of_update (h : p.Orderly top t) (hn : SimpleName name) {template : Json}
    {buckets : List (String × String)} (hload : p.load t name = .ok (some doc))
    (hfetches : p.Fetches t url template) (hlasting : Lasting name template buckets)
    (hrun : p.update name url t = (.ok .updating, t')) :
    p.load t' name = .ok (some (updated doc template buckets)) := by
  rcases update_cases hrun with
    ⟨-, hupdating, -⟩ | ⟨doc', template', r, hload', hfetches', -, hsettles, hr⟩
  · exact absurd rfl hupdating
  rw [hload] at hload'
  cases hload'
  obtain rfl := hfetches.unique hfetches'
  obtain ⟨⟩ | ⟨⟨⟩⟩ := r
  · cases hr
  obtain ⟨-, hordered⟩ := h.canonical_of_load hn hload
  obtain ⟨_, -, hparse⟩ := hfetches
  obtain ⟨found, hload', hback⟩ := hsettles.exists_load h hn (canonical_of_parse hparse)
    hlasting.succeeds hlasting.nesting hordered (fun _ => hordered.union _) fun _ => rfl
  rw [hload', hback.same hlasting.integersOnly, hlasting.buckets]
  rfl

/-- What is done to a bucket leaves every stack as it was. -/
theorem Orderly.load_of_act (h : p.Orderly top t) (hn : SimpleName name) {a : StoreAction}
    (ha : a.Proper) : p.load (p.after (.store a) t) name = p.load t name := by
  have haround := h.settled.act_around ha
  refine load_congr h.tidy (h.after_store a).tidy h.within (contained_of_simple hn)
    haround.work (haround.entry _ ?_)
  rintro spot rfl
  exact beside_bucket h.root (stacksPlace_above _ hn) a.bucket

/-- Deleting a stack whose buckets are known to be empty. -/
theorem delete_of_empty (hload : p.load t name = .ok (some doc))
    (hempty : p.anyFilled t (TextMap.values doc.buckets) = .ok false) : p.delete name t =
    (do
      p.deleteBuckets (TextMap.values doc.buckets)
      (Effect.remove (p.stackPath name)).perform.mapError fun e => .unavailable e.message :
      Disk ProviderError Unit) t := by
  rw [delete, reading_bind_of_ok (f := fun t => p.load t name) hload]
  exact reading_bind_of_ok (f := fun t => p.anyFilled t (TextMap.values doc.buckets)) hempty

/-- Deleting a stack of which a bucket is known to be filled. -/
theorem delete_of_filled (hload : p.load t name = .ok (some doc))
    (hfilled : p.anyFilled t (TextMap.values doc.buckets) = .ok true) :
    p.delete name t = p.save name (undeleted doc) t := by
  rw [delete, reading_bind_of_ok (f := fun t => p.load t name) hload]
  exact reading_bind_of_ok (f := fun t => p.anyFilled t (TextMap.values doc.buckets)) hfilled

/-- Updating a stack that is known. -/
theorem update_of_load (hload : p.load t name = .ok (some doc)) : p.update name url t =
    (do
      let body ← Disk.reading fun t => p.fetchTemplate t url
      let template ← Disk.reading fun _ => Template.parse (String.fromUTF8? body)
      if template.same doc.template then return .noChanges
      if Template.requestsFailure template then p.save name (restored doc)
      else
        let buckets ← p.provision (Template.buckets name template)
        p.save name (updated doc template buckets)
      return .updating : Disk ProviderError UpdateOutcome) t := by
  rw [update]
  exact reading_bind_of_ok (f := fun t => p.load t name) hload

/-- A template is fetched from where it was stored, if there was room for another version. -/
theorem Orderly.fetches_of_put (h : p.Orderly top t) {bucket key text : String} {template : Json}
    (hbucket : ObjectStore.isBucketName bucket = true) (hroom : p.objects.Room t 1)
    (hrun : p.objects.put bucket key text.toUTF8 t = (.ok (), t'))
    (hparse : Template.parse (some text) = .ok template) :
    p.Fetches t' (ObjectStore.objectUrl bucket key) template := by
  obtain ⟨-, hcontent⟩ := ObjectStore.content_of_put h.steady hroom hrun
  refine ⟨_, (fetchTemplate_objectUrl hbucket).2 hcontent, ?_⟩
  rw [Text.fromUTF8?_toUTF8, hparse]

/-! ## Saving over -/

/-- A cloud on a disk: its buckets lie beside its stacks, and the run is in none of them. -/
structure Housed (p : StackProvider) (top : Location) (t : FileTree) : Prop where
  tidy : t.Tidy top
  within : Within t.workDir top p.root
  root : p.objects.root = p.root
  outside : ¬p.objects.bucketsPlace t.workDir <+: t.workDir

theorem Housed.store (h : p.Housed top t) : Within t.workDir top p.objects.root :=
  h.root.symm ▸ h.within

theorem Housed.of_work (h : p.Housed top t) (ht' : t'.Tidy top) (hwork : t'.workDir = t.workDir) :
    p.Housed top t' :=
  ⟨ht', hwork.symm ▸ h.within, h.root, hwork.symm ▸ h.outside⟩

theorem Orderly.housed (h : p.Orderly top t) : p.Housed top t :=
  ⟨h.tidy, h.within, h.root, h.outside⟩

/-- A document that is there can be saved anew, and nothing else changes. -/
theorem save_of_document (h : p.Housed top t) (hn : Contained name)
    (husable : Usable (p.stackPath name)) {content : ByteArray}
    (hentry : t.entry? (p.stackPlace t.workDir name) = some (.file content)) (doc : StackDoc) :
    ∃ t', p.save name doc t = (.ok (), t') ∧ t'.Tidy top ∧
      Sets (p.stackPlace t.workDir name) (some (.file doc.toJson.pretty.toUTF8)) t t' := by
  have hfile : t.entry? ((p.stackPath name).place t.workDir) ≠ some .dir := by
    rw [show t.entry? ((p.stackPath name).place t.workDir) = some (.file content) from hentry]
    exact nofun
  obtain ⟨t', hreplace, ht', hsets⟩ := Effect.replace_exact h.tidy (below_stack h.within hn)
    husable (h.tidy.wf.above _ _ hentry) hfile doc.toJson.pretty.toUTF8
  exact ⟨t', mapError_of_ok hreplace, ht', hsets⟩

/-- An update to a template that asks for a failure is made, and rolled back. -/
theorem Orderly.update_of_failing (h : p.Orderly top t) (hn : SimpleName name) {template : Json}
    (hload : p.load t name = .ok (some doc)) (hfetches : p.Fetches t url template)
    (hnew : template.same doc.template = false)
    (hfails : Template.requestsFailure template = true) :
    ∃ t', p.update name url t = (.ok .updating, t') ∧ p.save name (restored doc) t = (.ok (), t') := by
  obtain ⟨husable, content, -, hentry, -⟩ :=
    (load_eq_some h.tidy h.within (contained_of_simple hn)).1 hload
  obtain ⟨t', hsave, -⟩ := save_of_document h.housed (contained_of_simple hn) husable hentry
    (restored doc)
  obtain ⟨body, hbody, hparse⟩ := hfetches
  refine ⟨t', ?_, hsave⟩
  rw [update_of_load hload, reading_bind_of_ok (f := fun t => p.fetchTemplate t url) hbody]
  refine (reading_bind_of_ok hparse).trans ?_
  rw [if_neg (by simp [hnew]), if_pos hfails]
  exact bind_of_ok hsave

/-- An update whose buckets are provisioned is made. -/
theorem Orderly.update_of_provision (h : p.Orderly top t) (hn : SimpleName name) {template : Json}
    {buckets : List (String × String)} {t₁ : FileTree} (hload : p.load t name = .ok (some doc))
    (hfetches : p.Fetches t url template) (hnew : template.same doc.template = false)
    (hfails : Template.requestsFailure template = false)
    (hprovision : p.provision (Template.buckets name template) t = (.ok buckets, t₁)) :
    ∃ t', p.update name url t = (.ok .updating, t') ∧
      p.save name (updated doc template buckets) t₁ = (.ok (), t') := by
  obtain ⟨husable, content, -, hentry, -⟩ :=
    (load_eq_some h.tidy h.within (contained_of_simple hn)).1 hload
  have haround := provision_around _ h.steady hprovision
  -- the document is still in its place, and is saved over
  have hentry₁ : t₁.entry? (p.stackPlace t₁.workDir name) = some (.file content) := by
    rw [haround.work, haround.entry, hentry]
    rintro spot ⟨spec, -, rfl⟩
    exact beside_bucket h.root (stacksPlace_above _ hn) spec.physical
  obtain ⟨t', hsave, -⟩ := save_of_document (h.of_provision hprovision).housed
    (contained_of_simple hn) husable hentry₁ (updated doc template buckets)
  obtain ⟨body, hbody, hparse⟩ := hfetches
  refine ⟨t', ?_, hsave⟩
  rw [update_of_load hload, reading_bind_of_ok (f := fun t => p.fetchTemplate t url) hbody]
  refine (reading_bind_of_ok hparse).trans ?_
  rw [if_neg (by simp [hnew]), if_neg (by simp [hfails])]
  exact (bind_of_ok hprovision).trans (bind_of_ok hsave)

/-! ## Answering -/

/-- A cloud in which a stack was saved answers as long as the new template leaves a level of
nesting. -/
theorem Orderly.legible_of_stored (h : p.Orderly top t) (hall : p.Loads t)
    (h' : p.Orderly top t') {B : String → Prop} (haround : Around (p.Sphere t.workDir name B) t t')
    (hn : SimpleName name) (hstored : p.Stored t' name doc) (hd : doc.buckets.Ordered)
    (hc : doc.template.Canonical) (hnesting : doc.template.nesting < nestingLimit) :
    p.Legible t' ∧ ∃ template, p.load t' name = .ok (some { doc with template }) ∧
      ReadBack doc.template template := by
  obtain ⟨template, hload, hback⟩ := exists_load h'.tidy h'.within (contained_of_simple hn)
    hstored hd hc hnesting
  refine ⟨h'.legible (fun other hother => ?_) hn hload, template, hload, hback⟩
  by_cases hne : other = name
  · exact ⟨_, hne ▸ hload⟩
  · rw [h.load_of_around h' haround hn hother hne]
    exact hall other hother

/-- What a call about a stack that succeeded leaves: a provider that answers, every other stack as
it was, and a stack with a template of which `P` holds. -/
structure Accepts (p : StackProvider) (t t' : FileTree) (name : String) (P : Json → Prop) :
    Prop where
  legible : p.Legible t'
  others : ∀ other, SimpleName other → other ≠ name → p.load t' other = p.load t other
  own : ∃ doc, p.load t' name = .ok (some doc) ∧ P doc.template

theorem Orderly.accepts_create (h : p.Orderly top t) (hall : p.Loads t) (hn : SimpleName name)
    {outcome : CreateOutcome} (hrun : p.create name body t = (.ok outcome, t'))
    (hnesting : ∀ template, Template.parse (some body) = .ok template →
      template.nesting < nestingLimit) :
    p.Accepts t t' name fun found => outcome = .created →
      ∃ template, Template.parse (some body) = .ok template ∧
        (Template.requestsFailure template = false → template.integersOnly = true →
          found = template) := by
  obtain ⟨h', haround⟩ := h.answer (.create name body) fun _ hname => by cases hname; exact hn
  rw [show p.answer (.create name body) t = (.ok outcome, t') from hrun] at h' haround
  have hothers (other : String) (hother : SimpleName other) :=
    h.load_of_around h' (haround name rfl) hn hother
  rcases create_cases hrun with ⟨rfl, hcreated, hexists⟩ | ⟨template, r, -, hparse, hsettles, hr⟩
  · -- the stack was there already
    have houtcome : outcome = .alreadyExists := by
      cases outcome with
      | created => exact absurd rfl hcreated
      | alreadyExists => rfl
    obtain ⟨doc, hload⟩ := hexists (houtcome ▸ rfl)
    exact ⟨h.legible hall hn hload, hothers, doc, hload, fun hc => by rw [houtcome] at hc; cases hc⟩
  · obtain ⟨⟩ | ⟨⟨⟩⟩ := r
    · cases hr
    rcases hsettles.stored h hn TextMap.Ordered.nil fun _ => TextMap.ordered_ofList _ with
      ⟨hfails, hstored⟩ | ⟨-, hstored⟩
    · obtain ⟨hlegible, found, hload, -⟩ := h.legible_of_stored hall h' (haround name rfl) hn
        hstored TextMap.Ordered.nil trivial (by decide)
      refine ⟨hlegible, hothers, _, hload, fun _ => ⟨template, hparse, fun hno => ?_⟩⟩
      rw [hfails] at hno
      cases hno
    · obtain ⟨hlegible, found, hload, hback⟩ := h.legible_of_stored hall h' (haround name rfl) hn
        hstored (TextMap.ordered_ofList _) (canonical_of_parse hparse) (hnesting template hparse)
      exact ⟨hlegible, hothers, _, hload, fun _ => ⟨template, hparse, fun _ => hback.same⟩⟩

theorem Orderly.accepts_update (h : p.Orderly top t) (hall : p.Loads t) (hn : SimpleName name)
    {outcome : UpdateOutcome} (hrun : p.update name url t = (.ok outcome, t'))
    (hnesting : ∀ template, p.Fetches t url template → template.nesting < nestingLimit) :
    p.Accepts t t' name fun found => ∃ template, p.Fetches t url template ∧
      (outcome = .noChanges ∨ Template.requestsFailure template = false →
        template.integersOnly = true → found = template) := by
  obtain ⟨h', haround⟩ := h.answer (.update name url) fun _ hname => by cases hname; exact hn
  rw [show p.answer (.update name url) t = (.ok outcome, t') from hrun] at h' haround
  have hothers (other : String) (hother : SimpleName other) :=
    h.load_of_around h' (haround name rfl) hn hother
  rcases update_cases hrun with
    ⟨rfl, hupdating, hsame⟩ | ⟨doc, template, r, hload, hfetches, -, hsettles, hr⟩
  · -- the stack has the template already
    have houtcome : outcome = .noChanges := by
      cases outcome with
      | updating => exact absurd rfl hupdating
      | noChanges => rfl
    obtain ⟨doc, template, hload, hfetches, hsame⟩ := hsame (houtcome ▸ rfl)
    exact ⟨h.legible hall hn hload, hothers, doc, hload, template, hfetches,
      fun _ hi => (Json.eq_of_same hi hsame).symm⟩
  · obtain ⟨⟩ | ⟨⟨⟩⟩ := r
    · cases hr
    cases hr
    obtain ⟨hcanonical, hordered⟩ := h.canonical_of_load hn hload
    rcases hsettles.stored h hn hordered fun _ => hordered.union _ with
      ⟨hfails, hstored⟩ | ⟨-, hstored⟩
    · have hshallow := h.nesting_of_load hn hload
      obtain ⟨hlegible, found, hload', -⟩ := h.legible_of_stored hall h' (haround name rfl) hn
        hstored hordered hcanonical hshallow
      refine ⟨hlegible, hothers, _, hload', template, hfetches, fun hno => ?_⟩
      rcases hno with hno | hno
      · cases hno
      · rw [hfails] at hno
        cases hno
    · have hc : template.Canonical := by
        obtain ⟨_, -, hparse⟩ := hfetches
        exact canonical_of_parse hparse
      obtain ⟨hlegible, found, hload', hback⟩ := h.legible_of_stored hall h' (haround name rfl) hn
        hstored (hordered.union _) hc (hnesting template hfetches)
      exact ⟨hlegible, hothers, _, hload', template, hfetches, fun _ => hback.same⟩

/-- Wherever all stacks can be loaded, they still can after a stack was created or updated with a
template that leaves a level of nesting; the exports can be listed, and unless the template asked
for a failure it is the template of the stack, read back as it was given if its numbers are
integers. -/
theorem legible_of_accepted (h : p.Reached top (fun _ _ => True) t) (hall : p.Loads t)
    (hn : SimpleName name) :
    (∀ body t' outcome, p.create name body t = (.ok outcome, t') →
      (∀ template, Template.parse (some body) = .ok template →
        template.nesting < nestingLimit) →
      p.Accepts t t' name fun found => outcome = .created →
        ∃ template, Template.parse (some body) = .ok template ∧
          (Template.requestsFailure template = false → template.integersOnly = true →
            found = template)) ∧
    (∀ url t' outcome, p.update name url t = (.ok outcome, t') →
      (∀ template, p.Fetches t url template → template.nesting < nestingLimit) →
      p.Accepts t t' name fun found => ∃ template, p.Fetches t url template ∧
        (outcome = .noChanges ∨ Template.requestsFailure template = false →
          template.integersOnly = true → found = template)) :=
  ⟨fun _ _ _ hrun hnesting => h.orderly.accepts_create hall hn hrun hnesting,
    fun _ _ _ hrun hnesting => h.orderly.accepts_update hall hn hrun hnesting⟩

namespace Sample

theorem loads : provider.Loads .empty := fun _ hn =>
  ⟨none, vacant.orderly.load_of_missing hn
    (vacant.nothing "stacks" (by simp) _ (stacksPlace_above _ hn))⟩

theorem create_eq {name body : String} {t : FileTree}
    (h : (provider.create name body t).1.toOption = some .created) :
    provider.create name body t = (.ok .created, provider.after (.stack (.create name body)) t) :=
  Prod.ext (ok_of_toOption h) rfl

/-- The disk with a stack, and a bucket beside it. -/
def beside (body bucket : String) : FileTree :=
  provider.after (.store (.createBucket bucket)) (provider.after (.stack (.create "s" body)) .empty)

/-- The disk with a template for the stack in that bucket. -/
def offering (body bucket text : String) : FileTree :=
  provider.after (.store (.call (.put bucket "k" text.toUTF8))) (beside body bucket)

theorem orderly_stack (body : String) :
    provider.Orderly ["cloud"] (provider.after (.stack (.create "s" body)) .empty) :=
  vacant.orderly.after _ fun _ h => by cases h; decide

theorem orderly_offering (body bucket text : String) :
    provider.Orderly ["cloud"] (offering body bucket text) :=
  ((orderly_stack body).after_store _).after_store _

theorem load_offering (body bucket text : String) : provider.load (offering body bucket text) "s" =
    provider.load (provider.after (.stack (.create "s" body)) .empty) "s" := by
  rw [offering, beside, ((orderly_stack body).after_store _).load_of_act (a := .call (.put ..))
    (by decide) trivial, (orderly_stack body).load_of_act (a := .createBucket _) (by decide) trivial]

theorem fetches_offering {body bucket text : String} {template : Json}
    (hbucket : ObjectStore.isBucketName bucket = true)
    (hput : (provider.objects.put bucket "k" text.toUTF8 (beside body bucket)).1.toOption = some ())
    (hparse : Template.parse (some text) = .ok template) :
    provider.Fetches (offering body bucket text) (ObjectStore.objectUrl bucket "k") template := by
  have hcreate := create_spec body vacant.orderly.steady vacant.root
    (contained_of_simple (show SimpleName "s" by decide)) _ _ (Prod.eta _).symm
  have hmade : provider.objects.createBucket bucket
      (provider.after (.stack (.create "s" body)) .empty) = (_, beside body bucket) :=
    (Prod.eta _).symm
  have hmake := ObjectStore.createBucket_spec (orderly_stack body).steady hmade
  have hroom : provider.objects.Room (beside body bucket) 1 :=
    (hmake.room 1 (hcreate.room 1 (vacant.room (by decide))).1).1
  exact ((orderly_stack body).after_store (.createBucket bucket)).fetches_of_put hbucket hroom
    (Prod.ext (ok_of_toOption hput) rfl) hparse

/-- A template of a bucket. -/
def template : String := "\x7b\"Resources\": \x7b\"B\": \x7b\"Type\": \"AWS::S3::Bucket\"\x7d\x7d\x7d"

end Sample

/-- A stack with a bucket is created, and its template is read back as it was given. -/
theorem legible_of_accepted_sample :
    (Sample.provider.create "s" Sample.template .empty).1.toOption = some .created ∧
      Sample.provider.Accepts .empty (Sample.provider.create "s" Sample.template .empty).2 "s"
        fun found => ∃ template, Template.parse (some Sample.template) = .ok template ∧
          found = template := by
  have hcreated : (Sample.provider.create "s" Sample.template .empty).1.toOption = some .created := by
    decide +kernel
  have hshallow : ((Template.parse (some Sample.template)).toOption.any fun template =>
      template.nesting < nestingLimit && template.integersOnly &&
        !Template.requestsFailure template) = true := by decide +kernel
  have hfacts (template : Json) (hparse : Template.parse (some Sample.template) = .ok template) :
      template.nesting < nestingLimit ∧ template.integersOnly = true ∧
        Template.requestsFailure template = false := by
    rw [hparse] at hshallow
    simpa [Except.toOption, and_assoc] using hshallow
  obtain ⟨r, t', hrun⟩ : ∃ r t', Sample.provider.create "s" Sample.template .empty = (r, t') :=
    ⟨_, _, (Prod.eta _).symm⟩
  rw [hrun] at hcreated ⊢
  obtain rfl := ok_of_toOption hcreated
  obtain ⟨hlegible, hothers, doc, hload, hown⟩ :=
    (legible_of_accepted (.start Sample.vacant) Sample.loads (show SimpleName "s" by decide)).1
      Sample.template t' .created hrun fun template hparse => (hfacts template hparse).1
  obtain ⟨template, hparse, hsame⟩ := hown rfl
  obtain ⟨-, hi, hfails⟩ := hfacts template hparse
  exact ⟨rfl, hlegible, hothers, doc, hload, template, hparse, hsame hfails hi⟩

/-- A template that leaves no level of nesting is accepted all the same, and from then on its stack
cannot be loaded. -/
theorem Orderly.load_of_deep (h : p.Orderly top t) (hn : SimpleName name) {template : Json}
    (hparse : Template.parse (some body) = .ok template)
    (hfails : Template.requestsFailure template = false) (hdeep : nestingLimit ≤ template.nesting)
    (hrun : p.create name body t = (.ok .created, t')) (found : Option StackDoc) :
    p.load t' name ≠ .ok found := by
  intro hload
  have h' := (h.answer (.create name body) fun _ hname => by cases hname; exact hn).1
  rw [show p.answer (.create name body) t = (.ok .created, t') from hrun] at h'
  rcases create_cases hrun with ⟨-, hcreated, -⟩ | ⟨template', r, -, hparse', hsettles, hr⟩
  · exact hcreated rfl
  rw [hparse] at hparse'
  cases hparse'
  obtain ⟨⟩ | ⟨⟨⟩⟩ := r
  · cases hr
  rcases hsettles.stored h hn TextMap.Ordered.nil fun _ => TextMap.ordered_ofList _ with
    ⟨hfails', -⟩ | ⟨-, hstored⟩
  · rw [hfails] at hfails'
    cases hfails'
  obtain ⟨doc, rfl, hdoc⟩ :=
    load_of_stored h'.tidy h'.within (contained_of_simple hn) hstored hload
  exact absurd (StackDoc.nesting_of_parse?_toJson (TextMap.ordered_ofList _) hdoc)
    (Nat.not_lt.2 hdeep)

namespace Sample

/-- A template that asks for a failure. -/
def failing : String := "\x7b\"Resources\": \x7b\"F\": \x7b\"Type\": \"Liftoff::Local::Failure\"\x7d\x7d\x7d"

/-- The disk after a stack was rolled back. -/
def rolledBack : FileTree := (provider.create "s" failing .empty).2

/-- Objects in each other. -/
def nested : Nat → Json
  | 0 => .null
  | n + 1 => .obj [("a", nested n)]

theorem canonical_nested (n : Nat) : (nested n).Canonical := by
  induction n with
  | zero => trivial
  | succ n ih => exact ⟨List.pairwise_singleton _ _, ih, trivial⟩

theorem nesting_nested (n : Nat) : (nested n).nesting = n := by
  induction n with
  | zero => rfl
  | succ n ih => simp [nested, nesting, nestingMembers, ih]

theorem integersOnly_nested (n : Nat) : (nested n).integersOnly = true := by
  induction n with
  | zero => rfl
  | succ n ih => simp [nested, integersOnly, integersOnlyMembers, ih]

theorem parse_nested {n : Nat} (hn : n < nestingLimit) :
    Template.parse (some (nested (n + 1)).pretty) = .ok (nested (n + 1)) := by
  have hparse := parse?_pretty_of_nesting (integersOnly_nested (n + 1)) (canonical_nested (n + 1))
    (by rw [nesting_nested]; exact hn)
  rw [Template.parse, Option.bind_some, hparse]
  rfl

theorem saved (doc : StackDoc) : ∃ t, provider.save "s" doc .empty = (.ok (), t) :=
  ⟨_, Prod.ext rfl rfl⟩

theorem created_nested {n : Nat} (hn : n < nestingLimit) : ∃ t,
    provider.create "s" (nested (n + 1)).pretty .empty = (.ok .created, t) := by
  obtain ⟨t, hsave⟩ := saved (created (nested (n + 1)) [])
  have hload : provider.load .empty "s" = .ok none :=
    vacant.orderly.load_of_missing (by decide) rfl
  have hbuckets : provider.provision (Template.buckets "s" (nested (n + 1))) = pure [] := rfl
  refine ⟨t, ?_⟩
  rw [create, reading_bind_of_ok hload]
  refine (reading_bind_of_ok (parse_nested hn)).trans ?_
  rw [if_neg (show ¬Template.requestsFailure (nested (n + 1)) = true by rintro ⟨⟩), hbuckets,
    pure_bind]
  exact bind_of_ok hsave

end Sample

/-- Not every template that is accepted is read back: one that asks for a failure is not, one for a
stack that is there already is not, and one that leaves no level of nesting even takes away the
status of its stack. -/
theorem accepted_not_read_back :
    ((Sample.provider.create "s" Sample.failing .empty).1.toOption = some .created ∧
      (Sample.provider.create "s" Sample.template Sample.rolledBack).1.toOption =
        some .alreadyExists ∧
      (Sample.provider.load (Sample.provider.create "s" Sample.template Sample.rolledBack).2
        "s").toOption.join.map (fun doc => doc.template.compact) = some "null") ∧
    ∃ t', Sample.provider.create "s" (Sample.nested nestingLimit).pretty .empty =
        (.ok .created, t') ∧ ∀ status, Sample.provider.status t' "s" ≠ .ok status := by
  refine ⟨by decide +kernel, ?_⟩
  obtain ⟨t', hrun⟩ := Sample.created_nested (n := 126) (by decide)
  refine ⟨t', hrun, fun status hstatus => ?_⟩
  have hload := Sample.vacant.orderly.load_of_deep (by decide)
    (Sample.parse_nested (n := 126) (by decide)) rfl (by rw [Sample.nesting_nested]; exact Nat.le_refl _) hrun
  rw [StackProvider.status] at hstatus
  split at hstatus
  · cases hstatus
  · exact hload _ ‹_›
  · exact hload _ ‹_›

end StackProvider

end Rollout
