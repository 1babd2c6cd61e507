import Rollout.Proofs.Cloud.ObjectStore
import Rollout.Proofs.Cloud.StackDocument

/-!
Stacks on disk. Creating and updating a stack makes buckets and writes its document; no content
of any bucket changes. What was saved of a stack is what is loaded, and it stays while only
other files are written.
-/

namespace Rollout

open FileTree Outcome
open ObjectStore (Quiet)

namespace StackProvider

variable {p : StackProvider} {t t' : FileTree} {top : Location} {name body url : String}
  {doc doc' : StackDoc} {S : Location → Prop}

/-! ## Places -/

/-- A stack whose document lies in the directory of the stacks. -/
structure Contained (name : String) : Prop where
  relative : (Path.ofString (name ++ documentEnding)).isAbsolute = false
  plain : (Path.ofString (name ++ documentEnding)).Plain

theorem Contained.of_isEntry (h : Path.IsEntry (name ++ documentEnding)) : Contained name where
  relative := h.isAbsolute_ofString
  plain := by
    rw [Path.Plain, h.names_ofString, List.mem_singleton]
    exact fun heq => h.noStepBack heq.symm

/-- The document of a stack. -/
def stackPlace (p : StackProvider) (work : Location) (name : String) : Location :=
  (p.stackPath name).place work

theorem isEntry_stacks : Path.IsEntry "stacks" := ⟨by decide, by decide, by decide⟩

theorem isName_of_ending {last : String} {c : Char} (h : last.toList.getLast? = some c)
    (hc : c ≠ '.') : Path.IsName last := by
  constructor
  · rintro rfl
    cases h
  · rintro rfl
    cases h
    exact hc rfl

/-- The document of a stack without a slash in its name is an entry of a directory. -/
theorem isEntry_document (h : '/' ∉ name.toList) : Path.IsEntry (name ++ documentEnding) := by
  have hend : (name ++ documentEnding).toList.getLast? = some 'n' := by
    rw [String.toList_append, List.getLast?_append,
      show documentEnding.toList.getLast? = some 'n' by decide]
    rfl
  refine ⟨?_, isName_of_ending hend (by decide), ?_⟩
  · rw [String.toList_append, List.mem_append, not_or]
    exact ⟨h, by decide⟩
  · intro hstep
    rw [hstep] at hend
    cases hend

/-- The file of a stack is named after it. -/
theorem parts_stackPath (p : StackProvider) (name : String) : ∃ start last,
    (p.stackPath name).parts = start ++ [last] ∧ last.toList.getLast? = some 'n' := by
  obtain ⟨start, last, hparts⟩ := Path.parts_ofString_append name
  obtain ⟨start', hparts'⟩ := Path.parts_joinText p.stacksDir (hparts documentEnding (by decide))
  refine ⟨start', last ++ documentEnding, hparts', ?_⟩
  rw [String.toList_append, List.getLast?_append,
    show documentEnding.toList.getLast? = some 'n' by decide]
  rfl

theorem below_stack {work : Location} (hp : Within work top p.root) (hn : Contained name) :
    Below work top (p.stackPath name) where
  toWithin := ((hp.entry isEntry_stacks).toWithin).joinText hn.relative hn.plain
  names := by
    obtain ⟨start, last, hparts, hlast⟩ := parts_stackPath p name
    rw [Path.names_of_last hparts (isName_of_ending hlast (by decide))]
    simp
  file := by
    obtain ⟨start, last, hparts, hlast⟩ := parts_stackPath p name
    exact Path.namesDirectory_of_last hparts (isName_of_ending hlast (by decide))

theorem stackPlace_eq (work : Location) (hn : Contained name) :
    p.stackPlace work name =
      p.root.place work ++ "stacks" :: (Path.ofString (name ++ documentEnding)).names := by
  rw [stackPlace, stackPath, Path.place_joinText work _ hn.relative, stacksDir,
    isEntry_stacks.place_joinText, List.append_assoc]
  rfl

/-! ## Documents -/

/-- The document of a stack is in place. -/
def Stored (p : StackProvider) (t : FileTree) (name : String) (doc : StackDoc) : Prop :=
  Usable (p.stackPath name) ∧
    t.entry? (p.stackPlace t.workDir name) = some (.file doc.toJson.pretty.toUTF8)

theorem load_eq_some (ht : t.Tidy top) (hp : Within t.workDir top p.root) (hn : Contained name) :
    p.load t name = .ok (some doc) ↔ Usable (p.stackPath name) ∧ ∃ content text,
      t.entry? (p.stackPlace t.workDir name) = some (.file content) ∧
        String.fromUTF8? content = some text ∧ StackDoc.parse? text = some doc := by
  have hbelow := below_stack hp hn
  unfold load
  constructor
  · intro h
    split at h
    · cases h
    split at h
    · cases h
    rename_i text htext
    obtain ⟨hu, content, hentry, hdecoded⟩ := (readText_eq_ok ht hbelow).1 htext
    split at h
    · cases h
      exact ⟨hu, content, text, hentry, hdecoded, ‹_›⟩
    · cases h
  · rintro ⟨hu, content, text, hentry, htext, hdoc⟩
    have hexists : t.exists? (p.stackPath name) = true :=
      (exists?_eq_true ht.wf ht.free hbelow.near hbelow.file).2 ⟨hu, _, hentry⟩
    have hread := (readText_eq_ok ht hbelow).2 ⟨hu, content, hentry, htext⟩
    simp [hexists, hread, hdoc]

/-- A stack whose document is not there is not there. -/
theorem load_of_absent (ht : t.Tidy top) (hp : Within t.workDir top p.root) (hn : Contained name)
    (h : t.entry? (p.stackPlace t.workDir name) = none) : p.load t name = .ok none := by
  have hexists := not_exists_of_absent ht (below_stack hp hn) h
  rw [load, if_pos (by simp [hexists])]

/-- The file of a stack has this content. -/
def HasFile (p : StackProvider) (t : FileTree) (name : String) (content : ByteArray) : Prop :=
  Usable (p.stackPath name) ∧ t.entry? (p.stackPlace t.workDir name) = some (.file content)

theorem hasFile_of_load (ht : t.Tidy top) (hp : Within t.workDir top p.root)
    (hn : Contained name) (h : p.load t name = .ok (some doc)) :
    ∃ content, p.HasFile t name content := by
  obtain ⟨hu, content, -, hentry, -⟩ := (load_eq_some ht hp hn).1 h
  exact ⟨content, hu, hentry⟩

/-- What is loaded of a stack is what its file says. -/
theorem HasFile.parse_of_load {content : ByteArray} (h : p.HasFile t name content)
    (ht : t.Tidy top) (hp : Within t.workDir top p.root) (hn : Contained name)
    {found : Option StackDoc} (hload : p.load t name = .ok found) :
    ∃ text doc, found = some doc ∧ String.fromUTF8? content = some text ∧
      StackDoc.parse? text = some doc := by
  obtain ⟨hu, hentry⟩ := h
  have hbelow := below_stack hp hn
  have hexists : t.exists? (p.stackPath name) = true :=
    (exists?_eq_true ht.wf ht.free hbelow.near hbelow.file).2 ⟨hu, _, hentry⟩
  cases found with
  | none =>
    unfold load at hload
    rw [if_neg (by simp [hexists])] at hload
    split at hload
    · cases hload
    split at hload <;> cases hload
  | some doc' =>
    obtain ⟨-, content, text, hentry', htext, hdoc⟩ := (load_eq_some ht hp hn).1 hload
    rw [hentry] at hentry'
    cases hentry'
    exact ⟨text, doc', rfl, htext, hdoc⟩

theorem HasFile.load_ne_none {content : ByteArray} (h : p.HasFile t name content)
    (ht : t.Tidy top) (hp : Within t.workDir top p.root) (hn : Contained name) :
    p.load t name ≠ .ok none := by
  intro hload
  obtain ⟨_, _, hsome, -⟩ := h.parse_of_load ht hp hn hload
  cases hsome

/-- Where its file is the same, the same is loaded of a stack. -/
theorem HasFile.load_iff {content : ByteArray} (h : p.HasFile t name content)
    (h' : p.HasFile t' name content) (ht : t.Tidy top) (ht' : t'.Tidy top)
    (hp : Within t.workDir top p.root) (hp' : Within t'.workDir top p.root) (hn : Contained name) :
    p.load t' name = .ok (some doc) ↔ p.load t name = .ok (some doc) := by
  rw [load_eq_some ht' hp' hn, load_eq_some ht hp hn, h.2, h'.2]

/-- What is loaded of a stack in place is what its document says. -/
theorem load_of_stored (ht : t.Tidy top) (hp : Within t.workDir top p.root) (hn : Contained name)
    (h : p.Stored t name doc) {found : Option StackDoc} (hload : p.load t name = .ok found) :
    ∃ doc', found = some doc' ∧ StackDoc.parse? doc.toJson.pretty = some doc' := by
  obtain ⟨text, doc', hfound, htext, hdoc⟩ := HasFile.parse_of_load h ht hp hn hload
  rw [Text.fromUTF8?_toUTF8] at htext
  cases htext
  exact ⟨doc', hfound, hdoc⟩

theorem load_of_touched (ht : t.Tidy top) (ht' : t'.Tidy top) (hp : Within t.workDir top p.root)
    (hn : Contained name) (h : Touched top S t t') (hS : ¬S (p.stackPlace t.workDir name)) :
    p.load t' name = .ok (some doc) ↔ p.load t name = .ok (some doc) := by
  rw [load_eq_some ht' (h.work.symm ▸ hp) hn, load_eq_some ht hp hn, h.work]
  simp only [h.file_iff hS]

/-- A template is fetched from the object its URL was made for. -/
theorem fetchTemplate_objectUrl {bucket key : String} {content : ByteArray}
    (hbucket : ObjectStore.isBucketName bucket = true) :
    p.fetchTemplate t (ObjectStore.objectUrl bucket key) = .ok content ↔
      p.objects.content t bucket key = some content := by
  rw [fetchTemplate, ObjectStore.readUrl_objectUrl hbucket, ObjectStore.content_eq_some_of_get]
  rcases p.objects.get t bucket key with e | (_ | body) <;> simp

/-! ## Operations -/

/-- The documents of the stacks lie beside the buckets. -/
theorem not_inStore_stackPlace {work : Location} (hroot : p.objects.root = p.root)
    (hn : Contained name) : ¬p.objects.InStore work (p.stackPlace work name) := by
  rw [stackPlace_eq work hn, ← hroot]
  rintro ⟨bucket, hl | ⟨n, hl⟩⟩
  · rw [ObjectStore.indexPlace, ObjectStore.bucketPlace, List.append_assoc] at hl
    simp at hl
  · rw [ObjectStore.blobPlace, ObjectStore.bucketPlace, List.append_assoc] at hl
    simp at hl

/-- The files that creating and updating a stack may change. -/
def InStack (p : StackProvider) (work : Location) (name : String) (l : Location) : Prop :=
  l = p.stackPlace work name ∨ p.objects.InStore work l

theorem InStack.below {work l : Location} (hroot : p.objects.root = p.root)
    (hs : Within work top p.root) (hn : Contained name) (h : p.InStack work name l) : top <+: l := by
  rcases h with rfl | h
  · exact (below_stack hs hn).below
  · exact h.below (hroot ▸ hs)

theorem save_spec (h : p.objects.Steady top t) (hroot : p.objects.root = p.root)
    (hn : Contained name) :
    Quiet p.objects top (p.InStack t.workDir name) t (p.save name doc) ∧
      ∀ t', p.save name doc t = (.ok (), t') → p.Stored t' name doc := by
  have hbelow := below_stack (hroot ▸ h.within) hn
  constructor
  · refine Quiet.mapError fun r t' hrun => ?_
    obtain ⟨ht', htouched, -⟩ := Effect.replace_spec h.tidy hbelow hrun
    refine (h.kept_of_beside ht' htouched ?_).mono (fun _ => .inl) (fun _ _ => id)
      (Nat.le_refl _)
    rintro l rfl
    exact not_inStore_stackPlace hroot hn
  · intro t' hrun
    obtain ⟨r', hrun', hok⟩ := mapError_eq hrun
    obtain ⟨-, htouched, hdone, -⟩ := Effect.replace_spec h.tidy hbelow hrun'
    obtain ⟨hu, hentry⟩ := hdone (hok () rfl)
    refine ⟨hu, ?_⟩
    rw [htouched.work]
    exact hentry

theorem provision_spec (specs : List BucketSpec) (h : p.objects.Steady top t) :
    Quiet p.objects top (p.objects.InStore t.workDir) t (p.provision specs) := by
  induction specs generalizing t with
  | nil => exact .pure h _
  | cons spec specs ih =>
    have hrest {t₁ : FileTree}
        (hkept : p.objects.Kept top (p.objects.InStore t.workDir) (fun _ _ => False) 0 t t₁) :
        Quiet p.objects top (p.objects.InStore t.workDir) t₁ (do
          let rest ← p.provision specs
          pure ((spec.logical, spec.physical) :: rest)) := by
      refine .bind hkept.steady ?_ fun rest t₂ hkept₂ => .pure hkept₂.steady _
      rw [← hkept.touched.work]
      exact ih hkept.steady
    rw [provision]
    refine .bind h ?_ fun _ t₁ hkept => ?_
    · refine Quiet.mapError fun r t' hrun => ?_
      exact (ObjectStore.createBucket_spec h hrun).mono (fun l hl => ⟨_, .inl hl⟩) (fun _ _ => id)
        (Nat.le_refl _)
    by_cases hversioned : spec.versioned
    · simp only [hversioned, if_true]
      refine .bind hkept.steady ?_ fun _ t₂ hkept₂ => hrest (hkept.trans h hkept₂)
      refine Quiet.mapError fun r t' hrun => ?_
      refine (ObjectStore.enableVersioning_spec hkept.steady hrun).mono ?_ (fun _ _ => id)
        (Nat.le_refl _)
      rintro l rfl
      exact ⟨_, .inl (by rw [hkept.touched.work])⟩
    · simp only [hversioned]
      exact hrest hkept

theorem create_spec (body : String) (h : p.objects.Steady top t) (hroot : p.objects.root = p.root)
    (hn : Contained name) :
    Quiet p.objects top (p.InStack t.workDir name) t (p.create name body) := by
  rw [create]
  refine .reading h fun found _ => ?_
  cases found with
  | some doc => exact .pure h _
  | none =>
    refine .reading h fun template _ => ?_
    by_cases hfails : Template.requestsFailure template
    · simp only [hfails, if_true]
      exact .bind h (save_spec h hroot hn).1 fun _ _ hkept => .pure hkept.steady _
    · simp only [hfails]
      refine .bind h ((provision_spec _ h).mono fun _ => .inr) fun buckets t₁ hkept => ?_
      refine .bind hkept.steady ?_ fun _ _ hkept' => .pure hkept'.steady _
      rw [← hkept.touched.work]
      exact (save_spec hkept.steady hroot hn).1

/-- What an update that went through leaves of a stack. -/
structure Updated (p : StackProvider) (t t' : FileTree) (name url : String)
    (outcome : UpdateOutcome) (template : Json) : Prop where
  fetched : ∃ body, p.fetchTemplate t url = .ok body ∧
    Template.parse (String.fromUTF8? body) = .ok template
  unchanged : outcome = .noChanges → t' = t ∧ ∃ doc, p.load t name = .ok (some doc) ∧
    template.same doc.template = true
  /-- A template that asks for it is rolled back. -/
  changed : outcome = .updating → ∃ doc, p.Stored t' name doc ∧ doc.buckets.Ordered ∧
    (doc.status = StackStatus.updateRollbackComplete.text ∨ doc.template = template)

theorem update_quiet (url : String) (h : p.objects.Steady top t) (hroot : p.objects.root = p.root)
    (hn : Contained name) :
    Quiet p.objects top (p.InStack t.workDir name) t (p.update name url) := by
  rw [update]
  refine .reading h fun found _ => ?_
  cases found with
  | none =>
    rintro r t' ⟨⟩
    exact .refl h ..
  | some doc =>
    refine .reading h fun body _ => .reading h fun template _ => ?_
    by_cases hsame : template.same doc.template
    · simp only [hsame, if_true]
      exact .pure h _
    simp only [hsame]
    by_cases hfails : Template.requestsFailure template
    · simp only [hfails, if_true]
      exact .bind h (save_spec h hroot hn).1 fun _ _ hkept => .pure hkept.steady _
    · simp only [hfails]
      refine .bind h ((provision_spec _ h).mono fun _ => .inr) fun buckets t₁ hkept => ?_
      refine .bind hkept.steady ?_ fun _ _ hkept' => .pure hkept'.steady _
      rw [← hkept.touched.work]
      exact (save_spec hkept.steady hroot hn).1

theorem update_spec (h : p.objects.Steady top t) (hroot : p.objects.root = p.root)
    (hn : Contained name) {outcome : UpdateOutcome}
    (hrun : p.update name url t = (.ok outcome, t')) :
    ∃ template, p.Updated t t' name url outcome template := by
  rw [update] at hrun
  rcases reading_bind_eq hrun with ⟨-, e, he⟩ | ⟨found, hload, hrun⟩
  · cases he
  cases found with
  | none => cases hrun
  | some doc =>
    rcases reading_bind_eq hrun with ⟨-, e, he⟩ | ⟨body, hbody, hrun⟩
    · cases he
    rcases reading_bind_eq hrun with ⟨-, e, he⟩ | ⟨template, htemplate, hrun⟩
    · cases he
    by_cases hsame : template.same doc.template
    · simp only [hsame, if_true] at hrun
      cases hrun
      exact ⟨template, ⟨body, hbody, htemplate⟩, fun _ => ⟨rfl, doc, hload, hsame⟩, nofun⟩
    simp only [hsame] at hrun
    have hordered : doc.buckets.Ordered := by
      obtain ⟨-, content, text, -, -, hdoc⟩ := (load_eq_some h.tidy (hroot ▸ h.within) hn).1 hload
      exact (StackDoc.canonical_of_parse? hdoc).2
    by_cases hfails : Template.requestsFailure template
    · simp only [hfails, if_true] at hrun
      rcases bind_eq hrun with ⟨e, -, he⟩ | ⟨⟨⟩, t₁, hsave, hrun⟩
      · cases he
      cases hrun
      exact ⟨template, ⟨body, hbody, htemplate⟩, nofun, fun _ =>
        ⟨_, (save_spec h hroot hn).2 _ hsave, hordered, .inl rfl⟩⟩
    · simp only [hfails] at hrun
      rcases bind_eq hrun with ⟨e, -, he⟩ | ⟨buckets, t₁, hprovision, hrun⟩
      · cases he
      have hkept := provision_spec _ h _ _ hprovision
      rcases bind_eq hrun with ⟨e, -, he⟩ | ⟨⟨⟩, t₂, hsave, hrun⟩
      · cases he
      cases hrun
      exact ⟨template, ⟨body, hbody, htemplate⟩, nofun, fun _ =>
        ⟨_, (save_spec hkept.steady hroot hn).2 _ hsave, hordered.union _, .inr rfl⟩⟩

theorem parse_eq_ok {text : Option String} {template : Json}
    (h : Template.parse text = .ok template) :
    ∃ s, text = some s ∧ Json.parse? s = some template := by
  unfold Template.parse at h
  split at h
  · cases h
  · rename_i members hparse
    cases h
    exact Option.bind_eq_some_iff.1 hparse
  · cases h

/-- What an update fetches is what was stored where its URL leads. -/
theorem Updated.parse_eq {bucket key text : String} {outcome : UpdateOutcome} {template : Json}
    (h : p.Updated t t' name (ObjectStore.objectUrl bucket key) outcome template)
    (hcontent : p.objects.content t bucket key = some text.toUTF8) :
    Json.parse? text = some template := by
  obtain ⟨body, hfetch, hparse⟩ := h.fetched
  have hbucket := ObjectStore.isBucketName_of_readable (ObjectStore.readable_of_content hcontent)
  rw [fetchTemplate_objectUrl hbucket, hcontent] at hfetch
  obtain rfl := Option.some.inj hfetch
  obtain ⟨text', htext', hparse⟩ := parse_eq_ok hparse
  rw [Text.fromUTF8?_toUTF8] at htext'
  cases htext'
  exact hparse

/-- An update that changed a stack holds as long as the document it left does. -/
theorem Updated.later {t'' : FileTree} {template : Json}
    (h : p.Updated t t' name url .updating template)
    (hstays : ∀ doc, p.Stored t' name doc → p.Stored t'' name doc) :
    p.Updated t t'' name url .updating template where
  fetched := h.fetched
  unchanged := by rintro ⟨⟩
  changed _ := by
    obtain ⟨doc, hstored, hrest⟩ := h.changed rfl
    exact ⟨doc, hstays doc hstored, hrest⟩

/-- The document of a stack that has not failed is that of a template, not of a rollback. -/
theorem Updated.stored {template : Json}
    (h : p.Updated t t' name url .updating template) (ht' : t'.Tidy top)
    (hp : Within t'.workDir top p.root) (hn : Contained name) {status : StackStatus}
    (hstatus : p.status t' name = .ok status) (hfailure : status.isFailure = false) :
    ∃ doc doc', p.Stored t' name doc ∧ doc.buckets.Ordered ∧ doc.template = template ∧
      p.load t' name = .ok (some doc') ∧ StackDoc.parse? doc.toJson.pretty = some doc' := by
  obtain ⟨doc, hstored, hordered, hwhat⟩ := h.changed rfl
  unfold StackProvider.status at hstatus
  cases hload : p.load t' name with
  | error e =>
    rw [hload] at hstatus
    cases hstatus
  | ok found =>
    obtain ⟨doc', rfl, hdoc'⟩ := load_of_stored ht' hp hn hstored hload
    rw [hload] at hstatus
    refine ⟨doc, doc', hstored, hordered, ?_, rfl, hdoc'⟩
    rcases hwhat with hrolled | htemplate
    · -- the status was read back, and a rolled back stack has failed
      obtain ⟨hsame, -⟩ := StackDoc.status_of_parse?_toJson hordered hdoc'
      have hread : StackStatus.ofText doc'.status = status := Except.ok.inj hstatus
      rw [hsame, hrolled] at hread
      subst hread
      exact absurd hfailure (by decide)
    · exact htemplate

/-- An update that was not rolled back leaves its template in the stack. -/
theorem Updated.load {outcome : UpdateOutcome} {template : Json}
    (h : p.Updated t t' name url outcome template) (ht' : t'.Tidy top)
    (hp : Within t'.workDir top p.root) (hn : Contained name)
    (hstatus : outcome = .updating →
      ∃ status, p.status t' name = .ok status ∧ status.isFailure = false) :
    ∃ doc, p.load t' name = .ok (some doc) ∧
      (template.integersOnly = true → doc.template = template) := by
  obtain ⟨body, -, hparse⟩ := h.fetched
  obtain ⟨text, -, htext⟩ := parse_eq_ok hparse
  cases outcome with
  | noChanges =>
    obtain ⟨rfl, doc, hload, hsame⟩ := h.unchanged rfl
    exact ⟨doc, hload, fun hi => (Json.eq_of_same hi hsame).symm⟩
  | updating =>
    obtain ⟨status, hstatus, hfailure⟩ := hstatus rfl
    obtain ⟨doc, doc', -, hordered, rfl, hload, hdoc'⟩ :=
      h.stored ht' hp hn hstatus hfailure
    exact ⟨doc', hload, fun hi => StackDoc.template_of_parse?_toJson hordered hi
      (Json.canonical_of_parse? htext) hdoc'⟩

end StackProvider

end Rollout
