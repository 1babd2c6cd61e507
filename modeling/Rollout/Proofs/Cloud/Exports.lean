import Rollout.Proofs.Cloud.Legible
import Rollout.Proofs.Number.Digits
import Rollout.Proofs.Paging

/-!
The exports of all stacks. They are those of the documents among the stacks, in the order of the
names of the stacks and then of the keys of the outputs. The list is made anew for every page, and a
token is a place in it; on a disk that stays as it is, each token is further on than the one before,
and the pages are the whole list.
-/

namespace Rollout

open FileTree Outcome

/-- The outputs of a stack by their keys. -/
def StackDoc.outputs (d : StackDoc) : TextMap Json :=
  ((d.template.member? "Outputs").bind Json.members?).getD []

theorem StackDoc.exports_eq (d : StackDoc) :
    d.exports = d.outputs.filterMap fun output => Template.export? d.buckets output.2 := by
  rw [exports, Template.exports, outputs]
  cases (d.template.member? "Outputs").bind Json.members? <;> rfl

theorem Json.Canonical.ordered_members {v : Json} {members : TextMap Json} (h : v.Canonical)
    (hmembers : v.members? = some members) : members.Ordered := by
  cases v <;> cases hmembers
  rw [Json.Canonical] at h
  exact h.1

theorem Json.Canonical.member {v w : Json} {name : String} (h : v.Canonical)
    (hmember : v.member? name = some w) : w.Canonical := by
  cases v with
  | obj members =>
    rw [Json.Canonical, Json.canonicalMembers_iff] at h
    exact h.2 _ (TextMap.mem_of_get? hmember)
  | _ => cases hmember

theorem StackDoc.ordered_outputs {d : StackDoc} (h : d.template.Canonical) : d.outputs.Ordered := by
  rw [outputs]
  cases houtputs : (d.template.member? "Outputs").bind Json.members? with
  | none => exact TextMap.Ordered.nil
  | some outputs =>
    obtain ⟨v, hv, hmembers⟩ := Option.bind_eq_some_iff.1 houtputs
    exact (h.member hv).ordered_members hmembers

/-! ## What an export is -/

namespace Template

variable {buckets : TextMap String} {v output : Json} {text : String} {e : StackExport}

/-- What the value of an output comes to. A text is itself; a reference is the bucket that the stack
has under the name, or the name where it has none; anything else is its JSON text. -/
inductive ComesTo (buckets : TextMap String) : Json → String → Prop
  | text (s : String) : ComesTo buckets (.str s) s
  | bucket {v : Json} {logical bucket : String} (href : v.member? "Ref" = some (.str logical))
      (hbucket : buckets.get? logical = some bucket) : ComesTo buckets v bucket
  | noBucket {v : Json} {logical : String} (href : v.member? "Ref" = some (.str logical))
      (hbucket : buckets.get? logical = none) : ComesTo buckets v logical
  | other {v : Json} (htext : ∀ s, v ≠ .str s)
      (href : ∀ logical, v.member? "Ref" ≠ some (.str logical)) : ComesTo buckets v v.compact

/-- An output declares an export if it has a name to export it under and a value. -/
def Declares (buckets : TextMap String) (output : Json) (e : StackExport) : Prop :=
  output.path? ["Export", "Name"] = some (.str e.name) ∧
    ∃ v, output.member? "Value" = some v ∧ ComesTo buckets v e.value

theorem bind_str?_eq_some {found : Option Json} {s : String} :
    found.bind Json.str? = some s ↔ found = some (.str s) := by
  rw [Option.bind_eq_some_iff]
  constructor
  · rintro ⟨v, rfl, hv⟩
    cases v <;> cases hv
    rfl
  · rintro rfl
    exact ⟨_, rfl, rfl⟩

theorem comesTo_outputValue (buckets : TextMap String) (v : Json) :
    ComesTo buckets v (outputValue buckets v) := by
  cases v with
  | str s => exact .text s
  | obj members =>
    rw [outputValue]
    split
    · rename_i logical href
      rw [bind_str?_eq_some] at href
      cases hbucket : buckets.get? logical with
      | none => exact .noBucket href hbucket
      | some bucket => exact .bucket href hbucket
    · rename_i href
      refine .other nofun fun logical hlogical => ?_
      rw [bind_str?_eq_some.2 (show TextMap.get? "Ref" members = _ from hlogical)] at href
      cases href
  | _ => exact .other nofun nofun

/-- The value of an output comes to one text. -/
theorem ComesTo.unique {text' : String} (h : ComesTo buckets v text) (h' : ComesTo buckets v text') :
    text = text' := by
  cases h with
  | text s =>
    cases h' with
    | text => rfl
    | bucket href => cases href
    | noBucket href => cases href
    | other htext => exact absurd rfl (htext _)
  | bucket href hbucket =>
    cases h' with
    | text => cases href
    | bucket href' hbucket' =>
      cases href.symm.trans href'
      exact Option.some.inj (hbucket.symm.trans hbucket')
    | noBucket href' hbucket' =>
      cases href.symm.trans href'
      cases hbucket.symm.trans hbucket'
    | other _ href' => exact absurd href (href' _)
  | noBucket href hbucket =>
    cases h' with
    | text => cases href
    | bucket href' hbucket' =>
      cases href.symm.trans href'
      cases hbucket.symm.trans hbucket'
    | noBucket href' =>
      cases href.symm.trans href'
      rfl
    | other _ href' => exact absurd href (href' _)
  | other htext href =>
    cases h' with
    | text => exact absurd rfl (htext _)
    | bucket href' => exact absurd href' (href _)
    | noBucket href' => exact absurd href' (href _)
    | other => rfl

theorem export?_eq_some : export? buckets output = some e ↔ Declares buckets output e := by
  unfold export? Declares
  constructor
  · intro h
    split at h
    · rename_i name value hname hvalue
      cases h
      exact ⟨bind_str?_eq_some.1 hname, value, hvalue, comesTo_outputValue buckets value⟩
    · cases h
  · rintro ⟨hname, v, hvalue, htext⟩
    rw [bind_str?_eq_some.2 hname, hvalue]
    exact congrArg some (congrArg (StackExport.mk e.name)
      ((comesTo_outputValue buckets v).unique htext))

end Template

/-- A name is in a directory once. -/
theorem FileTree.Once.children_nodup {t : FileTree} (h : t.Once) (top : Location) :
    (t.children top).Nodup := by
  have hentries : t.entries.Pairwise fun a b => a.1 ≠ b.1 := List.pairwise_map.1 h
  have hbelow : (t.below top).Pairwise fun a b => a.1 ≠ b.1 := by
    refine hentries.filterMap _ ?_
    rintro ⟨l, e⟩ ⟨l', e'⟩ hne b hb b' hb' heq
    dsimp only at hne hb hb'
    split at hb
    · cases hb
    · rename_i hnames
      split at hb'
      · cases hb'
      · rename_i hnames'
        cases hb
        cases hb'
        refine hne ?_
        rw [Path.dropNames?_eq_some.1 hnames, Path.dropNames?_eq_some.1 hnames']
        exact congrArg (top ++ ·) heq
      · cases hb'
    · cases hb
  refine hbelow.filterMap _ ?_
  rintro ⟨names, e⟩ ⟨names', e'⟩ hne b hb b' hb' heq
  dsimp only at hne hb hb'
  split at hb
  · split at hb'
    · cases hb
      cases hb'
      exact hne (by rw [heq])
    · cases hb'
  · cases hb

namespace StackProvider

variable {p : StackProvider} {t : FileTree} {name file : String} {all : List StackExport}

theorem stackName?_eq_some : stackName? file = some name ↔ file = name ++ documentEnding := by
  constructor
  · intro h
    unfold stackName? at h
    split at h
    · rename_i rest hrest
      cases h
      rw [Text.after?_eq_some, ← List.reverse_inj, List.reverse_reverse, List.reverse_append,
        List.reverse_reverse] at hrest
      rw [← String.toList_inj, hrest, String.toList_append, String.toList_ofList]
    · cases h
  · rintro rfl
    exact stackName?_document name

/-! ## The documents -/

/-- Under a name there is a document among the stacks. -/
def Listed (p : StackProvider) (t : FileTree) (name : String) : Prop :=
  ∃ l, t.find p.stacksDir = .ok (l, .dir) ∧ t.entry? (l ++ [name ++ documentEnding]) ≠ none

/-- Stacks that can all be read: they are in a directory, unless there are none, and what stands
there loads. Their exports are no more than a list can have, which is fewer than half of the words
there are. -/
structure Readable (p : StackProvider) (t : FileTree) : Prop where
  once : t.Once
  dir : t.exists? p.stacksDir = true → ∃ l, t.find p.stacksDir = .ok (l, .dir)
  loads : ∀ name, p.Listed t name → ∃ found, p.load t name = .ok found
  count : ∀ all, p.allExports t = .ok all → all.length < UInt64.size / 2

/-- The stacks of a disk: each name with its document, once and in order. -/
structure Documents (p : StackProvider) (t : FileTree) (docs : List (String × StackDoc)) : Prop where
  ordered : docs.Pairwise fun a b => Text.precedes a.1 b.1 = true
  mem : ∀ name doc, (name, doc) ∈ docs ↔ p.Listed t name ∧ p.load t name = .ok (some doc)

/-- A disk has one list of stacks. -/
theorem Documents.unique {docs docs' : List (String × StackDoc)} (h : p.Documents t docs)
    (h' : p.Documents t docs') : docs = docs' :=
  TextMap.Ordered.ext h.ordered h'.ordered fun e => (h.mem e.1 e.2).trans (h'.mem e.1 e.2).symm

/-- The names of the stacks are those of the documents, in order. -/
theorem stackNames_spec (h : t.Once) {names : List String} (hnames : p.stackNames t = .ok names) :
    names.Pairwise (fun a b => Text.precedes a b = true) ∧
      ∀ name, name ∈ names ↔ p.Listed t name := by
  unfold stackNames at hnames
  split at hnames
  · rename_i hexists
    cases hnames
    refine ⟨.nil, fun name => ⟨nofun, ?_⟩⟩
    rintro ⟨l, hfind, -⟩
    rw [exists?, hfind] at hexists
    exact absurd hexists Bool.false_ne_true
  split at hnames
  · cases hnames
  · rename_i files hlist
    cases hnames
    obtain ⟨l, hfind, rfl⟩ := list_eq_ok.1 hlist
    have hnodup : ((t.children l).filterMap stackName?).Nodup :=
      (h.children_nodup l).filterMap fun a a' name ha ha' => by
        rw [stackName?_eq_some.1 ha, stackName?_eq_some.1 ha']
    refine ⟨Text.sortWith_precedes hnodup, fun name => ?_⟩
    rw [(Text.sortWith_perm _ _).mem_iff, List.mem_filterMap]
    constructor
    · rintro ⟨file, hfile, hname⟩
      rw [stackName?_eq_some] at hname
      exact ⟨l, hfind, hname ▸ mem_children.1 hfile⟩
    · rintro ⟨l', hfind', hentry⟩
      rw [hfind] at hfind'
      cases hfind'
      exact ⟨_, mem_children.2 hentry, stackName?_document name⟩

theorem Readable.exists_stackNames (h : p.Readable t) : ∃ names, p.stackNames t = .ok names := by
  unfold stackNames
  split
  · exact ⟨_, rfl⟩
  · rename_i hexists
    obtain ⟨l, hfind⟩ := h.dir (by simpa using hexists)
    rw [list_eq_ok.2 ⟨l, hfind, rfl⟩]
    exact ⟨_, rfl⟩

/-- The stack of a name, with its name. -/
def named? (p : StackProvider) (t : FileTree) (name : String) : Option (String × StackDoc) :=
  (p.load t name).toOption.join.map fun doc => (name, doc)

theorem named?_eq_some {e : String × StackDoc} :
    p.named? t name = some e ↔ name = e.1 ∧ p.load t e.1 = .ok (some e.2) := by
  obtain ⟨name', doc⟩ := e
  rw [named?, Option.map_eq_some_iff]
  constructor
  · rintro ⟨doc', hdoc, heq⟩
    cases heq
    exact ⟨rfl, ok_of_toOption (Option.join_eq_some_iff.1 hdoc)⟩
  · rintro ⟨rfl, hload⟩
    exact ⟨doc, by rw [hload]; rfl, rfl⟩

theorem loadAll_eq {names : List String} (h : ∀ name ∈ names, ∃ found, p.load t name = .ok found) :
    p.loadAll t names = .ok ((names.filterMap (p.named? t)).map Prod.snd) := by
  induction names with
  | nil => rfl
  | cons name names ih =>
    rw [List.forall_mem_cons] at h
    obtain ⟨found, hload⟩ := h.1
    rw [loadAll, hload, ok_bind, ih h.2, ok_bind]
    have hname : p.named? t name = found.map fun doc => (name, doc) := by
      rw [named?, hload]
      rfl
    rw [List.filterMap_cons, hname]
    cases found <;> rfl

/-- The exports are those of the documents. -/
theorem Readable.exists_documents (h : p.Readable t) : ∃ docs, p.Documents t docs ∧
    p.allExports t = .ok (docs.flatMap fun e => e.2.exports) := by
  obtain ⟨names, hnames⟩ := h.exists_stackNames
  obtain ⟨hordered, hmem⟩ := stackNames_spec h.once hnames
  refine ⟨names.filterMap (p.named? t), ⟨?_, fun name doc => ?_⟩, ?_⟩
  · refine hordered.filterMap _ fun a a' ha b hb b' hb' => ?_
    rw [← (named?_eq_some.1 hb).1, ← (named?_eq_some.1 hb').1]
    exact ha
  · rw [List.mem_filterMap, ← hmem]
    constructor
    · rintro ⟨name', hname', hdoc⟩
      obtain ⟨rfl, hload⟩ := named?_eq_some.1 hdoc
      exact ⟨hname', hload⟩
    · rintro ⟨hname, hload⟩
      exact ⟨name, hname, named?_eq_some.2 ⟨rfl, hload⟩⟩
  · have hloads := loadAll_eq (p := p) fun name hname => h.loads name ((hmem name).1 hname)
    rw [allExports, hnames, ok_bind, hloads, ok_bind, List.flatMap_map]
    rfl

theorem exists_load_of_loadAll {names : List String} {docs : List StackDoc}
    (h : p.loadAll t names = .ok docs) : ∀ name ∈ names, ∃ found, p.load t name = .ok found := by
  induction names generalizing docs with
  | nil => exact nofun
  | cons name names ih =>
    obtain ⟨found, hload, hrest⟩ := bind_eq_ok.1 h
    obtain ⟨docs', hrest, -⟩ := bind_eq_ok.1 hrest
    exact List.forall_mem_cons.2 ⟨⟨found, hload⟩, ih hrest⟩

/-- Stacks whose exports can be told can be read. -/
theorem readable_of_allExports (h : t.Once) (hall : p.allExports t = .ok all)
    (hcount : all.length < UInt64.size / 2) : p.Readable t := by
  obtain ⟨names, hnames, hdocs⟩ := bind_eq_ok.1 hall
  obtain ⟨docs, hdocs, -⟩ := bind_eq_ok.1 hdocs
  refine ⟨h, fun hexists => ?_, fun name hname => ?_, fun all' hall' => ?_⟩
  · unfold stackNames at hnames
    rw [hexists] at hnames
    split at hnames
    · rename_i hmissing
      exact absurd hmissing Bool.false_ne_true
    split at hnames
    · cases hnames
    · rename_i files hlist
      obtain ⟨l, hfind, -⟩ := list_eq_ok.1 hlist
      exact ⟨l, hfind⟩
  · exact exists_load_of_loadAll hdocs name (((stackNames_spec h hnames).2 name).2 hname)
  · rw [hall] at hall'
    cases hall'
    exact hcount

/-- The documents have their outputs in the order of their keys. -/
theorem ordered_outputs_of_load {doc : StackDoc} (h : p.load t name = .ok (some doc)) :
    doc.outputs.Ordered := by
  unfold load at h
  split at h
  · cases h
  split at h
  · cases h
  split at h
  · rename_i doc' hdoc
    cases h
    exact StackDoc.ordered_outputs (StackDoc.canonical_of_parse? hdoc).1
  · cases h

/-- How long a page is does not matter to what is exported. -/
theorem allExports_pageSize (size : UInt64) :
    allExports { p with pageSize := size } t = p.allExports t := by
  have hload (names : List String) :
      loadAll { p with pageSize := size } t names = p.loadAll t names := by
    induction names with
    | nil => rfl
    | cons name names ih =>
      rw [loadAll, loadAll, ih]
      rfl
  rw [allExports, allExports]
  simp only [hload]
  rfl

/-! ## Pages -/

/-- A page of exports, and the token for the next one. -/
def exportPage (p : StackProvider) (t : FileTree) (token : Option String) :
    Except ProviderError (List StackExport × Option String) :=
  (p.listExports t token).map fun page => (page.exports, page.next)

theorem listExports_of_exportPage {token next : Option String} {items : List StackExport}
    (h : p.exportPage t token = .ok (items, next)) : p.listExports t token = .ok ⟨items, next⟩ := by
  rw [exportPage] at h
  cases hlist : p.listExports t token with
  | error e =>
    rw [hlist] at h
    cases h
  | ok page =>
    rw [hlist] at h
    cases h
    rfl

theorem exportPage_of_start (hall : p.allExports t = .ok all) {token : Option String} {start : Nat}
    (hstart : pageStart token = .ok start) (hword : start + p.pageSize.toNat < UInt64.size) :
    p.exportPage t token = .ok ((all.drop start).take p.pageSize.toNat,
      if start + p.pageSize.toNat < all.length then some (toString (start + p.pageSize.toNat))
      else none) := by
  rw [exportPage, listExports, hall, ok_bind, hstart, ok_bind, pageFrom_eq hword]
  rfl

/-- A place that a token is given for. The page before it ends there, so it is one page on at
least. -/
def IsPlace (p : StackProvider) (all : List StackExport) (start : Nat) : Prop :=
  start = 0 ∨ p.pageSize.toNat ≤ start ∧ start < all.length

theorem IsPlace.word {start : Nat} (h : p.IsPlace all start) (hcount : all.length < UInt64.size / 2) :
    start + p.pageSize.toNat < UInt64.size := by
  have hhalf : UInt64.size = UInt64.size / 2 + UInt64.size / 2 := rfl
  have hsize : p.pageSize.toNat < UInt64.size := p.pageSize.toNat_lt
  rcases h with rfl | ⟨hle, hlt⟩
  · rwa [Nat.zero_add]
  · omega

/-- A token stands for the exports from its place on. -/
theorem tokensStand (hall : p.allExports t = .ok all) (hcount : all.length < UInt64.size / 2) :
    TokensStand p.pageSize.toNat (p.exportPage t) fun token rest =>
      ∃ start, p.IsPlace all start ∧ pageStart token = .ok start ∧ rest = all.drop start := by
  rintro token rest ⟨start, hplace, hstart, rfl⟩
  have hword := hplace.word hcount
  rw [exportPage_of_start hall hstart hword, List.length_drop]
  by_cases hmore : p.pageSize.toNat < all.length - start
  · refine .inr ⟨hmore, toString (start + p.pageSize.toNat), ?_, start + p.pageSize.toNat,
      .inr ⟨by omega, by omega⟩, ?_, ?_⟩
    · rw [if_pos (by omega)]
    · have hread : Number.parseBelow? UInt64.size (toString (start + p.pageSize.toNat)) =
          some (start + p.pageSize.toNat) := Number.parseBelow?_toString hword
      rw [pageStart, hread]
    · rw [List.drop_drop]
  · refine .inl ⟨Nat.not_lt.1 hmore, ?_⟩
    rw [if_neg (by omega), List.take_of_length_le (by rw [List.length_drop]; omega)]

theorem exists_exportPages (hsize : 0 < p.pageSize) (hall : p.allExports t = .ok all)
    (hcount : all.length < UInt64.size / 2) :
    ∃ pages, Pages (p.exportPage t) none pages ∧ InPages p.pageSize.toNat all pages :=
  (tokensStand hall hcount).exists_pages (UInt64.lt_iff_toNat_lt.1 hsize) ⟨0, .inl rfl, rfl, rfl⟩

end StackProvider

end Rollout
