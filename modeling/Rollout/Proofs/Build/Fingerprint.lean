import Rollout.Proofs.Build.Collected
import Rollout.Proofs.Build.Unambiguous

/-!
What the fingerprint of a function depends on: the names and the contents of its compiled files, whatever
else the build directory holds and in whatever order it is read.
-/

namespace Rollout

open FileTree Outcome

/-- What the files of a machine are like: every location is entered once, by names that a directory can
hold, and no file has as many as 2⁶⁴ bytes. -/
structure FileTree.Natural (t : FileTree) : Prop where
  wf : t.WellFormed
  once : t.Once
  named : ∀ l e, t.entry? l = some e → ∀ name ∈ l, Path.IsEntry name
  sized : ∀ l content, t.entry? l = some (.file content) → content.size < 2 ^ 64

namespace FileTree

variable {t : FileTree} {p q base : Path} {l : Location} {content : ByteArray}

theorem Covers.placed (h : t.Covers p q content) (ht : t.Natural) (hp : Path.Placed base p) :
    Path.Placed base q := by
  cases h with
  | itself _ _ _ => exact hp
  | below l names _ hdir hfile =>
    refine hp.join ⟨?_, fun name hname => ?_⟩
    · rintro rfl
      rw [List.append_nil, entry?_of_find hdir] at hfile
      cases hfile
    · exact (ht.named _ _ hfile name (List.mem_append_right _ hname)).noSlash

theorem Covers.entry?_of_leads (h : t.Covers p q content) (ht : t.Natural) (hq : t.Leads q l) :
    t.entry? l = some (.file content) := by
  cases h with
  | itself l' _ hfile =>
    rw [hq.unique (leads_of_find hfile)]
    exact entry?_of_find hfile
  | below l' names _ hdir hfile =>
    have hnames (name : String) (hname : name ∈ names) : Path.IsEntry name :=
      ht.named _ _ hfile name (List.mem_append_right _ hname)
    rw [hq.eq_append ht.wf hdir hfile hnames]
    exact hfile

end FileTree

namespace BuildOutput

variable {b b' : BuildOutput} {t t' : FileTree} {f f' : FunctionSpec} {p q : Path}
  {content content' : ByteArray} {files : Files} {contents contents' : TextMap ByteArray}
  {found : List Path} {name : String} {l : Location} {hash hash' : ContentHash}

/-- A build on a machine, and a function with files listed as paths are written. -/
structure Standing (b : BuildOutput) (t : FileTree) (f : FunctionSpec) : Prop where
  natural : t.Natural
  dir : b.dir.Clean
  listed : ∀ listed ∈ f.compiledFiles, listed.Clean

/-! ## One name, one content -/

theorem placed_packageDir (hb : b.dir.Clean) (package : List String) :
    Path.Placed b.dir (b.packageDir package) := by
  induction package using List.reverseRecOn with
  | nil => exact hb.placed
  | append_singleton package segment ih =>
    rw [packageDir, List.foldl_append]
    exact ih.join (Path.clean_ofString segment)

theorem Collects.placed (h : b.Collects t f p content) (hs : b.Standing t f) :
    Path.Placed b.dir p := by
  cases h with
  | entryPoint h => exact h.placed hs.natural (hs.dir.placed.join (Path.clean_ofString _))
  | ofClass _ _ h =>
    cases h with
    | intro package className file l l' _ _ _ _ _ _ =>
      exact (placed_packageDir hs.dir package).join (Path.clean_ofString file)
  | listed listed hlisted h =>
    exact h.placed hs.natural (hs.dir.placed.join (hs.listed listed hlisted))

/-- The content a file is collected with is what stands where its path leads. -/
theorem Collects.entry?_of_leads (h : b.Collects t f p content) (hs : b.Standing t f) (hp : t.Leads p l) :
    t.entry? l = some (.file content) := by
  cases h with
  | entryPoint h => exact h.entry?_of_leads hs.natural hp
  | ofClass _ _ h =>
    cases h with
    | intro package className file l₁ l' _ _ _ _ _ hfile =>
      rw [hp.unique (leads_of_find hfile)]
      exact entry?_of_find hfile
  | listed listed _ h => exact h.entry?_of_leads hs.natural hp

/-- Files of one name have one content, if one of them can be read. -/
theorem Collects.unique (hp : b.Collects t f p content) (hq : b.Collects t f q content')
    (hs : b.Standing t f) (hname : b.nameOf p = b.nameOf q) {read : ByteArray}
    (hread : t.read q = .ok read) : content = read ∧ content' = read := by
  obtain ⟨l, hl⟩ := read_eq_ok_iff.1 hread
  obtain ⟨habsolute, hnames⟩ := (hp.placed hs).eq_of_relativeText (hq.placed hs) hname
  have hq' := hq.entry?_of_leads hs (leads_of_find hl)
  have hp' := hp.entry?_of_leads hs ((leads_of_find hl).of_names habsolute.symm hnames.symm)
  rw [entry?_of_find hl] at hp' hq'
  cases hp'
  cases hq'
  exact ⟨rfl, rfl⟩

/-! ## Reading -/

theorem addFound_eq (b : BuildOutput) (found : List Path) (files : Files) : b.addFound found files =
    (found.map fun p => (b.nameOf p, p)).foldl (fun files e => TextMap.insert e.1 e.2 files) files := by
  rw [addFound, List.foldl_map]
  rfl

theorem ordered_addFound (b : BuildOutput) (found : List Path) : (b.addFound found []).Ordered := by
  rw [addFound_eq]
  exact TextMap.ordered_foldl_insert _ TextMap.Ordered.nil

theorem mem_addFound (h : (name, p) ∈ b.addFound found []) : p ∈ found ∧ b.nameOf p = name := by
  rw [addFound_eq] at h
  rcases TextMap.mem_of_mem_foldl_insert h with h | h
  · obtain ⟨q, hq, heq⟩ := List.mem_map.1 h
    cases heq
    exact ⟨hq, rfl⟩
  · cases h

/-- A name that was bound stays bound. -/
theorem get?_addFound_ne_none (found : List Path) {files : Files}
    (h : name ∈ found.map b.nameOf ∨ TextMap.get? name files ≠ none) :
    TextMap.get? name (b.addFound found files) ≠ none := by
  induction found generalizing files with
  | nil => simpa [addFound] using h
  | cons q found ih =>
    refine @ih (TextMap.insert (b.nameOf q) q files) ?_
    rw [TextMap.get?_insert]
    rw [List.map_cons, List.mem_cons] at h
    by_cases hname : b.nameOf q = name
    · simp [hname]
    · rw [if_neg hname]
      exact h.imp_left fun h => h.resolve_left (Ne.symm hname)

theorem exists_addFound (h : p ∈ found) : ∃ q, (b.nameOf p, q) ∈ b.addFound found [] := by
  have hbound : TextMap.get? (b.nameOf p) (b.addFound found []) ≠ none :=
    get?_addFound_ne_none found (.inl (List.mem_map_of_mem h))
  obtain ⟨q, hq⟩ := Option.ne_none_iff_exists'.1 hbound
  exact ⟨q, TextMap.mem_of_get? hq⟩

theorem readAll_cons {rest : Files} : readAll t ((name, p) :: rest) = .ok contents ↔
    ∃ content others, t.read p = .ok content ∧ readAll t rest = .ok others ∧
      contents = (name, content) :: others := by
  rw [readAll]
  cases hread : t.read p with
  | error e => simp
  | ok content =>
    cases hrest : readAll t rest with
    | error e => simp [Except.map]
    | ok others => simp [Except.map, eq_comm]

/-- Each file is read under its own name. -/
theorem mem_readAll (h : readAll t files = .ok contents) :
    (name, content) ∈ contents ↔ ∃ p, (name, p) ∈ files ∧ t.read p = .ok content := by
  induction files generalizing contents with
  | nil =>
    cases h
    simp
  | cons file files ih =>
    obtain ⟨content', others, hread, hothers, rfl⟩ := readAll_cons.1 h
    rw [List.mem_cons, ih hothers]
    constructor
    · rintro (heq | ⟨p, hmem, hp⟩)
      · cases heq
        exact ⟨_, List.mem_cons_self, hread⟩
      · exact ⟨p, List.mem_cons_of_mem _ hmem, hp⟩
    · rintro ⟨p, hmem, hp⟩
      rcases List.mem_cons.1 hmem with rfl | hmem
      · rw [hp] at hread
        cases hread
        exact .inl rfl
      · exact .inr ⟨p, hmem, hp⟩

theorem keys_readAll (h : readAll t files = .ok contents) :
    contents.map Prod.fst = files.map Prod.fst := by
  induction files generalizing contents with
  | nil =>
    cases h
    rfl
  | cons file files ih =>
    obtain ⟨content, others, -, hothers, rfl⟩ := readAll_cons.1 h
    rw [List.map_cons, List.map_cons, ih hothers]

theorem ordered_readAll (h : readAll t files = .ok contents) (ho : files.Ordered) :
    contents.Ordered := by
  have hpairwise : (contents.map Prod.fst).Pairwise fun a b => Text.precedes a b = true := by
    rw [keys_readAll h]
    exact List.pairwise_map.2 ho
  exact List.pairwise_map.1 hpairwise

/-- A file that a function has, by the name it has in the fingerprint. -/
def Holds (b : BuildOutput) (t : FileTree) (f : FunctionSpec) (name : String) (content : ByteArray) :
    Prop :=
  ∃ p, b.Collects t f p content ∧ b.nameOf p = name

/-- What is read of the files that were met are the files of the function. -/
theorem mem_readAll_addFound (hs : b.Standing t f)
    (hfound : ∀ p, p ∈ found ↔ ∃ content, b.Collects t f p content)
    (h : readAll t (b.addFound found []) = .ok contents) :
    (name, content) ∈ contents ↔ b.Holds t f name content := by
  rw [mem_readAll h]
  constructor
  · rintro ⟨p, hmem, hread⟩
    obtain ⟨hp, hname⟩ := mem_addFound hmem
    obtain ⟨content', hcollects⟩ := (hfound p).1 hp
    obtain ⟨rfl, -⟩ := hcollects.unique hcollects hs rfl hread
    exact ⟨p, hcollects, hname⟩
  · rintro ⟨p, hcollects, rfl⟩
    -- another path of this name may have been met later, but it leads to the same file
    obtain ⟨q, hq⟩ := exists_addFound (b := b) ((hfound p).2 ⟨content, hcollects⟩)
    have hkey : b.nameOf p ∈ contents.map Prod.fst := by
      rw [keys_readAll h]
      exact List.mem_map.2 ⟨_, hq, rfl⟩
    obtain ⟨⟨name, read⟩, hentry, hname⟩ := List.mem_map.1 hkey
    obtain rfl : name = b.nameOf p := hname
    obtain ⟨q', hmem, hread⟩ := (mem_readAll h).1 hentry
    obtain ⟨hq', hname'⟩ := mem_addFound hmem
    obtain ⟨content', hcollects'⟩ := (hfound q').1 hq'
    obtain ⟨rfl, -⟩ := hcollects.unique hcollects' hs hname'.symm hread
    exact ⟨q', hmem, hread⟩

/-! ## The fingerprint -/

/-- The files of a function by their names, in the order of the names. They are the same in whatever
order they were met. -/
structure IsContents (b : BuildOutput) (t : FileTree) (f : FunctionSpec)
    (contents : TextMap ByteArray) : Prop where
  ordered : contents.Ordered
  holds : ∀ name content, (name, content) ∈ contents ↔ b.Holds t f name content
  anyOrder : ∀ found contents', (∀ p, p ∈ found ↔ ∃ content, b.Collects t f p content) →
    readAll t (b.addFound found []) = .ok contents' → contents' = contents

theorem isContents_readAll (hs : b.Standing t f)
    (hfound : ∀ p, p ∈ found ↔ ∃ content, b.Collects t f p content)
    (h : readAll t (b.addFound found []) = .ok contents) : b.IsContents t f contents where
  ordered := ordered_readAll h (ordered_addFound b found)
  holds _ _ := mem_readAll_addFound hs hfound h
  anyOrder found' contents' hfound' h' := by
    refine (ordered_readAll h' (ordered_addFound b found')).ext
      (ordered_readAll h (ordered_addFound b found)) fun ⟨name, content⟩ => ?_
    rw [mem_readAll_addFound hs hfound' h', mem_readAll_addFound hs hfound h]

theorem fingerprint_eq_ok : b.fingerprint t f = .ok hash ↔ ∃ files contents,
    b.filesOf t f = .ok files ∧ files.isEmpty = false ∧ readAll t files = .ok contents ∧
      hash = .ofBytes (digestInput contents) := by
  simp only [fingerprint, bind_eq_ok, throw_bind, guard_eq_ok, Bool.not_eq_true, pure_eq_ok]
  constructor
  · rintro ⟨files, hfiles, hne, contents, hcontents, hhash⟩
    exact ⟨files, contents, hfiles, hne, hcontents, hhash.symm⟩
  · rintro ⟨files, contents, hfiles, hne, hcontents, hhash⟩
    exact ⟨files, hfiles, hne, contents, hcontents, hhash.symm⟩

/-- What can be read has no zero character in its path, so there is none in its name. -/
theorem nulFree_nameOf {read : ByteArray} (h : t.read p = .ok read) : NulFree (b.nameOf p) := by
  obtain ⟨l, hl⟩ := read_eq_ok_iff.1 h
  obtain ⟨l', hl', -⟩ := bind_eq_ok.1 hl
  obtain ⟨-, hnul, -⟩ := locate_eq_ok.1 hl'
  have hparts (part : String) (hpart : part ∈ p.parts) : NulFree part := fun c hc => by
    have hmem := Text.mem_join_of_mem "/" hpart hc
    simpa using List.any_eq_false.1 hnul c hmem
  have hcomponents (part : String) (hpart : part ∈ p.components) : NulFree part := by
    have hname (hpart : part ∈ p.names) : NulFree part := hparts part (List.mem_filter.1 hpart).1
    have hsign (c : Char) (hc : c.toNat ≠ 0) : NulFree (String.ofList [c]) := fun d hd => by
      rw [String.toList_ofList, List.mem_singleton] at hd
      exact hd ▸ hc
    unfold Path.components at hpart
    split at hpart
    · exact (List.mem_cons.1 hpart).elim (fun heq => heq ▸ hsign '/' (by decide)) hname
    split at hpart
    · exact (List.mem_cons.1 hpart).elim (fun heq => heq ▸ hsign '.' (by decide)) hname
    · exact hname hpart
  have hjoin (parts : List String) (h : ∀ part ∈ parts, part ∈ p.components) :
      NulFree (Text.join "/" parts) := fun c hc => by
    rcases Text.mem_join hc with hc | ⟨part, hpart, hc⟩
    · rw [show "/".toList = ['/'] from rfl, List.mem_singleton] at hc
      rw [hc]
      decide
    · exact hcomponents part (h part hpart) c hc
  unfold nameOf Path.relativeText
  split
  · rename_i rest hrest
    refine hjoin rest fun part hpart => ?_
    rw [Path.dropNames?_eq_some.1 hrest]
    exact List.mem_append_right _ hpart
  · exact hjoin _ fun _ h => h

theorem tellable (hs : b.Standing t f) (h : readAll t (b.addFound found []) = .ok contents) :
    Tellable contents := by
  rintro ⟨name, content⟩ hmem
  obtain ⟨p, hp, hread⟩ := (mem_readAll h).1 hmem
  obtain ⟨l, hl⟩ := read_eq_ok_iff.1 hread
  obtain ⟨-, rfl⟩ := mem_addFound hp
  exact ⟨nulFree_nameOf hread, hs.natural.sized l content (entry?_of_find hl)⟩

theorem ofBytes_eq_iff {x y : List UInt8} (hcollision : Digest.sha256 x = Digest.sha256 y → x = y) :
    ContentHash.ofBytes x = ContentHash.ofBytes y ↔ x = y := by
  refine ⟨fun h => hcollision ?_, fun h => h ▸ rfl⟩
  exact String.append_right_inj _ |>.1 (congrArg ContentHash.text h)

/-- The fingerprints of two functions are the same if and only if their files are: the same names with
the same contents, as long as the digests of the two inputs do not collide. -/
theorem fingerprint_eq_iff (hs : b.Standing t f) (hs' : b'.Standing t' f')
    (h : b.fingerprint t f = .ok hash) (h' : b'.fingerprint t' f' = .ok hash') :
    ∃ contents contents', b.IsContents t f contents ∧ b'.IsContents t' f' contents' ∧
      (contents = contents' ↔ ∀ name content, b.Holds t f name content ↔ b'.Holds t' f' name content) ∧
      ((Digest.sha256 (digestInput contents) = Digest.sha256 (digestInput contents') →
          digestInput contents = digestInput contents') →
        (hash = hash' ↔ contents = contents')) := by
  obtain ⟨files, contents, hfiles, -, hcontents, rfl⟩ := fingerprint_eq_ok.1 h
  obtain ⟨files', contents', hfiles', -, hcontents', rfl⟩ := fingerprint_eq_ok.1 h'
  obtain ⟨found, rfl, hfound⟩ := gathers_filesOf hs.natural.once hfiles
  obtain ⟨found', rfl, hfound'⟩ := gathers_filesOf hs'.natural.once hfiles'
  have hall := isContents_readAll hs hfound hcontents
  have hall' := isContents_readAll hs' hfound' hcontents'
  refine ⟨contents, contents', hall, hall', ?_, fun hcollision => ?_⟩
  · constructor
    · rintro rfl name content
      rw [← hall.holds, ← hall'.holds]
    · intro h
      exact hall.ordered.ext hall'.ordered fun ⟨name, content⟩ => by
        rw [hall.holds, hall'.holds, h]
  · rw [ofBytes_eq_iff hcollision]
    exact ⟨digestInput_inj (tellable hs hcontents) (tellable hs' hcontents'),
      congrArg digestInput⟩

namespace Sample

/-- A build with a class, a class inside it and another class of a similar name. -/
def disk (changed : Bool) : FileTree where
  workDir := []
  locks := []
  entries := [(["b"], .dir), (["b", "com"], .dir),
    (["b", "com", "CartHelper.class"], .file (if changed then "new" else "old").toUTF8),
    (["b", "com", "Cart$Line.class"], .file "line".toUTF8),
    (["b", "com", "Cart.class"], .file "cart".toUTF8), (["b", "prices"], .dir),
    (["b", "prices", "list"], .file "1".toUTF8)]

def build : BuildOutput := ⟨.ofString "/b"⟩

def cart : FunctionSpec :=
  ⟨"com.Cart", "cart.jar", ["dev"], "V", [.ofString "prices", .ofString "prices/list"]⟩

theorem natural (changed : Bool) : (disk changed).Natural where
  wf := .of_entries (by cases changed <;> decide) rfl
  once := by cases changed <;> decide
  named l e he := by
    have hnames : ∀ x ∈ (disk changed).entries, ∀ name ∈ x.1, Path.IsEntry name := by
      cases changed <;> decide
    rcases mem_entries he with ⟨rfl, -⟩ | hmem
    · simp
    · exact hnames _ hmem
  sized l content hcontent := by
    have hsizes : ∀ x ∈ (disk changed).entries, ∀ content, x.2 = .file content → content.size < 8 := by
      intro x hx content hcontent
      simp only [disk, List.mem_cons, List.not_mem_nil, or_false] at hx
      rcases hx with rfl | rfl | rfl | rfl | rfl | rfl | rfl <;> cases hcontent
      · cases changed <;> decide
      all_goals decide
    rcases mem_entries hcontent with ⟨-, h⟩ | hmem
    · cases h
    · exact Nat.lt_trans (hsizes _ hmem content rfl) (by decide)

theorem standing (changed : Bool) : build.Standing (disk changed) cart :=
  ⟨natural changed, by decide, by decide⟩

def compiled : TextMap ByteArray :=
  [("com/Cart$Line.class", "line".toUTF8), ("com/Cart.class", "cart".toUTF8),
    ("prices/list", "1".toUTF8)]

theorem fingerprint_disk (changed : Bool) :
    build.fingerprint (disk changed) cart = .ok (.ofBytes (digestInput compiled)) := by
  have hfiles : build.filesOf (disk changed) cart =
      .ok [("com/Cart$Line.class", .ofString "/b/com/Cart$Line.class"),
        ("com/Cart.class", .ofString "/b/com/Cart.class"),
        ("prices/list", .ofString "/b/prices/list")] := by
    cases changed <;> decide +kernel
  refine fingerprint_eq_ok.2 ⟨_, compiled, hfiles, rfl, ?_, rfl⟩
  cases changed <;> decide +kernel

end Sample

/-- Another class whose name begins like that of the entry point changes nothing. -/
theorem fingerprint_eq_iff_sample : ∃ hash,
    Sample.build.fingerprint (Sample.disk false) Sample.cart = .ok hash ∧
      Sample.build.fingerprint (Sample.disk true) Sample.cart = .ok hash ∧
      ∃ contents contents', Sample.build.IsContents (Sample.disk false) Sample.cart contents ∧
        Sample.build.IsContents (Sample.disk true) Sample.cart contents' ∧
        ((Digest.sha256 (digestInput contents) = Digest.sha256 (digestInput contents') →
          digestInput contents = digestInput contents') → contents = contents') := by
  have h := Sample.fingerprint_disk false
  have h' := Sample.fingerprint_disk true
  obtain ⟨contents, contents', hcontents, hcontents', -, hiff⟩ :=
    fingerprint_eq_iff (Sample.standing false) (Sample.standing true) h h'
  exact ⟨_, h, h', contents, contents', hcontents, hcontents', fun hcollision =>
    (hiff hcollision).1 rfl⟩

end BuildOutput

end Rollout
