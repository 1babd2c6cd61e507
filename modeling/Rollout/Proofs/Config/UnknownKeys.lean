import Mathlib.Data.List.Nodup
import Rollout.Config.Load
import Rollout.Proofs.Outcome
import Rollout.Proofs.Text.Utf8
import Rollout.Proofs.Toml.Places

/-!
Warnings about keys that are not known. Every key of a document that has no meaning is warned
about once, no other key is, and the configuration is that of the document without such keys. The
line of a warning is the first that holds the last name of the key, whatever it holds it for: it
is a line of the key if no line before holds that name.
-/

namespace Rollout.Config

variable {doc : List (String × Toml)} {name : String} {v : Toml} {known : List String}

/-! ## Unknown keys -/

/-- The keys that a section knows; none for a name that is no section. -/
def sectionKeys? (name : String) : Option (List String) :=
  if name = "deploy" then
    some ["region", "stage", "build_dir", "descriptor_dir", "state_dir", "upload_concurrency"]
  else if name = "polling" then some ["interval_secs", "timeout_secs"]
  else if name = "exports" then some ["attempts", "interval_secs"]
  else if name = "provider" then some ["kind", "root", "endpoint"]
  else none

/-- A key without meaning, by the names that lead to it: it is at the top and no section, or it is
in the table of a section that does not know it. -/
inductive Unknown (doc : List (String × Toml)) : List String → Prop
  | top {name : String} {v : Toml} (hmem : (name, v) ∈ doc) (hname : sectionKeys? name = none) :
      Unknown doc [name]
  | inSection {name key : String} {v w : Toml} {known : List String}
      {members : List (String × Toml)} (hmem : (name, v) ∈ doc)
      (hname : sectionKeys? name = some known) (htable : tableOf? v = some members)
      (hkey : (key, w) ∈ members) (hunknown : key ∉ known) : Unknown doc [name, key]

/-- The keys of a section's table that the section does not know. -/
def unknownIn (known : List String) (v : Toml) : List String :=
  match tableOf? v with
  | some members => (members.map (·.1)).filter fun key => !known.contains key
  | none => []

/-- The unknown keys at a name of the document. -/
def unknownAt (name : String) (v : Toml) : List (List String) :=
  match sectionKeys? name with
  | some known => (unknownIn known v).map fun key => [name, key]
  | none => [[name]]

/-- The unknown keys of a document in its order. -/
def unknownKeys (doc : List (String × Toml)) : List (List String) :=
  doc.flatMap fun e => unknownAt e.1 e.2

/-- The value of a section without the keys that are not known. -/
def knownPart (known : List String) (v : Toml) : Toml :=
  match tableOf? v with
  | some members => .table (members.filter fun e => known.contains e.1)
  | none => v

/-- A document without its unknown keys. -/
def withoutUnknown (doc : List (String × Toml)) : List (String × Toml) :=
  doc.filterMap fun e => (sectionKeys? e.1).map fun known => (e.1, knownPart known e.2)

theorem mem_unknownIn {key : String} : key ∈ unknownIn known v ↔
    ∃ members w, tableOf? v = some members ∧ (key, w) ∈ members ∧ key ∉ known := by
  unfold unknownIn
  cases tableOf? v with
  | none => simp
  | some members => simp [and_comm]

theorem mem_unknownKeys {q : List String} : q ∈ unknownKeys doc ↔ Unknown doc q := by
  unfold unknownKeys unknownAt
  rw [List.mem_flatMap]
  constructor
  · rintro ⟨⟨name, v⟩, hmem, hq⟩
    dsimp only at hq
    split at hq
    · rename_i known hname
      obtain ⟨key, hkey, rfl⟩ := List.mem_map.1 hq
      obtain ⟨members, w, htable, hkey, hunknown⟩ := mem_unknownIn.1 hkey
      exact .inSection hmem hname htable hkey hunknown
    · rename_i hname
      rw [List.mem_singleton.1 hq]
      exact .top hmem hname
  · rintro (⟨hmem, hname⟩ | ⟨hmem, hname, htable, hkey, hunknown⟩)
    · exact ⟨_, hmem, by simp [hname]⟩
    · refine ⟨_, hmem, ?_⟩
      simp only [hname]
      exact List.mem_map_of_mem (mem_unknownIn.2 ⟨_, _, htable, hkey, hunknown⟩)

/-! ## Reading -/

variable {l l' : Loaded}

theorem map_readSection {α : Type} {fields : List (Option Toml) → Option α}
    (put : α → Config → Config) (l : Loaded) (known : List String) (name : String) (v : Toml) :
    ((readSection known fields v).map fun (s, keys) =>
        (⟨put s l.config, l.unknown ++ qualified name keys⟩ : Loaded)) =
      (sectionText? known v).bind fun text => ((fields text.values).map put).map fun f =>
        ⟨f l.config, l.unknown ++ qualified name text.unknown⟩ := by
  unfold readSection
  cases sectionText? known v with
  | none => rfl
  | some text =>
    dsimp only [Option.bind_some]
    cases fields text.values <;> rfl

/-- What a section changes depends on the values of its known keys alone. -/
theorem exists_readKey_eq (hname : sectionKeys? name = some known) :
    ∃ set : List (Option Toml) → Option (Config → Config), ∀ l v,
      readKey l name v = (sectionText? known v).bind fun text =>
        (set text.values).map fun f => ⟨f l.config, l.unknown ++ qualified name text.unknown⟩ := by
  unfold sectionKeys? at hname
  unfold readKey
  split at hname
  · rename_i hsection
    cases hname
    obtain ⟨fields, hfields⟩ : ∃ fields, deploySection? = readSection _ fields := ⟨_, rfl⟩
    refine ⟨fun values => (fields values).map fun s c => { c with deploy := s }, fun l v => ?_⟩
    rw [if_pos hsection, hfields]
    exact map_readSection (fun s c => { c with deploy := s }) l _ name v
  rename_i hdeploy
  simp only [if_neg hdeploy]
  split at hname
  · rename_i hsection
    cases hname
    obtain ⟨fields, hfields⟩ : ∃ fields, pollingSection? = readSection _ fields := ⟨_, rfl⟩
    refine ⟨fun values => (fields values).map fun s c => { c with polling := s }, fun l v => ?_⟩
    rw [if_pos hsection, hfields]
    exact map_readSection (fun s c => { c with polling := s }) l _ name v
  rename_i hpolling
  simp only [if_neg hpolling]
  split at hname
  · rename_i hsection
    cases hname
    obtain ⟨fields, hfields⟩ : ∃ fields, exportsSection? = readSection _ fields := ⟨_, rfl⟩
    refine ⟨fun values => (fields values).map fun s c => { c with exports := s }, fun l v => ?_⟩
    rw [if_pos hsection, hfields]
    exact map_readSection (fun s c => { c with exports := s }) l _ name v
  rename_i hexports
  simp only [if_neg hexports]
  split at hname
  · rename_i hsection
    cases hname
    obtain ⟨fields, hfields⟩ : ∃ fields, providerSection? = readSection _ fields := ⟨_, rfl⟩
    refine ⟨fun values => (fields values).map fun s c => { c with provider := s }, fun l v => ?_⟩
    rw [if_pos hsection, hfields]
    exact map_readSection (fun s c => { c with provider := s }) l _ name v
  rename_i hprovider
  simp only [if_neg hprovider]
  cases hname

theorem readKey_of_top (hname : sectionKeys? name = none) (l : Loaded) (v : Toml) :
    readKey l name v = some { l with unknown := l.unknown ++ [name] } := by
  unfold sectionKeys? at hname
  unfold readKey
  repeat' split at hname
  all_goals simp_all

theorem sectionText?_unknown {text : SectionText} (h : sectionText? known v = some text) :
    text.unknown = unknownIn known v := by
  unfold sectionText? at h
  unfold unknownIn
  split at h
  · cases h
    rfl
  · obtain ⟨members, hmembers, rfl⟩ := Option.map_eq_some_iff.1 h
    rw [hmembers]

theorem member?_filter {key : String} {p : String → Bool} (h : p key = true)
    (members : List (String × Toml)) :
    Toml.member? key (members.filter fun e => p e.1) = Toml.member? key members := by
  induction members with
  | nil => rfl
  | cons e rest ih =>
    obtain ⟨k, w⟩ := e
    by_cases hk : k = key
    · subst hk
      rw [List.filter_cons_of_pos (by simpa using h), Toml.member?, Toml.member?, if_pos rfl,
        if_pos rfl]
    · cases hp : p k with
      | true =>
        rw [List.filter_cons_of_pos (by simpa using hp), Toml.member?, Toml.member?, if_neg hk,
          if_neg hk, ih]
      | false =>
        rw [List.filter_cons_of_neg (by simpa using hp), Toml.member?, if_neg hk, ih]

/-- The keys that are not known say nothing about the others. -/
theorem sectionText?_knownPart {text : SectionText} (h : sectionText? known v = some text) :
    sectionText? known (knownPart known v) = some ⟨text.values, []⟩ := by
  have htable {members : List (String × Toml)} (hmembers : tableOf? v = some members)
      (htext : (⟨known.map fun key => Toml.member? key members,
        (members.map (·.1)).filter fun key => !known.contains key⟩ : SectionText) = text) :
      sectionText? known (knownPart known v) = some ⟨text.values, []⟩ := by
    rw [← htext, knownPart, hmembers]
    simp only [sectionText?, tableOf?, Option.map_some, Option.some.injEq, SectionText.mk.injEq]
    constructor
    · refine List.map_congr_left fun key hkey => member?_filter (p := known.contains) ?_ members
      simpa using hkey
    · simp [List.filter_eq_nil_iff]
  unfold sectionText? at h
  split at h
  · cases h
    rfl
  · obtain ⟨members, hmembers, htext⟩ := Option.map_eq_some_iff.1 h
    exact htable hmembers htext

/-- The key of a warning from the names that lead to it. -/
def dotted (q : List String) : String := Text.join "." q

theorem readKey_unknown (h : readKey l name v = some l') :
    l'.unknown = l.unknown ++ (unknownAt name v).map dotted := by
  unfold unknownAt
  cases hname : sectionKeys? name with
  | none =>
    rw [readKey_of_top hname] at h
    cases h
    rfl
  | some known =>
    obtain ⟨set, hset⟩ := exists_readKey_eq hname
    rw [hset] at h
    obtain ⟨text, htext, h⟩ := Option.bind_eq_some_iff.1 h
    obtain ⟨f, -, rfl⟩ := Option.map_eq_some_iff.1 h
    rw [sectionText?_unknown htext]
    simp [qualified, dotted, Text.join]

/-- The unknown keys of a document are reported in its order. -/
theorem readKeys_unknown (h : readKeys l doc = some l') :
    l'.unknown = l.unknown ++ (unknownKeys doc).map dotted := by
  induction doc generalizing l with
  | nil =>
    cases h
    simp [unknownKeys]
  | cons e rest ih =>
    obtain ⟨l₁, hread, hrest⟩ := Option.bind_eq_some_iff.1 h
    rw [ih hrest, readKey_unknown hread]
    simp [unknownKeys]

/-- The configuration does not depend on the unknown keys. -/
theorem readKeys_withoutUnknown (h : readKeys l doc = some l') (unknown : List String) :
    readKeys ⟨l.config, unknown⟩ (withoutUnknown doc) = some ⟨l'.config, unknown⟩ := by
  induction doc generalizing l with
  | nil =>
    cases h
    rfl
  | cons e rest ih =>
    obtain ⟨name, v⟩ := e
    obtain ⟨l₁, hread, hrest⟩ := Option.bind_eq_some_iff.1 h
    cases hname : sectionKeys? name with
    | none =>
      rw [readKey_of_top hname] at hread
      cases hread
      rw [withoutUnknown, List.filterMap_cons_none (by simp [hname])]
      exact @ih ⟨l.config, l.unknown ++ [name]⟩ hrest
    | some known =>
      obtain ⟨set, hset⟩ := exists_readKey_eq hname
      rw [hset] at hread
      obtain ⟨text, htext, hread⟩ := Option.bind_eq_some_iff.1 hread
      obtain ⟨f, hf, rfl⟩ := Option.map_eq_some_iff.1 hread
      have hkept : withoutUnknown ((name, v) :: rest) =
          (name, knownPart known v) :: withoutUnknown rest :=
        List.filterMap_cons_some (by simp [hname])
      have hread' : readKey ⟨l.config, unknown⟩ name (knownPart known v) =
          some ⟨f l.config, unknown⟩ := by
        rw [hset, sectionText?_knownPart htext, Option.bind_some, hf]
        simp [qualified]
      rw [hkept, readKeys, hread']
      exact @ih ⟨f l.config, _⟩ hrest

/-! ## Where they are written -/

open Toml (WrittenOn VerbatimOn LocatedValue)

/-- A date where a section should be counts as a table with a key that no file has. -/
def IsDateKey (doc : List (String × Toml)) (q : List String) : Prop :=
  ∃ name text, (name, .date text) ∈ doc ∧ q = [name, "$__toml_private_datetime"]

theorem tableOf?_eq_some {members : List (String × Toml)} (h : tableOf? v = some members) :
    v = .table members ∨
      ∃ text, v = .date text ∧ members = [("$__toml_private_datetime", .str text)] := by
  cases v with
  | table members' => cases h; exact .inl rfl
  | date text => cases h; exact .inr ⟨text, rfl, rfl⟩
  | _ => cases h

section

variable {W : List String → Prop}

theorem nodup_members (h : LocatedValue W [] (.table doc)) (hmem : (name, v) ∈ doc)
    {members : List (String × Toml)} (htable : tableOf? v = some members) :
    (members.map (·.1)).Nodup := by
  cases h with
  | plain h => exact absurd rfl (h doc)
  | table _ _ hvalues =>
    rcases tableOf?_eq_some htable with rfl | ⟨text, rfl, rfl⟩
    · cases hvalues _ hmem with
      | plain h => exact absurd rfl (h members)
      | table hnodup => exact hnodup
    · simp

theorem nodup_unknownAt (h : LocatedValue W [] (.table doc)) (hmem : (name, v) ∈ doc) :
    (unknownAt name v).Nodup := by
  unfold unknownAt
  split
  · refine List.Nodup.map (fun a b hab => by simpa using hab) ?_
    unfold unknownIn
    split
    · rename_i htable
      exact (nodup_members h hmem htable).filter _
    · exact List.nodup_nil
  · exact List.nodup_singleton _

theorem head?_of_mem_unknownAt {q : List String} (h : q ∈ unknownAt name v) :
    q.head? = some name := by
  unfold unknownAt at h
  split at h
  · obtain ⟨key, -, rfl⟩ := List.mem_map.1 h
    rfl
  · rw [List.mem_singleton.1 h]
    rfl

/-- Where no table has a key twice, no key is reported twice. -/
theorem nodup_unknownKeys (h : LocatedValue W [] (.table doc)) : (unknownKeys doc).Nodup := by
  have hnames : (doc.map (·.1)).Nodup := by
    cases h with
    | plain h => exact absurd rfl (h doc)
    | table hnodup => exact hnodup
  refine List.nodup_flatMap.2 ⟨fun e he => nodup_unknownAt h he, ?_⟩
  refine (List.pairwise_map.1 hnames).imp fun {e e'} hne => ?_
  refine List.disjoint_left.2 fun q hq hq' => hne ?_
  exact Option.some.inj ((head?_of_mem_unknownAt hq).symm.trans (head?_of_mem_unknownAt hq'))

/-- An unknown key is one of those of the document's tables. -/
theorem Unknown.located {q : List String} (hq : Unknown doc q)
    (h : LocatedValue W [] (.table doc)) : IsDateKey doc q ∨ W q := by
  cases h with
  | plain h => exact absurd rfl (h doc)
  | table _ hkeys hvalues =>
    cases hq with
    | top hmem _ => exact .inr (hkeys _ hmem)
    | inSection hmem _ htable hkey _ =>
      rcases tableOf?_eq_some htable with rfl | ⟨text, rfl, rfl⟩
      · cases hvalues _ hmem with
        | plain h => exact absurd rfl (h _)
        | table _ hkeys => exact .inr (hkeys _ hkey)
      · left
        cases List.mem_singleton.1 hkey
        exact ⟨_, text, hmem, rfl⟩

end

/-! ## Warnings -/

/-- What the line of a key is looked for by: the last piece between dots. -/
def sought (q : List String) : String :=
  (Text.splitString '.' (dotted q)).getLastD (dotted q)

theorem getLast?_split_dotted {q : List String} (h : q.getLast? = some name) :
    (Text.split '.' (dotted q).toList).getLast? = (Text.split '.' name.toList).getLast? := by
  induction q with
  | nil => cases h
  | cons first q ih =>
    cases q with
    | nil =>
      cases h
      rfl
    | cons second q =>
      rw [List.getLast?_cons_cons] at h
      rw [dotted, Text.join_cons _ _ _ (List.cons_ne_nil _ _), String.toList_append,
        String.toList_append, List.append_assoc]
      exact (Text.getLast?_split_append_cons '.' _ _).trans (ih h)

theorem sought_suffix {q : List String} (h : q.getLast? = some name) :
    (sought q).toList <:+ name.toList := by
  have hlast := getLast?_split_dotted h
  obtain ⟨piece, hpiece⟩ := List.getLast?_isSome.2 (Text.split_ne_nil '.' name.toList) |>
    Option.isSome_iff_exists.1
  have hsought : sought q = String.ofList piece := by
    rw [sought, Text.splitString, List.getLastD_eq_getLast?, List.getLast?_map, hlast, hpiece]
    rfl
  rw [hsought, String.toList_ofList]
  exact Text.suffix_of_getLast?_split hpiece

/-- A key stands out on a line: it is written there as it is, and no line before holds what it is
looked for by. -/
structure StandsOut (content : String) (q : List String) (n : Nat) : Prop where
  verbatim : VerbatimOn content q n
  first : ∀ line ∈ (Text.lines content).take (n - 1), ¬(sought q).toList <:+: line.toList

theorem StandsOut.lineOf? {content : String} {q : List String} {n : Nat}
    (h : StandsOut content q n) (hq : q ≠ []) :
    ConfigWarning.lineOf? (sought q) content = some n := by
  obtain ⟨name, hname⟩ := Option.isSome_iff_exists.1 (List.getLast?_isSome.2 hq)
  obtain ⟨line, hline, hholds⟩ := h.verbatim.exists_line hname
  obtain ⟨m, rfl⟩ : ∃ m, n = m + 1 := by
    obtain ⟨_, _, _, _, _, -, -, -, -, hn⟩ := h.verbatim
    exact ⟨_, hn⟩
  rw [Nat.add_sub_cancel] at hline
  have hfirst := h.first
  rw [Nat.add_sub_cancel] at hfirst
  obtain ⟨hlt, hget⟩ := List.getElem?_eq_some_iff.1 hline
  rw [ConfigWarning.lineOf?, Option.map_eq_some_iff]
  refine ⟨m, List.findIdx?_eq_some_iff_getElem.2 ⟨hlt, ?_, fun j hj => ?_⟩, rfl⟩
  · rw [hget, Text.occursIn_iff_infix]
    exact (sought_suffix hname).isInfix.trans hholds
  · have hmem : (Text.lines content)[j] ∈ (Text.lines content).take m :=
      List.mem_take_iff_getElem.2 ⟨j, by omega, rfl⟩
    rw [Text.occursIn_iff_infix]
    exact hfirst _ hmem

theorem Unknown.ne_nil {q : List String} (h : Unknown doc q) : q ≠ [] := by
  cases h <;> exact List.cons_ne_nil _ _

theorem line_ofKey (file : Path) (content : String) (q : List String) :
    (ConfigWarning.ofKey file content (dotted q)).line =
      ConfigWarning.lineOf? (sought q) content := rfl

theorem load_eq_ok {t : FileTree} {file : Path} {c : Config} {ws : List ConfigWarning}
    (h : load t file = .ok (c, ws)) : ∃ content doc l, t.readText file = .ok content ∧
      Toml.parse? content = some doc ∧ readKeys ⟨.standard, []⟩ doc = some l ∧ l.config = c ∧
      ws = l.unknown.map (ConfigWarning.ofKey file content) := by
  obtain ⟨content, hcontent, h⟩ := Outcome.bind_eq_ok.1 h
  have hcontent := Outcome.mapError_eq_ok.1 hcontent
  split at h
  · cases h
  · rename_i l hl
    obtain ⟨doc, hdoc, hread⟩ := Option.bind_eq_some_iff.1 hl
    cases h
    exact ⟨content, doc, l, hcontent, hdoc, hread, rfl, rfl⟩

/-- Whenever a configuration file is loaded, each unknown key of its document is warned about once,
in an order of the keys without repetitions, and no other key is; the configuration is that of the
document without the unknown keys; every unknown key that is in the file at all is written on some
line; and if it stands out on a line, that is the line its warning gives. -/
theorem warnings_locate {t : FileTree} {file : Path} {c : Config} {ws : List ConfigWarning}
    (h : load t file = .ok (c, ws)) :
    ∃ content doc, t.readText file = .ok content ∧ Toml.parse? content = some doc ∧
      (∃ keys : List (List String), keys.Nodup ∧ (∀ q, q ∈ keys ↔ Unknown doc q) ∧
        ws = keys.map fun q => ConfigWarning.ofKey file content (dotted q)) ∧
      readKeys ⟨.standard, []⟩ (withoutUnknown doc) = some ⟨c, []⟩ ∧
      ∀ q, Unknown doc q →
        (IsDateKey doc q ∨ ∃ n, WrittenOn content q n) ∧
          ∀ n, StandsOut content q n →
            (ConfigWarning.ofKey file content (dotted q)).line = some n ∧ WrittenOn content q n := by
  obtain ⟨content, doc, l, hcontent, hdoc, hread, rfl, rfl⟩ := load_eq_ok h
  have hlocated := Toml.located_of_parse? hdoc
  refine ⟨content, doc, hcontent, hdoc, ⟨unknownKeys doc, nodup_unknownKeys hlocated,
    fun q => mem_unknownKeys, ?_⟩, readKeys_withoutUnknown hread [], fun q hq => ⟨?_, ?_⟩⟩
  · rw [readKeys_unknown hread, List.nil_append, List.map_map]
    rfl
  · refine (hq.located hlocated).imp_right fun ⟨place, hplace⟩ => ?_
    exact hplace.exists_writtenOn
  · intro n hn
    rw [line_ofKey, hn.lineOf? hq.ne_nil]
    exact ⟨rfl, hn.verbatim.writtenOn⟩

namespace Sample

/-- A directory with a configuration file, and its text. -/
def directory (text : String) : FileTree := ⟨[(["liftoff.toml"], .file text.toUTF8)], [], []⟩

/-- The configuration file. -/
def file : Path := ⟨["", "liftoff.toml"]⟩

/-- A file with a misspelt key in a section. -/
def misspelt : String := "[polling]\ninterval_sec = 2\n"

/-- The document of the file. -/
def misspeltDoc : List (String × Toml) := [("polling", .table [("interval_sec", .int 2)])]

/-- A file with an unknown key that is also the word of a comment before it. -/
def commented : String := "# x\nx = 1\n"

theorem readText_directory (text : String) : (directory text).readText file = .ok text := by
  have hfile : (directory text).read file = .ok text.toUTF8 := rfl
  rw [FileTree.readText, hfile]
  simp only [bind, Except.bind, Text.fromUTF8?_toUTF8]
  rfl

theorem load_directory {text : String} {l : Loaded} {doc : List (String × Toml)}
    (hdoc : Toml.parse? text = some doc) (hread : readKeys ⟨.standard, []⟩ doc = some l) :
    load (directory text) file =
      .ok (l.config, l.unknown.map (ConfigWarning.ofKey file text)) := by
  have hparse : parse? text = some l := by rw [parse?, hdoc, Option.bind_some, hread]
  rw [load, readText_directory]
  simp only [Except.mapError, bind, Except.bind, hparse]
  rfl

theorem parse?_misspelt : Toml.parse? misspelt = some misspeltDoc := by decide +kernel

theorem readKey_misspelt : Toml.readKey ("interval_sec ".toList ++ "= 2\n".toList) =
    some ([], "interval_sec", "= 2\n".toList) := by decide +kernel

theorem load_misspelt : load (directory misspelt) file =
    .ok (.standard, [⟨"polling.interval_sec", file, some 2, some "interval_secs"⟩]) := by
  have hread : readKeys ⟨.standard, []⟩ misspeltDoc = some ⟨.standard, ["polling.interval_sec"]⟩ :=
    rfl
  have hwarning : ConfigWarning.ofKey file misspelt "polling.interval_sec" =
      ⟨"polling.interval_sec", file, some 2, some "interval_secs"⟩ := by decide +kernel
  rw [load_directory parse?_misspelt hread, List.map_singleton, hwarning]

/-- Its reader opens the section, and goes on at the key. -/
theorem keyAt_misspelt :
    Toml.KeyAt misspelt ["polling", "interval_sec"]
      ("interval_sec ".toList ++ "= 2\n".toList) := by
  have hread : ((Toml.readHeader (Toml.skipBlanks (Toml.dropMark misspelt.toList)) .start).bind
      fun e => (Toml.readPair (Toml.skipBlanks e.2) e.1).map fun _ => (e.1.table, e.2)) =
        some (["polling"], "interval_sec = 2\n".toList) := by decide +kernel
  obtain ⟨⟨r, cs⟩, hheader, hrest⟩ := Option.bind_eq_some_iff.1 hread
  obtain ⟨⟨r', cs'⟩, hpair, h⟩ := Option.map_eq_some_iff.1 hrest
  obtain ⟨htable, rfl⟩ := Prod.mk.inj h
  have hat := Toml.KeyAt.pair (.header .start hheader) hpair
    (.here (q := ["interval_sec"]) readKey_misspelt (by simp) (by simp))
  rwa [htable] at hat

theorem standsOut_misspelt : StandsOut misspelt ["polling", "interval_sec"] 2 := by
  have hlines : (Text.lines misspelt).take 1 = ["[polling]"] := by decide +kernel
  refine ⟨⟨"[polling]\n".toList, _, _, _, _, by decide, keyAt_misspelt, readKey_misspelt,
    by decide, by decide⟩, ?_⟩
  rw [hlines, show sought ["polling", "interval_sec"] = "interval_sec" from rfl]
  simp only [List.mem_singleton, forall_eq, ← Text.occursIn_iff_infix]
  decide

theorem load_commented : load (directory commented) file =
    .ok (.standard, [⟨"x", file, some 1, none⟩]) := by
  have hdoc : Toml.parse? commented = some [("x", .int 1)] := by decide +kernel
  have hread : readKeys ⟨.standard, []⟩ [("x", .int 1)] = some ⟨.standard, ["x"]⟩ := rfl
  have hwarning : ConfigWarning.ofKey file commented "x" = ⟨"x", file, some 1, none⟩ := by
    decide +kernel
  rw [load_directory hdoc hread, List.map_singleton, hwarning]

/-- No line is read at the comment but the comment itself. -/
theorem suffix_of_reaches {r : Toml.Reading} {cs : List Char} (h : Toml.Reaches commented r cs) :
    cs = "# x\nx = 1\n".toList ∨ cs <:+ "x = 1\n".toList := by
  induction h with
  | start => exact .inl rfl
  | comment _ hmark hend ih =>
    right
    rcases ih with rfl | ih
    · cases hmark
      cases hend
      exact List.suffix_rfl
    · exact (Toml.endLine?_suffix hend).trans (hmark ▸ (Toml.skipBlanks_suffix _).trans ih)
  | blank _ hbreak ih =>
    rcases ih with rfl | ih
    · cases hbreak
    · exact .inr ((Toml.afterBreak?_suffix hbreak).trans ((Toml.skipBlanks_suffix _).trans ih))
  | header _ hread ih =>
    rcases ih with rfl | ih
    · cases hread
    · exact .inr ((Toml.readHeader_suffix hread).trans ((Toml.skipBlanks_suffix _).trans ih))
  | pair _ hread ih =>
    rcases ih with rfl | ih
    · cases hread
    · exact .inr ((Toml.readPair_suffix hread).trans ((Toml.skipBlanks_suffix _).trans ih))

theorem suffix_of_keyAt {q : List String} {place : List Char}
    (h : Toml.KeyAt commented q place) : place <:+ "x = 1\n".toList := by
  cases h with
  | header h hread hplace =>
    rcases suffix_of_reaches h with rfl | hcs
    · cases hread
    · have hcs := (Toml.skipBlanks_suffix _).trans hcs
      rcases hplace with hplace | hplace
      · exact Toml.suffix_of_cons_suffix (hplace ▸ hcs)
      · exact Toml.suffix_of_cons_suffix (Toml.suffix_of_cons_suffix (hplace ▸ hcs))
  | pair h hread hin =>
    rcases suffix_of_reaches h with rfl | hcs
    · cases hread
    · exact hin.suffix.trans ((Toml.skipBlanks_suffix _).trans hcs)

end Sample

open Sample

/-- A misspelt key stands out on its line. -/
theorem warnings_locate_sample :
    load (directory misspelt) file =
        .ok (.standard, [⟨"polling.interval_sec", file, some 2, some "interval_secs"⟩]) ∧
      Unknown misspeltDoc ["polling", "interval_sec"] ∧
      WrittenOn misspelt ["polling", "interval_sec"] 2 := by
  obtain ⟨content, doc, hcontent, hdoc, -, -, hlines⟩ := warnings_locate load_misspelt
  rw [readText_directory] at hcontent
  cases hcontent
  rw [parse?_misspelt] at hdoc
  cases hdoc
  have hunknown : Unknown misspeltDoc ["polling", "interval_sec"] :=
    .inSection List.mem_cons_self rfl rfl List.mem_cons_self (by decide)
  exact ⟨load_misspelt, hunknown, ((hlines _ hunknown).2 2 standsOut_misspelt).2⟩

/-- The line that a warning gives is one of a comment. -/
theorem warning_strays :
    load (directory commented) file = .ok (.standard, [⟨"x", file, some 1, none⟩]) ∧
      ¬WrittenOn commented ["x"] 1 := by
  refine ⟨load_commented, ?_⟩
  rintro ⟨before, place, htext, hat, hline⟩
  obtain ⟨start, hstart⟩ := suffix_of_keyAt hat
  have hbefore : before = "# x\n".toList ++ start := by
    have htext' : before ++ place = ("# x\n".toList ++ start) ++ place := by
      rw [← htext, List.append_assoc, hstart]
      rfl
    exact List.append_cancel_right htext'
  rw [hbefore, List.count_append] at hline
  have hcount : "# x\n".toList.count '\n' = 1 := rfl
  omega

end Rollout.Config
