import Rollout.Proofs.Text.Lines
import Rollout.Proofs.Toml.Suffix

/-!
Where the keys of a document are written. A place is the text from there to the end of the
document. A header writes its key and what the key goes through, and so does a pair of a key and
a value, under the name of the table that is open; the pairs of an inline table stand within the
value of its key. Whatever key a table of the document has, it is written somewhere, and no table
has a key twice.
-/

namespace Rollout.Toml

/-! ## Places -/

/-- The place of a later pair of an inline table, from the place of one. -/
inductive Pairs : List Char → List Char → Prop
  | first (cs : List Char) : Pairs cs cs
  | next {cs cs' rest rest' rest'' : List Char} {path : List String} {key : String}
      {fuel depth : Nat} {v : Toml} (hkey : readKey cs = some (path, key, '=' :: rest))
      (hvalue : readValue fuel depth (skipBlanks rest) = some (v, rest'))
      (hcomma : skipBlanks rest' = ',' :: rest'') (hnext : Pairs rest'' cs') : Pairs cs cs'

/-- A key of the pair at a place, or of an inline table that is its value, with the place where
the key is written. -/
inductive KeyIn : List String → List Char → List Char → Prop
  | here {cs rest : List Char} {path q : List String} {key : String}
      (hkey : readKey cs = some (path, key, rest)) (hq : q ≠ []) (hpath : q <+: path ++ [key]) :
      KeyIn q cs cs
  | within {cs rest rest' cs' place : List Char} {path q : List String} {key : String}
      (hkey : readKey cs = some (path, key, '=' :: rest)) (hopen : skipBlanks rest = '{' :: rest')
      (hpairs : Pairs (skipBlanks rest') cs') (hin : KeyIn q cs' place) :
      KeyIn (path ++ [key] ++ q) cs place

/-- The name of the open table. -/
def Reading.table (r : Reading) : List String :=
  match r.name with
  | none => []
  | some (path, key) => path ++ [key]

/-- The reader of a text comes to a line of it, with what it has read so far. -/
inductive Reaches (text : String) : Reading → List Char → Prop
  | start : Reaches text .start (dropMark text.toList)
  | comment {r : Reading} {cs rest more : List Char} (h : Reaches text r cs)
      (hmark : skipBlanks cs = '#' :: more) (hend : endLine? ('#' :: more) = some rest) :
      Reaches text r rest
  | blank {r : Reading} {cs rest : List Char} (h : Reaches text r cs)
      (hbreak : afterBreak? (skipBlanks cs) = some rest) : Reaches text r rest
  | header {r r' : Reading} {cs rest : List Char} (h : Reaches text r cs)
      (hread : readHeader (skipBlanks cs) r = some (r', rest)) : Reaches text r' rest
  | pair {r r' : Reading} {cs rest : List Char} (h : Reaches text r cs)
      (hread : readPair (skipBlanks cs) r = some (r', rest)) : Reaches text r' rest

/-- A key of the document, by the names that lead to it, and a place where it is written. -/
inductive KeyAt (text : String) : List String → List Char → Prop
  | header {r r' : Reading} {cs rest after place : List Char} {path q : List String} {key : String}
      (h : Reaches text r cs) (hread : readHeader (skipBlanks cs) r = some (r', rest))
      (hplace : skipBlanks cs = '[' :: place ∨ skipBlanks cs = '[' :: '[' :: place)
      (hkey : readKey place = some (path, key, after)) (hq : q ≠ []) (hpath : q <+: path ++ [key]) :
      KeyAt text q place
  | pair {r r' : Reading} {cs rest place : List Char} {q : List String} (h : Reaches text r cs)
      (hread : readPair (skipBlanks cs) r = some (r', rest)) (hin : KeyIn q (skipBlanks cs) place) :
      KeyAt text (r.table ++ q) place

theorem Pairs.suffix {cs cs' : List Char} (h : Pairs cs cs') : cs' <:+ cs := by
  induction h with
  | first cs => exact List.suffix_rfl
  | next hkey hvalue hcomma hnext ih =>
    have hrest' := (skipBlanks_suffix _).trans ((readValue_suffix hvalue).trans
      ((skipBlanks_suffix _).trans (suffix_of_cons_suffix (readKey_suffix hkey))))
    exact ih.trans (suffix_of_cons_suffix (hcomma ▸ hrest'))

theorem KeyIn.suffix {q : List String} {cs place : List Char} (h : KeyIn q cs place) :
    place <:+ cs := by
  induction h with
  | here => exact List.suffix_rfl
  | within hkey hopen hpairs _ ih =>
    have hrest := (skipBlanks_suffix _).trans (suffix_of_cons_suffix (readKey_suffix hkey))
    exact ih.trans (hpairs.suffix.trans ((skipBlanks_suffix _).trans
      (suffix_of_cons_suffix (hopen ▸ hrest))))

theorem Reaches.suffix {text : String} {r : Reading} {cs : List Char} (h : Reaches text r cs) :
    cs <:+ text.toList := by
  induction h with
  | start =>
    cases text.toList with
    | nil => exact List.suffix_rfl
    | cons c cs =>
      rw [dropMark]
      split
      · exact List.suffix_cons _ _
      · exact List.suffix_rfl
  | comment _ hmark hend ih =>
    exact (endLine?_suffix hend).trans (hmark ▸ (skipBlanks_suffix _).trans ih)
  | blank _ hbreak ih => exact (afterBreak?_suffix hbreak).trans ((skipBlanks_suffix _).trans ih)
  | header _ hread ih => exact (readHeader_suffix hread).trans ((skipBlanks_suffix _).trans ih)
  | pair _ hread ih => exact (readPair_suffix hread).trans ((skipBlanks_suffix _).trans ih)

theorem KeyAt.suffix {text : String} {q : List String} {place : List Char}
    (h : KeyAt text q place) : place <:+ text.toList := by
  cases h with
  | header h _ hplace =>
    have hcs := (skipBlanks_suffix _).trans h.suffix
    rcases hplace with hplace | hplace
    · exact suffix_of_cons_suffix (hplace ▸ hcs)
    · exact suffix_of_cons_suffix (suffix_of_cons_suffix (hplace ▸ hcs))
  | pair h _ hin => exact hin.suffix.trans ((skipBlanks_suffix _).trans h.suffix)

/-! ## Lines -/

theorem KeyIn.ne_nil {q : List String} {cs place : List Char} (h : KeyIn q cs place) : q ≠ [] := by
  cases h with
  | here _ hq => exact hq
  | within => simp

/-- At its place a key is read as the last of some names, or goes on to later ones. -/
theorem KeyIn.exists_readKey {q : List String} {cs place : List Char} (h : KeyIn q cs place) :
    ∃ path key rest, readKey place = some (path, key, rest) ∧
      ∀ name, q.getLast? = some name → name ∈ path ++ [key] := by
  induction h with
  | here hkey _ hpath =>
    exact ⟨_, _, _, hkey, fun name hname => hpath.subset (List.mem_of_getLast? hname)⟩
  | within _ _ _ hin ih =>
    obtain ⟨path, key, rest, hkey, hlast⟩ := ih
    refine ⟨path, key, rest, hkey, fun name hname => hlast name ?_⟩
    rwa [List.getLast?_append_of_ne_nil _ hin.ne_nil] at hname

theorem KeyAt.exists_readKey {text : String} {q : List String} {place : List Char}
    (h : KeyAt text q place) : ∃ path key rest, readKey place = some (path, key, rest) ∧
      ∀ name, q.getLast? = some name → name ∈ path ++ [key] := by
  cases h with
  | header _ _ _ hkey _ hpath =>
    exact ⟨_, _, _, hkey, fun name hname => hpath.subset (List.mem_of_getLast? hname)⟩
  | pair _ _ hin =>
    obtain ⟨path, key, rest, hkey, hlast⟩ := hin.exists_readKey
    refine ⟨path, key, rest, hkey, fun name hname => hlast name ?_⟩
    rwa [List.getLast?_append_of_ne_nil _ hin.ne_nil] at hname

/-- A key is written on a line of a text; the first line has the number one. -/
def WrittenOn (text : String) (q : List String) (n : Nat) : Prop :=
  ∃ before place, text.toList = before ++ place ∧ KeyAt text q place ∧ n = before.count '\n' + 1

/-- A key is written on a line as it is: no name of it has an escape there. -/
def VerbatimOn (text : String) (q : List String) (n : Nat) : Prop :=
  ∃ before word rest path key, text.toList = before ++ (word ++ rest) ∧
    KeyAt text q (word ++ rest) ∧ readKey (word ++ rest) = some (path, key, rest) ∧
    '\\' ∉ word ∧ n = before.count '\n' + 1

theorem KeyAt.exists_writtenOn {text : String} {q : List String} {place : List Char}
    (h : KeyAt text q place) : ∃ n, WrittenOn text q n := by
  obtain ⟨before, hbefore⟩ := h.suffix
  exact ⟨_, before, place, hbefore.symm, h, rfl⟩

theorem VerbatimOn.writtenOn {text : String} {q : List String} {n : Nat}
    (h : VerbatimOn text q n) : WrittenOn text q n := by
  obtain ⟨before, word, rest, _, _, htext, hat, -, -, hn⟩ := h
  exact ⟨before, word ++ rest, htext, hat, hn⟩

/-- The line that a key is written on as it is holds its last name. -/
theorem VerbatimOn.exists_line {text : String} {q : List String} {n : Nat} {name : String}
    (h : VerbatimOn text q n) (hname : q.getLast? = some name) :
    ∃ line, (Text.lines text)[n - 1]? = some line ∧ name.toList <:+: line.toList := by
  obtain ⟨before, word, rest, path, key, htext, hat, hkey, hback, rfl⟩ := h
  obtain ⟨path', key', rest', hkey', hlast⟩ := hat.exists_readKey
  obtain ⟨word', hword', htext'⟩ := exists_text_of_readKey hkey
  obtain rfl : word = word' := List.append_cancel_right hword'
  rw [hkey] at hkey'
  cases hkey'
  obtain ⟨line, hline, hinfix⟩ := Text.exists_line htext htext'.nonempty htext'.oneLine
  exact ⟨line, hline, (htext'.verbatim hback name (hlast name hname)).trans hinfix⟩

/-! ## Located tables -/

/-- If a value is a table, then it and the tables in it have no key twice, and all their keys, each
by the names that lead to it, are as `W` demands. -/
inductive LocatedValue (W : List String → Prop) : List String → Toml → Prop
  | table {base : List String} {members : List (String × Toml)}
      (hnodup : (members.map (·.1)).Nodup) (hkeys : ∀ e ∈ members, W (base ++ [e.1]))
      (hvalues : ∀ e ∈ members, LocatedValue W (base ++ [e.1]) e.2) :
      LocatedValue W base (.table members)
  | plain {base : List String} {v : Toml} (h : ∀ members, v ≠ .table members) :
      LocatedValue W base v

/-- `LocatedValue` for what a key of an unfinished table stands for. -/
inductive LocatedNode (W : List String → Prop) : List String → Node → Prop
  | value {base : List String} {v : Toml} (h : LocatedValue W base v) :
      LocatedNode W base (.value v)
  | table {base : List String} {implicit dotted : Bool} {members : Members}
      (hnodup : (members.map (·.1)).Nodup) (hkeys : ∀ e ∈ members, W (base ++ [e.1]))
      (hnodes : ∀ e ∈ members, LocatedNode W (base ++ [e.1]) e.2) :
      LocatedNode W base (.table implicit dotted members)
  | tables {base : List String} {items : List Members}
      (hnodup : ∀ members ∈ items, (members.map (·.1)).Nodup)
      (hkeys : ∀ members ∈ items, ∀ e ∈ members, W (base ++ [e.1]))
      (hnodes : ∀ members ∈ items, ∀ e ∈ members, LocatedNode W (base ++ [e.1]) e.2) :
      LocatedNode W base (.tables items)

/-- `LocatedNode` for the members of a table. -/
structure Located (W : List String → Prop) (base : List String) (members : Members) : Prop where
  nodup : (members.map (·.1)).Nodup
  keys : ∀ e ∈ members, W (base ++ [e.1])
  nodes : ∀ e ∈ members, LocatedNode W (base ++ [e.1]) e.2

variable {W : List String → Prop} {base path : List String} {key : String} {n : Node}
  {members inner : Members}

theorem locatedNode_table {implicit dotted : Bool} :
    LocatedNode W base (.table implicit dotted members) ↔ Located W base members := by
  constructor
  · rintro (_ | ⟨h, h', h''⟩ | _)
    exact ⟨h, h', h''⟩
  · exact fun h => .table h.nodup h.keys h.nodes

theorem locatedNode_tables {items : List Members} :
    LocatedNode W base (.tables items) ↔ ∀ members ∈ items, Located W base members := by
  constructor
  · rintro (_ | _ | ⟨h, h', h''⟩) members hmem
    exact ⟨h members hmem, h' members hmem, h'' members hmem⟩
  · exact fun h => .tables (fun m hm => (h m hm).nodup) (fun m hm => (h m hm).keys)
      fun m hm => (h m hm).nodes

namespace Located

theorem nil : Located W base [] := ⟨List.nodup_nil, by simp, by simp⟩

theorem mem_of_find? (h : find? key members = some n) : (key, n) ∈ members := by
  induction members with
  | nil => cases h
  | cons m members ih =>
    obtain ⟨k, m⟩ := m
    rw [find?] at h
    split at h
    · rename_i hk
      cases h
      exact hk ▸ List.mem_cons_self
    · exact List.mem_cons_of_mem _ (ih h)

theorem find? (h : Located W base members) (hfind : Toml.find? key members = some n) :
    LocatedNode W (base ++ [key]) n :=
  h.nodes _ (mem_of_find? hfind)

theorem mem_assign {e : String × Node} (h : e ∈ assign key n members) :
    e = (key, n) ∨ e ∈ members := by
  induction members with
  | nil => exact .inl (List.mem_singleton.1 h)
  | cons m members ih =>
    obtain ⟨k, m⟩ := m
    rw [Toml.assign] at h
    split at h
    · exact (List.mem_cons.1 h).imp_right (List.mem_cons_of_mem _)
    · rcases List.mem_cons.1 h with rfl | h
      · exact .inr List.mem_cons_self
      · exact (ih h).imp_right (List.mem_cons_of_mem _)

theorem nodup_assign (h : (members.map (·.1)).Nodup) :
    ((assign key n members).map (·.1)).Nodup := by
  induction members with
  | nil => simp [Toml.assign]
  | cons m members ih =>
    obtain ⟨k, m⟩ := m
    rw [List.map_cons, List.nodup_cons] at h
    rw [Toml.assign]
    split
    · rename_i hk
      rw [List.map_cons, List.nodup_cons]
      exact hk ▸ h
    · rename_i hk
      rw [List.map_cons, List.nodup_cons]
      refine ⟨fun hmem => ?_, ih h.2⟩
      obtain ⟨e, he, hek⟩ := List.mem_map.1 hmem
      rcases mem_assign he with rfl | he
      · exact hk hek.symm
      · exact h.1 (hek ▸ List.mem_map_of_mem he)

theorem assign (h : Located W base members) (hkey : W (base ++ [key]))
    (hn : LocatedNode W (base ++ [key]) n) : Located W base (assign key n members) where
  nodup := nodup_assign h.nodup
  keys e he := by
    rcases mem_assign he with rfl | he
    · exact hkey
    · exact h.keys e he
  nodes e he := by
    rcases mem_assign he with rfl | he
    · exact hn
    · exact h.nodes e he

theorem without (h : Located W base members) (key : String) :
    Located W base (without key members) where
  nodup := h.nodup.sublist (List.filter_sublist.map _)
  keys e he := h.keys e (List.mem_filter.1 he).1
  nodes e he := h.nodes e (List.mem_filter.1 he).1

/-- A change of the table that a path leads to, if the change keeps that table located. -/
theorem descend {byKey dotted : Bool} {change : Bool → Members → Option Members}
    (hchange : ∀ d inner inner', change d inner = some inner' →
      Located W (base ++ path) inner → Located W (base ++ path) inner')
    (hpath : ∀ q, q ≠ [] → q <+: path → W (base ++ q)) (h : Located W base members)
    (hdescend : descend byKey change path dotted members = some inner) :
    Located W base inner := by
  induction path generalizing base dotted members inner with
  | nil => exact List.append_nil base ▸ hchange _ _ _ hdescend (by rwa [List.append_nil])
  | cons name names ih =>
    have hname : W (base ++ [name]) := hpath [name] (by simp) (by simp)
    have hstep {d : Bool} {m m' : Members} (hm : Located W (base ++ [name]) m)
        (hd : Toml.descend byKey change names d m = some m') : Located W (base ++ [name]) m' := by
      refine ih (fun d inner inner' hc hl => ?_) (fun q hq hstart => ?_) hm hd
      · rw [List.append_assoc] at hl ⊢
        exact hchange d inner inner' hc hl
      · rw [List.append_assoc]
        exact hpath (name :: q) (by simp) (List.cons_prefix_cons.2 ⟨rfl, hstart⟩)
    rw [Toml.descend] at hdescend
    split at hdescend
    · obtain ⟨m, hm, rfl⟩ := Option.map_eq_some_iff.1 hdescend
      exact h.assign hname (locatedNode_table.2 (hstep nil hm))
    · cases hdescend
    · rename_i hfind
      split at hdescend
      · cases hdescend
      · obtain ⟨m, hm, rfl⟩ := Option.map_eq_some_iff.1 hdescend
        exact h.assign hname
          (locatedNode_table.2 (hstep (locatedNode_table.1 (h.find? hfind)) hm))
    · rename_i items hfind
      have hitems := locatedNode_tables.1 (h.find? hfind)
      split at hdescend
      · cases hdescend
      · rename_i last before hrev
        obtain ⟨m, hm, rfl⟩ := Option.map_eq_some_iff.1 hdescend
        have hmem {x : Members} (hx : x ∈ last :: before) : x ∈ items := by
          rwa [← hrev, List.mem_reverse] at hx
        refine h.assign hname (locatedNode_tables.2 fun x hx => ?_)
        rcases List.mem_append.1 hx with hx | hx
        · exact hitems x (hmem (List.mem_cons_of_mem _ (List.mem_reverse.1 hx)))
        · rw [List.mem_singleton.1 hx]
          exact hstep (hitems last (hmem List.mem_cons_self)) hm

/-- Adding a value under a dotted key. -/
theorem addValue {v : Toml} (h : Located W base members)
    (hpath : ∀ q, q ≠ [] → q <+: path ++ [key] → W (base ++ q))
    (hv : LocatedValue W (base ++ (path ++ [key])) v)
    (hadd : addValue path key v members = some inner) : Located W base inner := by
  refine descend (fun d m m' hc hm => ?_) (fun q hq hstart => ?_) h hadd
  · split at hc
    · cases hc
    · split at hc
      · cases hc
      · cases hc
        refine hm.assign ?_ (.value ?_)
        · rw [List.append_assoc]
          exact hpath _ (by simp) List.prefix_rfl
        · rwa [List.append_assoc]
  · exact hpath q hq (hstart.trans (List.prefix_append _ _))

end Located

theorem finishMembers_eq_map (members : Members) :
    finishMembers members = members.map fun e => (e.1, e.2.finish) := by
  induction members with
  | nil => rfl
  | cons e rest ih =>
    obtain ⟨k, n⟩ := e
    rw [finishMembers, ih, List.map_cons]

theorem locatedValue_finishMembers (hnodup : (members.map (·.1)).Nodup)
    (hkeys : ∀ e ∈ members, W (base ++ [e.1]))
    (hvalues : ∀ e ∈ members, LocatedValue W (base ++ [e.1]) e.2.finish) :
    LocatedValue W base (.table (finishMembers members)) := by
  rw [finishMembers_eq_map]
  refine .table ?_ ?_ ?_
  · rwa [List.map_map]
  · simpa only [List.forall_mem_map] using hkeys
  · simpa only [List.forall_mem_map] using hvalues

theorem LocatedNode.finish (h : LocatedNode W base n) : LocatedValue W base n.finish := by
  induction h with
  | value h => exact h
  | table hnodup hkeys _ ih =>
    rw [Node.finish]
    exact locatedValue_finishMembers hnodup hkeys ih
  | tables => exact .plain fun members => by simp [Node.finish]

theorem Located.finish (h : Located W base members) :
    LocatedValue W base (.table (finishMembers members)) :=
  locatedValue_finishMembers h.nodup h.keys fun e he => (h.nodes e he).finish

/-! ## Values -/

theorem scalar?_ne_table (word : List Char) (members : List (String × Toml)) :
    scalar? word ≠ some (.table members) := by
  unfold scalar?
  repeat' split
  all_goals simp

mutual

/-- The keys of an inline table are written in it. -/
theorem locatedValue_of_readValue {fuel depth : Nat} {cs rest : List Char} {base : List String}
    {v : Toml} (hread : readValue fuel depth cs = some (v, rest))
    (hW : ∀ q rest' cs' place, cs = '{' :: rest' → Pairs (skipBlanks rest') cs' →
      KeyIn q cs' place → W (base ++ q)) : LocatedValue W base v := by
  cases fuel with
  | zero => cases hread
  | succ fuel =>
    rw [readValue.eq_def] at hread
    dsimp only at hread
    split at hread
    · cases hread
    · split at hread
      · cases hread
      · obtain ⟨⟨items, rest'⟩, -, heq⟩ := Option.map_eq_some_iff.1 hread
        cases heq
        exact .plain fun _ h => by cases h
    · split at hread
      · cases hread
      · split at hread
        · cases hread
          exact Located.finish Located.nil
        · obtain ⟨⟨members, rest'⟩, hpairs, heq⟩ := Option.map_eq_some_iff.1 hread
          cases heq
          exact (located_of_readPairs hpairs Located.nil fun q cs' place hp hin =>
            hW q _ cs' place rfl hp hin).finish
    · split at hread
      · obtain ⟨⟨text, rest'⟩, -, heq⟩ := Option.map_eq_some_iff.1 hread
        cases heq
        exact .plain fun _ h => by cases h
      · obtain ⟨v', hscalar, heq⟩ := Option.map_eq_some_iff.1 hread
        cases heq
        exact .plain fun members hv => scalar?_ne_table _ members (hv ▸ hscalar)

/-- The pairs of an inline table add the keys that they write. -/
theorem located_of_readPairs {fuel depth : Nat} {cs rest : List Char} {base : List String}
    {members members' : Members} (hread : readPairs fuel depth members cs = some (members', rest))
    (h : Located W base members)
    (hW : ∀ q cs' place, Pairs cs cs' → KeyIn q cs' place → W (base ++ q)) :
    Located W base members' := by
  cases fuel with
  | zero => cases hread
  | succ fuel =>
    rw [readPairs] at hread
    obtain ⟨⟨path, key, more⟩, hkey, hread⟩ := Option.bind_eq_some_iff.1 hread
    dsimp only at hread
    split at hread
    · obtain ⟨⟨v, more'⟩, hvalue, hread⟩ := Option.bind_eq_some_iff.1 hread
      obtain ⟨members'', hadd, hread⟩ := Option.bind_eq_some_iff.1 hread
      have hlocated : Located W base members'' := by
        refine h.addValue (fun q hq hstart => hW q _ _ (.first _) (.here hkey hq hstart))
          (locatedValue_of_readValue hvalue fun q rest' cs' place hopen hp hin => ?_) hadd
        rw [List.append_assoc]
        exact hW _ _ _ (.first _) (.within hkey hopen hp hin)
      dsimp only at hread
      split at hread
      · cases hread
        exact hlocated
      · rename_i hcomma
        exact located_of_readPairs hread hlocated fun q cs' place hp hin =>
          hW q cs' place (.next hkey hvalue hcomma hp) hin
      · cases hread
    · cases hread

end

/-! ## Documents -/

variable {r r' : Reading}

/-- The finished tables of a reading and its open one are located. -/
structure LocatedReading (W : List String → Prop) (r : Reading) : Prop where
  root : Located W [] r.root
  current : Located W r.table r.current
  table : ∀ q, q ≠ [] → q <+: r.table → W q

namespace LocatedReading

theorem start : LocatedReading W .start :=
  ⟨.nil, .nil, fun _ hq hstart => absurd (List.prefix_nil.1 hstart) hq⟩

theorem close {root : Members} (h : LocatedReading W r) (hclose : r.close = some root) :
    Located W [] root := by
  obtain ⟨oldRoot, current, name, ofArray⟩ := r
  obtain ⟨hroot, hcurrent, htable⟩ := h
  match name with
  | none =>
    cases hclose
    exact hcurrent
  | some (path, key) =>
    have hkey : W ([] ++ path ++ [key]) := htable _ (by simp) List.prefix_rfl
    refine Located.descend (fun _ inner inner' hc hinner => ?_) (fun q hq hstart => ?_) hroot hclose
    · split at hc
      · split at hc
        · rename_i items hfind
          cases hc
          refine hinner.assign hkey (locatedNode_tables.2 fun m hm => ?_)
          rcases List.mem_append.1 hm with hm | hm
          · exact locatedNode_tables.1 (hinner.find? hfind) m hm
          · exact List.mem_singleton.1 hm ▸ hcurrent
        · cases hc
        · cases hc
          refine hinner.assign hkey (locatedNode_tables.2 fun m hm => ?_)
          exact List.mem_singleton.1 hm ▸ hcurrent
      · cases hc
        exact hinner.assign hkey (locatedNode_table.2 hcurrent)
    · exact htable q hq (hstart.trans (List.prefix_append _ _))

theorem contentAt {content : Members → Option Members} {names : List String}
    (hcontent : ∀ inner inner', content inner = some inner' →
      Located W (base ++ path) inner → Located W names inner')
    (h : Located W base members)
    (hat : Reading.openTable.contentAt content path members = some inner) :
    Located W names inner := by
  induction path generalizing base members with
  | nil => exact hcontent _ _ hat (by rwa [List.append_nil])
  | cons name path ih =>
    have hstep {m : Members} (hm : Located W (base ++ [name]) m)
        (hat : Reading.openTable.contentAt content path m = some inner) :
        Located W names inner := by
      refine ih (fun inner inner' hc hl => ?_) hm hat
      rw [List.append_assoc] at hl
      exact hcontent inner inner' hc hl
    rw [Reading.openTable.contentAt] at hat
    split at hat
    · rename_i hfind
      exact hstep (locatedNode_table.1 (h.find? hfind)) hat
    · rename_i items hfind
      split at hat
      · rename_i last hlast
        exact hstep (locatedNode_tables.1 (h.find? hfind) last (List.mem_of_getLast? hlast)) hat
      · cases hat
    · cases hat

theorem openTable (h : LocatedReading W r) (hopen : r.openTable path key = some r')
    (hpath : ∀ q, q ≠ [] → q <+: path ++ [key] → W q) : LocatedReading W r' := by
  simp only [Reading.openTable, Option.bind_eq_bind, Option.pure_def,
    Option.bind_eq_some_iff] at hopen
  obtain ⟨root, hclose, root', hroot', current, hcurrent, root'', hroot'', heq⟩ := hopen
  cases heq
  have hroot := h.close hclose
  have hstart : ∀ q, q ≠ [] → q <+: path → W ([] ++ q) := fun q hq hq' =>
    hpath q hq (hq'.trans (List.prefix_append _ _))
  have hlocated : Located W [] root' := by
    refine Located.descend (fun _ inner inner' hc hinner => ?_) hstart hroot hroot'
    obtain ⟨_, -, rfl⟩ := Option.map_eq_some_iff.1 hc
    exact hinner
  refine ⟨?_, ?_, hpath⟩
  · refine Located.descend (fun _ inner inner' hc hinner => ?_) hstart hlocated hroot''
    cases hc
    exact hinner.without key
  · refine contentAt (fun inner inner' hc hinner => ?_) hlocated hcurrent
    split at hc
    · cases hc
      exact .nil
    · rename_i hfind
      cases hc
      exact locatedNode_table.1 (hinner.find? hfind)
    · cases hc

theorem openArrayTable (h : LocatedReading W r) (hopen : r.openArrayTable path key = some r')
    (hpath : ∀ q, q ≠ [] → q <+: path ++ [key] → W q) : LocatedReading W r' := by
  simp only [Reading.openArrayTable, Option.bind_eq_bind, Option.pure_def,
    Option.bind_eq_some_iff] at hopen
  obtain ⟨root, hclose, root', hroot', heq⟩ := hopen
  cases heq
  refine ⟨?_, .nil, hpath⟩
  refine Located.descend (fun _ inner inner' hc hinner => ?_)
    (fun q hq hq' => hpath q hq (hq'.trans (List.prefix_append _ _))) (h.close hclose) hroot'
  split at hc
  · cases hc
    exact hinner.assign (hpath _ (by simp) List.prefix_rfl) (locatedNode_tables.2 (by simp))
  · cases hc
    exact hinner
  · cases hc

theorem readHeader {cs rest : List Char} (h : LocatedReading W r)
    (hread : readHeader cs r = some (r', rest))
    (hW : ∀ q path key place after, cs = '[' :: place ∨ cs = '[' :: '[' :: place →
      readKey place = some (path, key, after) → q ≠ [] → q <+: path ++ [key] → W q) :
    LocatedReading W r' := by
  unfold Toml.readHeader at hread
  split at hread
  · obtain ⟨⟨path, key, more⟩, hkey, hread⟩ := Option.bind_eq_some_iff.1 hread
    dsimp only at hread
    split at hread
    · obtain ⟨_, -, hread⟩ := Option.bind_eq_some_iff.1 hread
      obtain ⟨_, hopen, heq⟩ := Option.map_eq_some_iff.1 hread
      cases heq
      exact h.openArrayTable hopen fun q => hW q _ _ _ _ (.inr rfl) hkey
    · cases hread
  · obtain ⟨⟨path, key, more⟩, hkey, hread⟩ := Option.bind_eq_some_iff.1 hread
    dsimp only at hread
    split at hread
    · obtain ⟨_, -, hread⟩ := Option.bind_eq_some_iff.1 hread
      obtain ⟨_, hopen, heq⟩ := Option.map_eq_some_iff.1 hread
      cases heq
      exact h.openTable hopen fun q => hW q _ _ _ _ (.inl rfl) hkey
    · cases hread
  · cases hread

theorem readPair {cs rest : List Char} (h : LocatedReading W r)
    (hread : readPair cs r = some (r', rest))
    (hW : ∀ q place, KeyIn q cs place → W (r.table ++ q)) : LocatedReading W r' := by
  obtain ⟨⟨path, key, more⟩, hkey, hread⟩ := Option.bind_eq_some_iff.1 hread
  dsimp only at hread
  split at hread
  · obtain ⟨⟨v, _⟩, hvalue, hread⟩ := Option.bind_eq_some_iff.1 hread
    obtain ⟨_, -, hread⟩ := Option.bind_eq_some_iff.1 hread
    obtain ⟨current, hadd, heq⟩ := Option.map_eq_some_iff.1 hread
    cases heq
    refine ⟨h.root, h.current.addValue (fun q hq hstart => hW q _ (.here hkey hq hstart))
      (locatedValue_of_readValue hvalue fun q rest' cs' place hopen hp hin => ?_) hadd, h.table⟩
    rw [List.append_assoc]
    exact hW _ _ (.within hkey hopen hp hin)
  · cases hread

end LocatedReading

/-- Reading on from a line to the end. -/
theorem located_of_readLines {text : String} {fuel : Nat} {cs : List Char} {root : Members}
    (hreaches : Reaches text r cs)
    (h : LocatedReading (fun q => ∃ place, KeyAt text q place) r)
    (hread : readLines fuel r cs = some root) :
    Located (fun q => ∃ place, KeyAt text q place) [] root := by
  induction fuel generalizing r cs with
  | zero => cases hread
  | succ fuel ih =>
    rw [readLines] at hread
    split at hread
    · exact h.close hread
    · rename_i hmark
      obtain ⟨rest, hend, hread⟩ := Option.bind_eq_some_iff.1 hread
      exact ih (.comment hreaches hmark hend) h hread
    · rename_i hopen
      obtain ⟨⟨r', rest⟩, hheader, hread⟩ := Option.bind_eq_some_iff.1 hread
      rw [← hopen] at hheader
      refine ih (.header hreaches hheader) (h.readHeader hheader ?_) hread
      exact fun q path key place after hplace hkey hq hpath =>
        ⟨place, .header hreaches hheader hplace hkey hq hpath⟩
    · rename_i hline
      split at hread
      · rename_i hbreak
        exact ih (.blank hreaches (hline ▸ hbreak)) h hread
      · obtain ⟨⟨r', rest⟩, hpair, hread⟩ := Option.bind_eq_some_iff.1 hread
        rw [← hline] at hpair
        refine ih (.pair hreaches hpair) (h.readPair hpair ?_) hread
        exact fun q place hin => ⟨place, .pair hreaches hpair hin⟩

/-- In a document no table has a key twice, and every key of a table is written somewhere. -/
theorem located_of_parse? {text : String} {doc : List (String × Toml)}
    (h : parse? text = some doc) :
    LocatedValue (fun q => ∃ place, KeyAt text q place) [] (.table doc) := by
  obtain ⟨root, hread, rfl⟩ := Option.map_eq_some_iff.1 h
  exact (located_of_readLines .start .start hread).finish

end Rollout.Toml
