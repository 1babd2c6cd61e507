import Rollout.Proofs.TextMap
import Rollout.Proofs.Toml.Lines
import Rollout.Record.Format

/-!
Records are read back from their text, whatever their versions and entry points are called.
-/

namespace Rollout.Record

open Toml

variable {r : Record} {d : Deployed} {fs done : TextMap Deployed} {reading : Reading}
  {rest : List Char} {out : Option Members} {entryPoint : String}

/-! ## Lines -/

theorem head?_valueText (value : String) :
    ∃ c more, valueText value = c :: more ∧ isBlankChar c = false := by
  obtain ⟨c, more, hquoted, hc⟩ := head?_quoted (quotingOfValue value.toList) value.toList
  refine ⟨c, more, hquoted, ?_⟩
  rcases hc with rfl | rfl <;> rfl

/-- A line gives its string to its key. -/
theorem reads_stringLine {key value : String} {c : Char} {more : List Char}
    (hkey : keyText key = key.toList) (hmore : key.toList = c :: more)
    (hbare : isBareKeyChar c = true) (hnew : find? key reading.current = none)
    (h : Reads { reading with current := reading.current ++ [(key, .value (.str value))] } rest out) :
    Reads reading (stringLine key value ++ rest) out := by
  obtain ⟨d, text, htext, hd⟩ := head?_valueText value
  have hline : stringLine key value ++ rest =
      keyText key ++ ' ' :: '=' :: ' ' :: (valueText value ++ '\n' :: rest) := by
    simp [stringLine, hkey]
  have hpair : readPair (keyText key ++ ' ' :: '=' :: ' ' :: (valueText value ++ '\n' :: rest))
      reading =
        some ({ reading with current := assign key (.value (.str value)) reading.current }, rest) :=
    readPair_eq (fun fuel => readValue_valueText value fuel depthLimit (by simp)
        (by simp [singleQuote]))
      (by rw [htext, List.cons_append, skipBlanks_cons hd]) hnew
  rw [hline]
  rw [hkey, hmore, List.cons_append] at hpair ⊢
  rw [assign_of_none hnew] at hpair
  refine Reads.pair hbare hpair ?_ h
  simp only [List.length_append, List.length_cons]
  omega

/-- The members of the table of a function. -/
def tableOf (d : Deployed) : Members :=
  ("version", .value (.str d.version.key)) ::
    match d.hash with
    | some hash => [("hash", .value (.str hash.text))]
    | none => []

/-- The lines in the table of a function. -/
def tableLines (d : Deployed) : List Char :=
  stringLine "version" d.version.key ++
    match d.hash with
    | some hash => stringLine "hash" hash.text
    | none => []

/-- The lines in the table of a function give it its members. -/
theorem reads_tableLines (hempty : reading.current = [])
    (h : Reads { reading with current := tableOf d } rest out) :
    Reads reading (tableLines d ++ rest) out := by
  rw [tableLines, List.append_assoc]
  refine reads_stringLine (by decide) (show "version".toList = 'v' :: "ersion".toList from rfl)
    (by decide) (by rw [hempty]; rfl) ?_
  cases hhash : d.hash with
  | none =>
    simp only [hempty]
    simpa [tableOf, hhash] using h
  | some hash =>
    refine reads_stringLine (by decide) (show "hash".toList = 'h' :: "ash".toList from rfl)
      (by decide) (by rw [hempty]; rfl) ?_
    simp only [hempty]
    simpa [tableOf, hhash] using h

/-! ## Tables -/

variable {top : Members}

/-- The tables of functions. -/
def tablesOf (fs : TextMap Deployed) : Members :=
  fs.map fun e => (e.1, .table false false (tableOf e.2))

/-- A document with the tables of some functions. -/
def rootWith (top : Members) (fs : TextMap Deployed) : Members :=
  top ++ [("functions", .table true false (tablesOf fs))]

/-- A document after the tables of some functions; the first one brings the table of all. -/
def rootOf (top : Members) (fs : TextMap Deployed) : Members :=
  if fs = [] then top else rootWith top fs

theorem tablesOf_concat (fs : TextMap Deployed) (entryPoint : String) (d : Deployed) :
    tablesOf (fs ++ [(entryPoint, d)]) =
      tablesOf fs ++ [(entryPoint, .table false false (tableOf d))] := by
  simp [tablesOf]

theorem find?_tablesOf (h : ∀ e ∈ done, e.1 ≠ entryPoint) :
    find? entryPoint (tablesOf done) = none := by
  induction done with
  | nil => rfl
  | cons e done ih =>
    have hne := h e List.mem_cons_self
    rw [tablesOf, List.map_cons, find?, if_neg hne]
    exact ih fun e he => h e (List.mem_cons_of_mem _ he)

theorem openTable_function (htop : find? "functions" top = none)
    (hclose : reading.close = some (rootOf top done)) (hnew : ∀ e ∈ done, e.1 ≠ entryPoint) :
    reading.openTable ["functions"] entryPoint =
      some ⟨rootWith top done, [], some (["functions"], entryPoint), false⟩ := by
  have hfind := find?_tablesOf hnew
  have hwithout := without_of_none hfind
  simp only [Reading.openTable, hclose, Option.bind_eq_bind, Option.bind_some]
  by_cases hdone : done = []
  · subst hdone
    simp [rootOf, rootWith, descend, htop, assign_of_none htop, Reading.openTable.contentAt,
      find?_append_of_none htop, find?, tablesOf, assign_append_of_none htop, assign, without]
  · simp [rootOf, hdone, rootWith, descend, Reading.openTable.contentAt,
      find?_append_of_none htop, find?, hfind, assign_append_of_none htop, assign, hwithout]

theorem close_function (htop : find? "functions" top = none)
    (hnew : ∀ e ∈ done, e.1 ≠ entryPoint) :
    (⟨rootWith top done, tableOf d, some (["functions"], entryPoint), false⟩ : Reading).close =
      some (rootOf top (done ++ [(entryPoint, d)])) := by
  have hfind := find?_tablesOf hnew
  simp [Reading.close, rootOf, rootWith, descend, find?_append_of_none htop, find?,
    assign_append_of_none htop, assign, assign_of_none hfind, tablesOf_concat]

theorem functionTable_eq (entryPoint : String) (d : Deployed) :
    functionTable entryPoint d = '\n' :: '[' :: (keyText "functions" ++ '.' ::
      (keyText entryPoint ++ ']' :: '\n' :: tableLines d)) := by
  have hkeyText : keyText "functions" = "functions".toList := by decide
  have hopening : "\n[functions.".toList = '\n' :: '[' :: ("functions".toList ++ ['.']) := by
    decide
  unfold functionTable tableLines
  rw [hopening, hkeyText]
  cases d.hash <;> simp only [List.append_assoc, List.cons_append, List.nil_append]

theorem reads_functionTable (htop : find? "functions" top = none)
    (hclose : reading.close = some (rootOf top done)) (hnew : ∀ e ∈ done, e.1 ≠ entryPoint)
    (h : ∀ reading' : Reading, reading'.close = some (rootOf top (done ++ [(entryPoint, d)])) →
      Reads reading' rest out) :
    Reads reading (functionTable entryPoint d ++ rest) out := by
  have hread : Reads ⟨rootWith top done, [], some (["functions"], entryPoint), false⟩
      (tableLines d ++ rest) out :=
    reads_tableLines rfl (h _ (close_function htop hnew))
  have hkey : readKey (keyText "functions" ++ '.' ::
        (keyText entryPoint ++ ']' :: '\n' :: (tableLines d ++ rest))) =
      some (["functions"], entryPoint, skipBlanks (']' :: '\n' :: (tableLines d ++ rest))) :=
    readKey_two "functions" entryPoint (fun c hc => by cases hc; rfl)
      (by simp [skipBlanks, isBlankChar])
  rw [skipBlanks_cons rfl] at hkey
  rw [functionTable_eq]
  simp only [List.cons_append, List.append_assoc]
  refine .emptyLine (.header (readHeader_eq hkey ?_ (openTable_function htop hclose hnew)) ?_ hread)
  · simp [show keyText "functions" = "functions".toList by decide]
  · simp only [List.length_append, List.length_cons]
    omega

/-- The tables of all functions are read, in their order. -/
theorem reads_functionTables (htop : find? "functions" top = none)
    (hclose : reading.close = some (rootOf top done)) (hordered : (done ++ fs).Ordered) :
    Reads reading (fs.flatMap fun e => functionTable e.1 e.2) (some (rootOf top (done ++ fs))) := by
  induction fs generalizing done reading with
  | nil =>
    rw [List.append_nil, ← hclose]
    exact .nil
  | cons e fs ih =>
    have hne : ∀ e' ∈ done, e'.1 ≠ e.1 := by
      intro e' he' heq
      have hbefore := (List.pairwise_append.1 hordered).2.2 e' he' e List.mem_cons_self
      rw [heq, Text.precedes_irrefl] at hbefore
      cases hbefore
    rw [List.flatMap_cons]
    refine reads_functionTable htop hclose hne fun reading' hclose' => ?_
    have hread := ih hclose' (by simpa using hordered)
    simpa using hread

/-- Without functions, the table of all is opened by a line of its own. -/
theorem reads_noTables (htop : find? "functions" top = none)
    (hclose : reading.close = some top) :
    Reads reading (functionTables []) (some (top ++ [("functions", .table false false [])])) := by
  have hopen : reading.openTable [] "functions" = some ⟨top, [], some ([], "functions"), false⟩ := by
    simp [Reading.openTable, hclose, descend, Reading.openTable.contentAt, htop,
      without_of_none htop]
  have hkey : readKey (keyText "functions" ++ [']', '\n']) = some ([], "functions", [']', '\n']) :=
    readKey_keyText "functions" (fun c hc => by cases hc; rfl) (by decide)
  have hlast : (⟨top, [], some ([], "functions"), false⟩ : Reading).close =
      some (top ++ [("functions", .table false false [])]) := by
    simp [Reading.close, descend, assign_of_none htop]
  have htext : functionTables [] = '\n' :: '[' :: (keyText "functions" ++ [']', '\n']) := by decide
  rw [htext, ← hlast]
  exact .emptyLine (.header (readHeader_eq hkey (by decide) hopen) (Nat.zero_le _) .nil)

/-- The members of a record before its tables. -/
def topOf (timestamp : Option String) : Members :=
  ("version", .value (.int 1)) ::
    match timestamp with
    | some timestamp => [("last_compilation_timestamp", .value (.str timestamp))]
    | none => []

/-- The members of a record as a document. -/
def rootOfRecord (r : Record) : Members :=
  topOf r.timestamp ++ [("functions", .table (!r.functions.isEmpty) false (tablesOf r.functions))]

theorem find?_topOf (timestamp : Option String) : find? "functions" (topOf timestamp) = none := by
  cases timestamp <;> simp [topOf, find?]

theorem reads_functions (hordered : fs.Ordered) (htop : find? "functions" top = none)
    (hclose : reading.close = some top) :
    Reads reading (functionTables fs)
      (some (top ++ [("functions", .table (!fs.isEmpty) false (tablesOf fs))])) := by
  cases fs with
  | nil => exact reads_noTables htop hclose
  | cons e fs =>
    have hnone : reading.close = some (rootOf top []) := hclose
    exact reads_functionTables htop hnone hordered

theorem readValue_one (fuel depth : Nat) (rest : List Char) :
    readValue (fuel + 1) depth ('1' :: '\n' :: rest) = some (.int 1, '\n' :: rest) := by
  have hword : readWord ('1' :: '\n' :: rest) = (['1'], '\n' :: rest) := rfl
  have hscalar : scalar? ['1'] = some (.int 1) := rfl
  rw [readValue]
  · rw [if_neg (by decide)]
    simp [hword, hscalar]
  · decide
  · decide

/-- The line with the compilation a record is about, if it is about one. -/
def timestampLine (timestamp : Option String) : List Char :=
  match timestamp with
  | some timestamp => stringLine "last_compilation_timestamp" timestamp
  | none => []

/-- The lines before the tables. -/
theorem reads_top (timestamp : Option String)
    (h : ∀ reading : Reading, reading.close = some (topOf timestamp) → Reads reading rest out) :
    Reads .start ("version = 1\n".toList ++ (timestampLine timestamp ++ rest)) out := by
  have hkey : keyText "version" = 'v' :: "ersion".toList := by decide
  have hopening : "version = 1\n".toList = keyText "version" ++ [' ', '=', ' ', '1', '\n'] := by
    decide
  have hpair : readPair (keyText "version" ++ ' ' :: '=' :: ' ' ::
      (['1'] ++ '\n' :: (timestampLine timestamp ++ rest))) .start =
        some ({ Reading.start with current := [("version", .value (.int 1))] },
          timestampLine timestamp ++ rest) :=
    readPair_eq (fun fuel => readValue_one fuel depthLimit _) (skipBlanks_cons (by decide) _) rfl
  rw [hkey, List.cons_append] at hpair
  rw [hopening, hkey, List.append_assoc, List.cons_append]
  refine .pair (by decide) hpair ?_ ?_
  · simp only [List.length_append, List.length_cons]
    omega
  · cases timestamp with
    | none => exact h _ rfl
    | some timestamp =>
      exact reads_stringLine (by decide)
        (show "last_compilation_timestamp".toList = 'l' :: "ast_compilation_timestamp".toList
          from rfl)
        (by decide) rfl (h _ rfl)

theorem chars_eq (hformat : r.format = currentFormat) :
    r.chars = "version = 1\n".toList ++ (timestampLine r.timestamp ++ functionTables r.functions) := by
  have hopening : "version = 1\n".toList = "version = ".toList ++ ['1', '\n'] := by decide
  have hdigits : Nat.toDigits 10 r.format = ['1'] := by
    rw [hformat]
    decide
  unfold chars timestampLine
  rw [hdigits, hopening]
  cases r.timestamp <;> simp only [List.append_assoc, List.cons_append, List.nil_append]

/-! ## Reading back -/

theorem deployedOf?_tableOf (d : Deployed) :
    deployedOf? (.table (finishMembers (tableOf d))) = some d := by
  obtain ⟨version, hash⟩ := d
  cases hash with
  | none =>
    simp [tableOf, finishMembers, Node.finish, deployedOf?, member?, stringOf?, missingOrString?,
      deployedOf]
  | some hash =>
    simp [tableOf, finishMembers, Node.finish, deployedOf?, member?, stringOf?, missingOrString?,
      deployedOf, ContentHash.ofText_text]

theorem functionsOf_tablesOf (h : fs.Ordered) :
    functionsOf (finishMembers (tablesOf fs)) = some fs := by
  induction fs with
  | nil => rfl
  | cons e fs ih =>
    have hinsert : TextMap.insert e.1 e.2 fs = e :: fs := by
      cases fs with
      | nil => rfl
      | cons e' fs =>
        have hbefore := List.rel_of_pairwise_cons h List.mem_cons_self
        have hne : e'.1 ≠ e.1 := by
          intro heq
          rw [heq, Text.precedes_irrefl] at hbefore
          cases hbefore
        simp [TextMap.insert, hne, hbefore]
    have ih := ih h.tail
    simp only [tablesOf] at ih
    simp [tablesOf, finishMembers, Node.finish, functionsOf, deployedOf?_tableOf, ih, hinsert]

theorem ofMembers?_rootOfRecord (hformat : r.format = currentFormat) (h : r.functions.Ordered) :
    ofMembers? (finishMembers (rootOfRecord r)) = some r := by
  obtain ⟨format, timestamp, functions⟩ := r
  subst hformat
  have hone : formatOf? (.int 1) = some currentFormat := by decide
  have hfunctions := functionsOf_tablesOf h
  cases timestamp <;>
    simp [rootOfRecord, topOf, finishMembers, Node.finish, ofMembers?, member?, hone, stringOf?,
      missingOrString?, functionsOf?, hfunctions]

/-- What is written of a record is read back. -/
theorem parse_text (hformat : r.format = currentFormat) (h : r.functions.Ordered) :
    parse r.text = .ok r := by
  have hreads : Reads .start r.chars (some (rootOfRecord r)) := by
    rw [chars_eq hformat]
    exact reads_top r.timestamp fun reading hclose =>
      reads_functions h (find?_topOf r.timestamp) hclose
  have hmark : dropMark r.chars = r.chars := by
    rw [chars_eq hformat]
    rfl
  have hparse : Toml.parse? r.text = some (finishMembers (rootOfRecord r)) := by
    simp only [Toml.parse?, text, String.toList_ofList, hmark]
    rw [hreads _ (Nat.lt_succ_self _)]
    rfl
  rw [parse, hparse, Option.bind_some, ofMembers?_rootOfRecord hformat h]
  simp [hformat]

end Rollout.Record
