import Rollout.Proofs.Cloud.StackProvider
import Rollout.Proofs.Record.Format
import Rollout.Record.Store

/-!
Records on disk. What was saved for a stage is what is loaded, saving changes nothing of the
cloud, and nothing that is done to buckets and stacks touches a record: the files of the three
never share a name, wherever their directories lie.
-/

namespace Rollout

open FileTree Outcome Number

namespace RecordStore

variable {s : RecordStore} {t t' : FileTree} {top : Location} {stage : Stage} {rec : Record}
  {S : Location → Prop}

/-! ## Places -/

/-- The record of a stage. -/
def place (s : RecordStore) (work : Location) (stage : Stage) : Location :=
  (s.path stage).place work

/-- The last character of the last name of a location. -/
def lastChar? (l : Location) : Option Char := l.getLast?.bind fun name => name.toList.getLast?

theorem isEntry_records : Path.IsEntry directoryName := ⟨by decide, by decide, by decide⟩

theorem getLast?_append_lock (name : String) : (name ++ ".lock").toList.getLast? = some 'k' := by
  rw [String.toList_append, List.getLast?_append, show ".lock".toList.getLast? = some 'k' by decide]
  rfl

theorem isEntry_lock (stage : Stage) : Path.IsEntry (stage.name ++ ".lock") where
  noSlash := by
    intro hmem
    rw [String.toList_append, List.mem_append] at hmem
    rcases hmem with hmem | hmem
    · exact stage.slash_not_mem hmem
    · exact absurd hmem (by decide)
  isName := StackProvider.isName_of_ending (getLast?_append_lock _) (by decide)
  noStepBack h := by
    have hlast := getLast?_append_lock stage.name
    rw [h] at hlast
    cases hlast

theorem below_record {work : Location} (hs : Within work top s.stateDir) (stage : Stage) :
    Below work top (s.path stage) :=
  ((hs.entry isEntry_records).toWithin).entry (isEntry_lock stage)

theorem lastChar?_place (s : RecordStore) (work : Location) (stage : Stage) :
    lastChar? (s.place work stage) = some 'k' := by
  rw [place, path, (isEntry_lock stage).place_joinText, lastChar?, List.getLast?_concat]
  exact getLast?_append_lock stage.name

theorem not_mem_versionId (n : Nat) : 'k' ∉ (versionId n).toList := by
  have hlist : (versionId n).toList = 'v' :: zeroPadded 12 n := by simp [versionId]
  rw [hlist, List.mem_cons, not_or]
  refine ⟨by decide, fun hmem => ?_⟩
  obtain ⟨-, h2⟩ := isDecimal_of_mem_zeroPadded hmem
  exact absurd h2 (by decide)

/-- A record is no file of a store. -/
theorem not_inStore_place (s : RecordStore) (objects : ObjectStore) (work : Location)
    (stage : Stage) : ¬objects.InStore work (s.place work stage) := by
  have hlast := lastChar?_place s work stage
  rintro ⟨bucket, hl | ⟨n, hl⟩⟩
  · rw [hl, ObjectStore.indexPlace, lastChar?, List.getLast?_concat] at hlast
    exact absurd hlast (by decide)
  · rw [hl, ObjectStore.blobPlace, lastChar?, List.getLast?_append] at hlast
    exact not_mem_versionId n (List.mem_of_getLast? hlast)

/-- A record is no file of a stack. -/
theorem not_inStack_place (s : RecordStore) (p : StackProvider) (work : Location) (stage : Stage)
    (name : String) : ¬p.InStack work name (s.place work stage) := by
  have hlast := lastChar?_place s work stage
  rintro (hl | hl)
  · obtain ⟨start, last, hparts, hn⟩ := StackProvider.parts_stackPath p name
    rw [hl, lastChar?, StackProvider.stackPlace,
      Path.getLast?_place hparts (StackProvider.isName_of_ending hn (by decide)),
      Option.bind_some, hn] at hlast
    cases hlast
  · exact not_inStore_place s p.objects work stage hl

/-! ## Loading and saving -/

/-- The bytes of the record of a stage, where there is one that can be read. -/
def content (s : RecordStore) (t : FileTree) (stage : Stage) : Option ByteArray :=
  (t.read (s.path stage)).toOption

theorem content_eq_some {bytes : ByteArray} :
    s.content t stage = some bytes ↔ t.read (s.path stage) = .ok bytes := by
  unfold content
  cases t.read (s.path stage) <;> simp [Except.toOption]

theorem content_of_touched (ht : t.Tidy top) (ht' : t'.Tidy top)
    (hs : Within t.workDir top s.stateDir) (h : Touched top S t t')
    (hS : ¬S (s.place t.workDir stage)) : s.content t' stage = s.content t stage := by
  refine Option.ext fun bytes => ?_
  rw [content_eq_some, content_eq_some]
  exact h.read_iff ht ht' (below_record hs stage) hS

/-- A record that can be read is loaded from its file. -/
theorem load_of_readText (ht : t.Tidy top) (hs : Within t.workDir top s.stateDir) {text : String}
    (h : t.readText (s.path stage) = .ok text) :
    s.load t stage = (Record.parse text).mapError (errorOf (s.path stage)) := by
  have hbelow := below_record hs stage
  obtain ⟨hu, content, hentry, -⟩ := (readText_eq_ok ht hbelow).1 h
  have hexists : t.exists? (s.path stage) = true :=
    (exists?_eq_true ht.wf ht.free hbelow.near hbelow.file).2 ⟨hu, _, hentry⟩
  simp [load, hexists, h]

theorem save_spec (ht : t.Tidy top) (hs : Within t.workDir top s.stateDir)
    {r : Except RecordError Unit} (hrun : s.save stage rec t = (r, t')) :
    t'.Tidy top ∧ Touched top (· = s.place t.workDir stage) t t' ∧
      (r = .ok () → Usable (s.path stage) ∧
        t'.entry? (s.place t.workDir stage) = some (.file rec.text.toUTF8)) ∧
      ((∃ e, r = .error e) → Touched top (fun _ => False) t t') := by
  simp only [save, Disk.mapError] at hrun
  split at hrun
  · rename_i a t₁ hstep
    cases hrun
    obtain ⟨ht', htouched, hdone, -⟩ := Effect.replace_spec ht (below_record hs stage) hstep
    refine ⟨ht', htouched, fun _ => hdone rfl, fun h => ?_⟩
    obtain ⟨e, he⟩ := h
    cases he
  · rename_i e t₁ hstep
    cases hrun
    obtain ⟨ht', htouched, -, hfailed⟩ := Effect.replace_spec ht (below_record hs stage) hstep
    exact ⟨ht', htouched, fun h => (by cases h), fun _ => hfailed fun h => (by cases h)⟩

/-- Saving a record leaves a store as it is. -/
theorem kept_of_save {objects : ObjectStore} (h : objects.Steady top t) (ht' : t'.Tidy top)
    (htouched : Touched top (· = s.place t.workDir stage) t t') :
    objects.Kept top (· = s.place t.workDir stage) (fun _ _ => False) 0 t t' := by
  refine h.kept_of_beside ht' htouched ?_
  rintro l rfl
  exact not_inStore_place s objects t.workDir stage

/-- What was saved is loaded. -/
theorem load_of_entry (ht : t.Tidy top) (hs : Within t.workDir top s.stateDir)
    (hu : Usable (s.path stage))
    (hentry : t.entry? (s.place t.workDir stage) = some (.file rec.text.toUTF8))
    (hformat : rec.format = Record.currentFormat) (hordered : rec.functions.Ordered) :
    s.load t stage = .ok rec := by
  have hread := (readText_eq_ok ht (below_record hs stage)).2
    ⟨hu, _, hentry, Text.fromUTF8?_toUTF8 _⟩
  rw [load_of_readText ht hs hread, Record.parse_text hformat hordered]
  rfl

end RecordStore

end Rollout
