import Mathlib.Logic.Function.Basic
import Rollout.Files.Lock
import Rollout.Proofs.Files.Pruned
import Rollout.Proofs.Record.Store
import Rollout.Run.World

/-!
The record store as a book of records. Whatever calls are made to it one after another, it loads
for a stage what was saved for it last and not deleted since; calls about one stage make no
difference to another; and the run lock is out of its reach.
-/

namespace Rollout

open FileTree Outcome

/-! ## Calls and the book they make -/

/-- Whether a call is to change the record of a stage. -/
def RecordCall.Changes : RecordCall → Stage → Prop
  | .load _, _ => False
  | .save stage _, other => stage = other
  | .delete stage, other => stage = other

/-- A call to the record store with the answer to it. -/
abbrev RecordExchange : Type := (c : RecordCall) × Except RecordError c.Result

/-- What is recorded of each stage. -/
abbrev RecordBook : Type := Stage → Option Record

namespace RecordBook

/-- The book before anything is recorded. -/
def blank : RecordBook := fun _ => none

/-- The book after a call was answered: a record is in it from when it was saved until it is
deleted. -/
def note (b : RecordBook) : RecordExchange → RecordBook
  | ⟨.save stage r, .ok _⟩ => Function.update b stage (some r)
  | ⟨.delete stage, .ok _⟩ => Function.update b stage none
  | _ => b

/-- The book after some calls. -/
def after (b : RecordBook) (exchanges : List RecordExchange) : RecordBook :=
  exchanges.foldl note b

end RecordBook

namespace RecordStore

/-- The answers to calls made one after another, and the tree they leave. -/
def serve (s : RecordStore) : List RecordCall → FileTree → List RecordExchange × FileTree
  | [], t => ([], t)
  | c :: calls, t =>
    let served := s.serve calls (s.answer c t).2
    (⟨c, (s.answer c t).1⟩ :: served.1, served.2)

variable {s : RecordStore} {t t' u : FileTree} {top spot : Location} {stage other : Stage}
  {rec : Record} {c : RecordCall} {calls : List RecordCall} {b : RecordBook}

/-! ## Single calls -/

theorem place_inj {work : Location} (h : s.place work stage = s.place work other) :
    stage = other := by
  rw [place, place, path, path, (isEntry_lock stage).place_joinText,
    (isEntry_lock other).place_joinText] at h
  have hnames : stage.name ++ ".lock" = other.name ++ ".lock" := by simpa using h
  obtain ⟨name, valid⟩ := stage
  obtain ⟨name', valid'⟩ := other
  obtain rfl : name = name' := by simpa [String.append_right_inj] using hnames
  rfl

theorem not_prefix_dropLast {l : Location} (h : l ≠ []) : ¬l <+: l.dropLast := by
  intro hpre
  have hlength := hpre.length_le
  have hpos := List.length_pos_iff.2 h
  rw [List.length_dropLast] at hlength
  omega

/-- A record does not lie on the way to another. -/
theorem place_not_on_way (work : Location) (h : stage ≠ other) :
    ¬s.place work other <+: s.place work stage := by
  intro hpre
  have hlength : (s.place work other).length = (s.place work stage).length := by
    rw [place, place, path, path, (isEntry_lock stage).place_joinText,
      (isEntry_lock other).place_joinText, List.length_append, List.length_append]
    rfl
  exact h (place_inj (hpre.eq_of_length hlength)).symm

theorem save_confined (ht : t.Tidy top) (hs : Within t.workDir top s.stateDir)
    {r : Except RecordError Unit} (hrun : s.save stage rec t = (r, t')) :
    Confined (s.place t.workDir stage) t t' ∧
      (r ≠ .ok () → Paved (s.place t.workDir stage).dropLast t t') := by
  simp only [save, Disk.mapError] at hrun
  split at hrun
  · rename_i a t₁ hstep
    cases hrun
    exact ⟨(Effect.replace_confined ht (below_record hs stage) hstep).1, fun h => absurd rfl h⟩
  · rename_i e t₁ hstep
    cases hrun
    obtain ⟨hconfined, hpaved⟩ := Effect.replace_confined ht (below_record hs stage) hstep
    exact ⟨hconfined, fun _ => hpaved (by simp)⟩

/-- What deleting the record of a stage comes to. -/
theorem delete_spec (ht : t.Tidy top) (hs : Within t.workDir top s.stateDir)
    {r : Except RecordError Unit} (hrun : s.delete stage t = (r, t')) :
    t'.Tidy top ∧ Confined (s.place t.workDir stage) t t' := by
  have hbelow := below_record hs stage
  simp only [delete, Effect.perform, Disk.step, Disk.mapError] at hrun
  split at hrun
  · rename_i a t₁ hstep
    cases hrun
    split at hstep
    · rename_i t₂ hdiscard
      cases hstep
      split at hdiscard
      · exact ⟨(remove_ok ht hbelow hdiscard).1, remove_confined ht.free hbelow hdiscard⟩
      · cases hdiscard
        exact ⟨ht, .refl ..⟩
    · cases hstep
  · rename_i e t₁ hstep
    cases hrun
    split at hstep
    · cases hstep
    · cases hstep
      exact ⟨ht, .refl ..⟩

/-- Deleting a record takes away its file at most. -/
theorem pruned_delete (ht : t.Tidy top) (hs : Within t.workDir top s.stateDir)
    {r : Except RecordError Unit} (hrun : s.delete stage t = (r, t')) :
    Pruned (· = s.place t.workDir stage) t t' := by
  obtain ⟨r', hdiscard, -⟩ := mapError_eq hrun
  have hbelow := below_record hs stage
  rcases discard_eq ht.free hbelow hdiscard with rfl | rfl
  · exact .refl ..
  · exact pruned_drop hbelow.place_ne_nil

/-- Where nothing stands there is no record. -/
theorem missing_of_absent (ht : t.Tidy top) (hs : Within t.workDir top s.stateDir)
    (h : t.entry? (s.place t.workDir stage) = none) : t.exists? (s.path stage) = false :=
  not_exists_of_absent ht (below_record hs stage) h

theorem load_of_missing (h : t.exists? (s.path stage) = false) : s.load t stage = .ok .empty := by
  simp [load, h]

/-- A record that was deleted is not there, -/
theorem missing_of_delete (ht : t.Tidy top) (hs : Within t.workDir top s.stateDir)
    (hrun : s.delete stage t = (.ok (), t')) : t'.exists? (s.path stage) = false := by
  have hbelow := below_record hs stage
  obtain ⟨r', hdiscard, hok⟩ := mapError_eq hrun
  obtain rfl := hok () rfl
  simp only [Effect.perform, Disk.step] at hdiscard
  split at hdiscard
  · rename_i t₁ hstep
    cases hdiscard
    split at hstep
    · obtain ⟨htidy, htouched, hnone⟩ := remove_ok ht hbelow hstep
      have hwithin : Within t'.workDir top s.stateDir := htouched.work ▸ hs
      refine missing_of_absent htidy hwithin ?_
      rw [htouched.work]
      exact hnone
    · rename_i hmissing
      cases hstep
      simpa using hmissing
  · cases hdiscard

/-- and deleting it once more changes nothing. -/
theorem delete_of_missing (h : t.exists? (s.path stage) = false) :
    s.delete stage t = (.ok (), t) := by
  simp [delete, Effect.perform, Disk.step, Disk.mapError, h]

theorem tidy_answer (ht : t.Tidy top) (hs : Within t.workDir top s.stateDir) (c : RecordCall) :
    (s.answer c t).2.Tidy top := by
  cases c with
  | load stage => exact ht
  | save stage r => exact (save_spec ht hs (Prod.eta _).symm).1
  | delete stage => exact (delete_spec ht hs (Prod.eta _).symm).1

/-- A call changes nothing but the record of a stage, and what is on the way to it. -/
theorem confined_answer (ht : t.Tidy top) (hs : Within t.workDir top s.stateDir) (c : RecordCall) :
    (s.answer c t).2 = t ∨
      ∃ stage, c.Changes stage ∧ Confined (s.place t.workDir stage) t (s.answer c t).2 := by
  cases c with
  | load stage => exact .inl rfl
  | save stage r => exact .inr ⟨stage, rfl, (save_confined ht hs (Prod.eta _).symm).1⟩
  | delete stage => exact .inr ⟨stage, rfl, (delete_spec ht hs (Prod.eta _).symm).2⟩

theorem work_answer (ht : t.Tidy top) (hs : Within t.workDir top s.stateDir) (c : RecordCall) :
    (s.answer c t).2.workDir = t.workDir := by
  rcases confined_answer ht hs c with h | ⟨stage, -, h⟩
  · rw [h]
  · exact h.work

/-! ## One stage among others -/

/-- What is loaded for a stage depends on what stands at the place of its record alone. -/
theorem load_congr (ht : t.Tidy top) (ht' : t'.Tidy top) (hs : Within t.workDir top s.stateDir)
    (hwork : t'.workDir = t.workDir)
    (hentry : t'.entry? (s.place t.workDir stage) = t.entry? (s.place t.workDir stage)) :
    s.load t' stage = s.load t stage := by
  have hexists := exists?_congr ht ht' (below_record hs stage) hwork hentry
  cases he : t.exists? (s.path stage) with
  | false => simp [load, hexists, he]
  | true =>
    obtain ⟨e, hfind, hfind'⟩ := find_of_exists ht ht' (below_record hs stage) hwork hentry he
    simp only [load, hexists, readText, FileTree.read, hfind, hfind']

/-- A record that can be loaded, and whose place was left alone, could be loaded before. -/
theorem load_of_touched {S : Location → Prop} (ht : t.Tidy top) (ht' : t'.Tidy top)
    (hs : Within t.workDir top s.stateDir) (h : Touched top S t t')
    (hS : ¬S (s.place t.workDir stage)) (hload : s.load t' stage = .ok rec) :
    s.load t stage = .ok rec := by
  rcases h.same _ hS with hsame | ⟨hnone, hdir, -⟩
  · rwa [load_congr ht ht' hs h.work hsame] at hload
  · -- a directory has come there, and that cannot be loaded
    cases hexists : t'.exists? (s.path stage) with
    | false =>
      rw [load_of_missing hexists] at hload
      rw [load_of_missing (missing_of_absent ht hs hnone), hload]
    | true =>
      simp only [load, hexists, Bool.not_true, Bool.false_eq_true, if_false] at hload
      split at hload
      · cases hload
      · rename_i text htext
        obtain ⟨-, content, hentry, -⟩ :=
          (readText_eq_ok ht' ((below_record hs stage).of_work h.work)).1 htext
        rw [h.work, show t'.entry? ((s.path stage).place t.workDir) = some .dir from hdir] at hentry
        cases hentry

/-- Deleting a record leaves nothing to load, or everything as it was. -/
theorem load_of_delete (ht : t.Tidy top) (hs : Within t.workDir top s.stateDir)
    {r : Except RecordError Unit} (hrun : s.delete stage t = (r, t')) :
    s.load t' stage = .ok .empty ∨ t' = t ∧ r ≠ .ok () := by
  cases r with
  | ok _ => exact .inl (load_of_missing (missing_of_delete ht hs hrun))
  | error e =>
    right
    simp only [delete, Effect.perform, Disk.step, Disk.mapError] at hrun
    split at hrun
    · cases hrun
    · rename_i hstep
      cases hrun
      split at hstep
      · cases hstep
      · cases hstep
        exact ⟨rfl, by rintro ⟨⟩⟩

/-- A call about another stage makes no difference. -/
theorem load_answer (ht : t.Tidy top) (hs : Within t.workDir top s.stateDir)
    (h : ¬c.Changes stage) : s.load (s.answer c t).2 stage = s.load t stage := by
  rcases confined_answer ht hs c with hsame | ⟨other, hchanges, hconfined⟩
  · rw [hsame]
  · have hne : other ≠ stage := by
      rintro rfl
      exact h hchanges
    exact load_congr ht (tidy_answer ht hs c) hs hconfined.work
      (hconfined.entry _ (place_not_on_way _ hne))

/-! ## The run lock -/

/-- The place of the run lock. -/
def lockPlace (s : RecordStore) (work : Location) : Location := (lockPath s.stateDir).place work

/-- The run lock does not lie on the way to a record, whatever the stage is called. -/
theorem lockPlace_not_on_way (s : RecordStore) (work : Location) (stage : Stage) :
    ¬s.lockPlace work <+: s.place work stage := by
  have hlock : Path.IsEntry lockFileName := ⟨by decide, by decide, by decide⟩
  rw [lockPlace, lockPath, place, path, hlock.place_joinText, (isEntry_lock stage).place_joinText,
    isEntry_records.place_joinText, List.append_assoc, List.prefix_append_right_inj,
    List.singleton_append, List.cons_prefix_cons]
  intro h
  exact absurd h.1 (by decide)

/-- What stands beside the way to the records makes no difference to any call. -/
theorem answer_agree (h : AgreeBut spot t u) (ht : t.Tidy top)
    (hs : Within t.workDir top s.stateDir) (hout : ∀ stage, ¬spot <+: s.place t.workDir stage)
    (c : RecordCall) :
    (s.answer c u).1 = (s.answer c t).1 ∧ AgreeBut spot (s.answer c t).2 (s.answer c u).2 := by
  cases c with
  | load stage =>
    have hnear := (below_record hs stage).near
    refine ⟨?_, h⟩
    simp only [answer, readingAnswer, load, h.exists?_eq ht.free hnear (hout stage),
      h.readText_eq ht.free hnear (hout stage)]
  | save stage r =>
    simp only [answer, save, saveEffect, Effect.perform, Disk.steps, Disk.mapError]
    have hend := h.replace ht (below_record hs stage) (hout stage) r.text.toUTF8
    generalize t.replace (s.path stage) r.text.toUTF8 = end₁,
      u.replace (s.path stage) r.text.toUTF8 = end₂ at hend ⊢
    cases hend with
    | mk r hagree => cases r <;> exact ⟨rfl, hagree⟩
  | delete stage =>
    have hstep := h.discard ht.free (below_record hs stage).near (hout stage)
    simp only [answer, delete, Effect.perform, Disk.step, Disk.mapError]
    generalize (if t.exists? (s.path stage) then t.remove (s.path stage) else .ok t) = end₁,
      (if u.exists? (s.path stage) then u.remove (s.path stage) else .ok u) = end₂ at hstep ⊢
    cases hstep with
    | error e => exact ⟨rfl, h⟩
    | ok hagree => exact ⟨rfl, hagree⟩

/-- A call neither replaces nor removes the run lock, and whoever holds it goes on to. -/
theorem lock_answer (ht : t.Tidy top) (hs : Within t.workDir top s.stateDir) (c : RecordCall) :
    FileTree.entry? (s.answer c t).2 (s.lockPlace t.workDir) = t.entry? (s.lockPlace t.workDir) ∧
      (s.answer c t).2.locks.filter (·.1 = s.lockPlace t.workDir) =
        t.locks.filter (·.1 = s.lockPlace t.workDir) := by
  rcases confined_answer ht hs c with hsame | ⟨stage, -, hconfined⟩
  · rw [hsame]
    exact ⟨rfl, rfl⟩
  · have hout := lockPlace_not_on_way s t.workDir stage
    refine ⟨hconfined.entry _ hout, hconfined.locks _ ?_⟩
    intro heq
    exact hout (heq ▸ List.prefix_rfl)

/-! ## The book -/

/-- The records on disk are those of a book. -/
structure Keeps (s : RecordStore) (top : Location) (b : RecordBook) (t : FileTree) : Prop where
  tidy : t.Tidy top
  within : Within t.workDir top s.stateDir
  missing : ∀ stage, b stage = none → t.entry? (s.place t.workDir stage) = none
  written : ∀ stage r, b stage = some r → Usable (s.path stage) ∧
    t.entry? (s.place t.workDir stage) = some (.file r.text.toUTF8) ∧
      r.format = Record.currentFormat ∧ r.functions.Ordered

namespace Keeps

/-- What the book says of a stage is loaded, or else the empty record. -/
theorem load (h : s.Keeps top b t) (stage : Stage) :
    s.load t stage = .ok ((b stage).getD .empty) := by
  cases hstage : b stage with
  | none => exact load_of_missing (missing_of_absent h.tidy h.within (h.missing stage hstage))
  | some r =>
    obtain ⟨hu, hentry, hformat, hordered⟩ := h.written stage r hstage
    exact load_of_entry h.tidy h.within hu hentry hformat hordered

/-- A record is deleted whether or not there is one. -/
theorem delete (h : s.Keeps top b t) (stage : Stage) :
    (s.answer (.delete stage) t).1 = .ok () ∧
      FileTree.entry? (s.answer (.delete stage) t).2 (s.place t.workDir stage) = none := by
  have hbelow := below_record h.within stage
  have hdelete {t' : FileTree}
      (hstep : (if t.exists? (s.path stage) then t.remove (s.path stage) else .ok t) = .ok t') :
      s.answer (.delete stage) t = (.ok (), t') := by
    simp only [answer, RecordStore.delete, Effect.perform, Disk.step, Disk.mapError, hstep]
  cases hstage : b stage with
  | none =>
    have habsent := h.missing stage hstage
    rw [answer, delete_of_missing (missing_of_absent h.tidy h.within habsent)]
    exact ⟨rfl, habsent⟩
  | some r =>
    obtain ⟨hu, hentry, -⟩ := h.written stage r hstage
    have hfile : t.entry? ((s.path stage).place t.workDir) ≠ some .dir := by
      rw [show (s.path stage).place t.workDir = s.place t.workDir stage from rfl, hentry]
      simp
    obtain ⟨t', hstep, hsets⟩ := discard_exact h.tidy hbelow hu hfile
    rw [hdelete hstep]
    exact ⟨rfl, by rw [hsets.entry]; exact if_pos rfl⟩

/-- The book of what is on disk changes with the record of one stage. -/
theorem update (h : s.Keeps top b t) (ht' : t'.Tidy top)
    (hconfined : Confined (s.place t.workDir stage) t t') (value : Option Record)
    (hmissing : value = none → t'.entry? (s.place t.workDir stage) = none)
    (hwritten : ∀ r, value = some r → Usable (s.path stage) ∧
      t'.entry? (s.place t.workDir stage) = some (.file r.text.toUTF8) ∧
        r.format = Record.currentFormat ∧ r.functions.Ordered) :
    s.Keeps top (Function.update b stage value) t' := by
  have hother {other : Stage} (hne : other ≠ stage) :
      t'.entry? (s.place t.workDir other) = t.entry? (s.place t.workDir other) :=
    hconfined.entry _ (place_not_on_way _ hne.symm)
  refine ⟨ht', hconfined.work ▸ h.within, fun other hnone => ?_, fun other r hsome => ?_⟩
  · rw [hconfined.work]
    by_cases heq : other = stage
    · subst heq
      rw [Function.update_self] at hnone
      exact hmissing hnone
    · rw [Function.update_of_ne heq] at hnone
      rw [hother heq]
      exact h.missing other hnone
  · rw [hconfined.work]
    by_cases heq : other = stage
    · subst heq
      rw [Function.update_self] at hsome
      exact hwritten r hsome
    · rw [Function.update_of_ne heq] at hsome
      rw [hother heq]
      exact h.written other r hsome

/-- The book with a call noted in it is the book of the tree the call leaves. -/
theorem answer (h : s.Keeps top b t) (c : RecordCall)
    (hc : ∀ stage r, c = .save stage r → r.format = Record.currentFormat ∧ r.functions.Ordered) :
    s.Keeps top (b.note ⟨c, (s.answer c t).1⟩) (s.answer c t).2 := by
  cases c with
  | load stage => exact h
  | save stage r =>
    cases hrun : s.save stage r t with
    | mk a t' =>
      obtain ⟨htidy, -, hdone, -⟩ := save_spec h.tidy h.within hrun
      obtain ⟨hconfined, hpaved⟩ := save_confined h.tidy h.within hrun
      rw [RecordStore.answer, hrun]
      cases a with
      | ok done =>
        obtain ⟨hu, hentry⟩ := hdone rfl
        refine h.update htidy hconfined (some r) nofun fun r' hr' => ?_
        cases hr'
        exact ⟨hu, hconfined.work ▸ hentry, hc stage r rfl⟩
      | error e =>
        -- all that may have been made is directories above the record
        have hsame := (hpaved nofun).entry _
          (not_prefix_dropLast (below_record h.within stage).place_ne_nil)
        have hkept := h.update htidy hconfined (b stage)
          (fun hnone => hsame.trans (h.missing stage hnone))
          (fun r' hr' => hsame ▸ h.written stage r' hr')
        rw [Function.update_eq_self] at hkept
        exact hkept
  | delete stage =>
    obtain ⟨hok, hgone⟩ := h.delete stage
    have hrun : s.delete stage t = ((s.delete stage t).1, (s.delete stage t).2) :=
      (Prod.eta _).symm
    obtain ⟨htidy, hconfined⟩ := delete_spec h.tidy h.within hrun
    rw [hok]
    exact h.update htidy hconfined none (fun _ => hgone) nofun

/-- The book with all calls noted in it is the book of the tree they leave. -/
theorem serve (h : s.Keeps top b t)
    (hcalls : ∀ stage r, .save stage r ∈ calls →
      r.format = Record.currentFormat ∧ r.functions.Ordered) :
    s.Keeps top (b.after (s.serve calls t).1) (s.serve calls t).2 := by
  induction calls generalizing b t with
  | nil => exact h
  | cons c calls ih =>
    have hfirst := h.answer c fun stage r hsave => hcalls stage r (hsave ▸ List.mem_cons_self)
    exact ih hfirst fun stage r hmem => hcalls stage r (List.mem_cons_of_mem _ hmem)

/-- Deletions succeed, one and all. -/
theorem deleted (h : s.Keeps top b t)
    (hcalls : ∀ stage r, .save stage r ∈ calls →
      r.format = Record.currentFormat ∧ r.functions.Ordered)
    {a : Except RecordError Unit} (ha : ⟨.delete stage, a⟩ ∈ (s.serve calls t).1) : a = .ok () := by
  induction calls generalizing b t with
  | nil => cases ha
  | cons c calls ih =>
    have hfirst := h.answer c fun stage r hsave => hcalls stage r (hsave ▸ List.mem_cons_self)
    rcases List.mem_cons.1 ha with heq | hmem
    · cases heq
      exact (h.delete stage).1
    · exact ih hfirst (fun stage r hmem => hcalls stage r (List.mem_cons_of_mem _ hmem)) hmem

end Keeps

/-! ## All calls -/

/-- Calls about other stages make no difference to what is loaded for a stage. -/
theorem load_serve (ht : t.Tidy top) (hs : Within t.workDir top s.stateDir)
    (h : ∀ c ∈ calls, ¬c.Changes stage) :
    s.load (s.serve calls t).2 stage = s.load t stage := by
  induction calls generalizing t with
  | nil => rfl
  | cons c calls ih =>
    have hfirst := load_answer ht hs (h c List.mem_cons_self)
    have hrest := ih (tidy_answer ht hs c) (work_answer ht hs c ▸ hs)
      fun c' hc' => h c' (List.mem_cons_of_mem _ hc')
    exact hrest.trans hfirst

/-- The run lock stays as it is through any calls. -/
theorem lock_serve (ht : t.Tidy top) (hs : Within t.workDir top s.stateDir)
    (calls : List RecordCall) :
    FileTree.entry? (s.serve calls t).2 (s.lockPlace t.workDir) = t.entry? (s.lockPlace t.workDir) ∧
      (s.serve calls t).2.locks.filter (·.1 = s.lockPlace t.workDir) =
        t.locks.filter (·.1 = s.lockPlace t.workDir) := by
  induction calls generalizing t with
  | nil => exact ⟨rfl, rfl⟩
  | cons c calls ih =>
    have hwork := work_answer ht hs c
    obtain ⟨hentry, hlocks⟩ := lock_answer ht hs c
    obtain ⟨hentry', hlocks'⟩ := ih (tidy_answer ht hs c) (hwork ▸ hs)
    rw [hwork] at hentry' hlocks'
    exact ⟨hentry'.trans hentry, hlocks'.trans hlocks⟩

/-- The answers to any calls are the same whatever the run lock holds. -/
theorem serve_agree (h : AgreeBut (s.lockPlace t.workDir) t u) (ht : t.Tidy top)
    (hs : Within t.workDir top s.stateDir) : (s.serve calls u).1 = (s.serve calls t).1 := by
  induction calls generalizing t u with
  | nil => rfl
  | cons c calls ih =>
    have hwork := work_answer ht hs c
    obtain ⟨hanswer, hagree⟩ :=
      answer_agree h ht hs (lockPlace_not_on_way s t.workDir) c
    have hrest := ih (hwork ▸ hagree) (tidy_answer ht hs c) (hwork ▸ hs)
    rw [serve, serve, hanswer, hrest]

/-- The record store is a faithful book of records by stage, for any calls one after another.
From a project without records, deletions succeed and what is loaded for a stage is the record
saved for it last and not deleted since, or else the empty one, where the records saved are of
the current format. Calls about other stages make no difference to a stage, whatever its file
holds. And the run lock is neither looked at nor changed, whatever the stages are called. -/
theorem serve_faithful (ht : t.Tidy top) (hs : Within t.workDir top s.stateDir)
    (calls : List RecordCall) :
    ((∀ stage, t.entry? (s.place t.workDir stage) = none) →
      (∀ stage r, .save stage r ∈ calls →
        r.format = Record.currentFormat ∧ r.functions.Ordered) →
      (∀ stage a, ⟨.delete stage, a⟩ ∈ (s.serve calls t).1 → a = .ok ()) ∧
      ∀ stage, s.load (s.serve calls t).2 stage =
        .ok ((RecordBook.blank.after (s.serve calls t).1 stage).getD .empty)) ∧
    (∀ stage, (∀ c ∈ calls, ¬c.Changes stage) →
      s.load (s.serve calls t).2 stage = s.load t stage) ∧
    FileTree.entry? (s.serve calls t).2 (s.lockPlace t.workDir) = t.entry? (s.lockPlace t.workDir) ∧
    (s.serve calls t).2.locks.filter (·.1 = s.lockPlace t.workDir) =
      t.locks.filter (·.1 = s.lockPlace t.workDir) ∧
    ∀ u, AgreeBut (s.lockPlace t.workDir) t u → (s.serve calls u).1 = (s.serve calls t).1 := by
  obtain ⟨hentry, hlocks⟩ := lock_serve ht hs calls
  refine ⟨fun hnew hcalls => ?_, fun stage h => load_serve ht hs h, hentry, hlocks,
    fun u h => serve_agree h ht hs⟩
  have hkeeps : s.Keeps top .blank t := ⟨ht, hs, fun stage _ => hnew stage, nofun⟩
  exact ⟨fun stage a ha => hkeeps.deleted hcalls ha, (hkeeps.serve hcalls).load⟩

namespace Sample

/-- The records of a project. -/
def store : RecordStore := ⟨Path.ofString "/project/.liftoff"⟩

/-- A project without records while somebody holds its run lock. -/
def disk : FileTree :=
  ⟨[(["project"], .dir), (["project", ".liftoff"], .dir),
      (["project", ".liftoff", "run.lock"], .file ⟨#[]⟩)],
    [(["project", ".liftoff", "run.lock"], "somebody")], []⟩

/-- A stage called like the lock. -/
def run : Stage := ⟨"run", by decide⟩

/-- A record of a function that has quotes, dots and line breaks in its name and was never
fingerprinted. -/
def record : Record := ⟨1, some "", [("a.\"b\"\n\\", ⟨⟨""⟩, none⟩)]⟩

def history : List RecordCall :=
  [.save run record, .save .dev .empty, .load .dev, .delete .dev, .delete .dev]

theorem tidy : disk.Tidy ["project"] where
  wf := .of_entries (by decide) rfl
  free _ target _ := ne_link_of_entries (by simp [disk]) target
  base := rfl

theorem within : Within [] ["project"] store.stateDir := ⟨by decide, by decide⟩

theorem no_record (stage : Stage) : disk.entry? (store.place [] stage) = none := by
  have hnone : disk.entry? ["project", ".liftoff", "records"] = none := by decide
  refine tidy.wf.none_of_prefix hnone ?_
  rw [place, path, (isEntry_lock stage).place_joinText, isEntry_records.place_joinText]
  exact List.prefix_append _ _

end Sample

/-- Of the stage called like the lock, the record is loaded that was saved; of the stage whose
record was deleted, the empty one. -/
theorem serve_faithful_sample :
    Sample.disk.Tidy ["project"] ∧ Within [] ["project"] Sample.store.stateDir ∧
      (∀ stage, Sample.disk.entry? (Sample.store.place [] stage) = none) ∧
      (∀ stage r, .save stage r ∈ Sample.history →
        r.format = Record.currentFormat ∧ r.functions.Ordered) ∧
      Sample.store.load (Sample.store.serve Sample.history Sample.disk).2 Sample.run =
        .ok Sample.record ∧
      Sample.store.load (Sample.store.serve Sample.history Sample.disk).2 .dev = .ok .empty ∧
      FileTree.entry? (Sample.store.serve Sample.history Sample.disk).2
        ["project", ".liftoff", "run.lock"] = some (.file ⟨#[]⟩) := by
  have hcalls : ∀ stage r, .save stage r ∈ Sample.history →
      r.format = Record.currentFormat ∧ r.functions.Ordered := by
    intro stage r hmem
    simp only [Sample.history, List.mem_cons, RecordCall.save.injEq, reduceCtorEq,
      List.not_mem_nil, or_false] at hmem
    rcases hmem with ⟨-, rfl⟩ | ⟨-, rfl⟩
    · exact ⟨rfl, List.pairwise_singleton _ _⟩
    · exact ⟨rfl, List.Pairwise.nil⟩
  obtain ⟨hbook, -, hlock, -⟩ := serve_faithful Sample.tidy Sample.within Sample.history
  have hload := (hbook Sample.no_record hcalls).2
  have hrun : RecordBook.blank.after (Sample.store.serve Sample.history Sample.disk).1 Sample.run =
      some Sample.record := by decide +kernel
  have hdev : RecordBook.blank.after (Sample.store.serve Sample.history Sample.disk).1 .dev =
      none := by decide +kernel
  refine ⟨Sample.tidy, Sample.within, Sample.no_record, hcalls, ?_, ?_, hlock⟩
  · rw [hload, hrun]
    rfl
  · rw [hload, hdev]
    rfl

end RecordStore

end Rollout
