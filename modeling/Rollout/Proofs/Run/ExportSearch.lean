import Rollout.Proofs.Run.Oracle

/-!
Looking for an export, with every answer foretold. A pass reads page after page until the name is
found, a page errs or there is no next one. The search makes passes until one finds the name or the
flag is up, and no more than it was given attempts; it pauses between two passes, and what a page
errs with goes no further than its pass.
-/

namespace Rollout

open Lifecycle

namespace Oracle

theorem Progress.after_append (s : Progress) (rs rs' : List Request) :
    s.after (rs ++ rs') = (s.after rs).after rs' := List.foldl_append

variable {o : Oracle} {name : String} {call attempts : Nat} {token : Option String}
  {calls calls' : List Request} {passes passes' rounds : List (List Request)} {s : Progress}
  {r r' : Except ProviderError (Option String)} {w : Waiting}

/-! ## Passes -/

/-- Where a page leads: to the page of the next token, or to the end of the pass, with the first
value of the name, with none, or with the error. -/
def leads (o : Oracle) (name : String) (call : Nat) :
    String ⊕ Except ProviderError (Option String) :=
  match o.page call with
  | .error e => .inr (.error e)
  | .ok page =>
    match page.exports.find? fun e => e.name = name with
    | some e => .inr (.ok (some e.value))
    | none =>
      match page.next with
      | some next => .inl next
      | none => .inr (.ok none)

/-- The call for a page. -/
def pageCall (token : Option String) : Request := .stack (.listExports token)

/-- A pass that goes on from a token with the call of a number: the calls it makes, and what it comes
to. -/
inductive Pass (o : Oracle) (name : String) :
    Nat → Option String → List Request → Except ProviderError (Option String) → Prop where
  | last {call : Nat} {token : Option String} {r : Except ProviderError (Option String)} :
    o.leads name call = .inr r → Pass o name call token [pageCall token] r
  | more {call : Nat} {token : Option String} {next : String} {calls : List Request}
    {r : Except ProviderError (Option String)} :
    o.leads name call = .inl next → Pass o name (call + 1) (some next) calls r →
      Pass o name call token (pageCall token :: calls) r

/-- A pass goes one way. -/
theorem Pass.unique (h : o.Pass name call token calls r) (h' : o.Pass name call token calls' r') :
    calls = calls' ∧ r = r' := by
  induction h generalizing calls' r' with
  | last hlast =>
    cases h' with
    | last hlast' =>
      rw [hlast] at hlast'
      cases hlast'
      exact ⟨rfl, rfl⟩
    | more hmore' _ =>
      rw [hlast] at hmore'
      cases hmore'
  | more hmore _ ih =>
    cases h' with
    | last hlast' =>
      rw [hmore] at hlast'
      cases hlast'
    | more hmore' hrest' =>
      rw [hmore] at hmore'
      cases hmore'
      obtain ⟨rfl, rfl⟩ := ih hrest'
      exact ⟨rfl, rfl⟩

/-- A pass calls the provider and does nothing else. -/
theorem Pass.progress (h : o.Pass name call token calls r) (s : Progress) :
    (s.after calls).calls = s.calls + calls.length ∧ (s.after calls).looks = s.looks := by
  induction h generalizing s with
  | last => exact ⟨rfl, rfl⟩
  | more _ _ ih =>
    obtain ⟨hcalls, hlooks⟩ := ih (s.next (pageCall _))
    exact ⟨hcalls.trans (Nat.succ_add_eq_add_succ _ _), hlooks⟩

/-- Reading a page. -/
theorem run_scanFrom (patience : Nat) (token : Option String) (s : Progress) :
    (scanFrom name (patience + 1) token).run o.handler s =
      match o.leads name s.calls with
      | .inr r => (some r, s.next (pageCall token))
      | .inl next => (scanFrom name patience (some next)).run o.handler (s.next (pageCall token)) := by
  have hanswer : o.handler.answer (.stack (.listExports token)) s =
      (o.page s.calls, s.next (pageCall token)) := rfl
  rw [scanFrom, Program.run, hanswer, leads]
  cases o.page s.calls with
  | error e => rfl
  | ok page =>
    dsimp only
    cases page.exports.find? fun e => e.name = name with
    | some e => rfl
    | none => cases page.next <;> rfl

/-- A run makes the pass that is foretold. -/
theorem Pass.run_scanFrom (h : o.Pass name s.calls token calls r) {patience : Nat}
    (hpatience : calls.length ≤ patience) :
    (scanFrom name patience token).run o.handler s = (some r, s.after calls) := by
  generalize hcall : s.calls = call at h
  induction h generalizing s patience with
  | last hlast =>
    obtain ⟨patience, rfl⟩ : ∃ n, patience = n + 1 := ⟨patience - 1, by simp at hpatience; omega⟩
    rw [Oracle.run_scanFrom, hcall, hlast]
    rfl
  | more hmore _ ih =>
    rw [List.length_cons] at hpatience
    obtain ⟨patience, rfl⟩ : ∃ n, patience = n + 1 := ⟨patience - 1, by omega⟩
    rw [Oracle.run_scanFrom, hcall, hmore]
    exact ih (by omega) (congrArg (· + 1) hcall)

/-! ## Rounds -/

/-- The look at the flag with which a round begins. -/
def look : Request := .control .isCancelled

/-- A round: a look at the flag, and a pass. -/
def sought (calls : List Request) : List Request := look :: calls

/-- Passes, one after the other from the first call on, that were made as the flag was not up and
found nothing: each read the last page without the name, or a page that erred. -/
inductive Vain (o : Oracle) (name : String) : List (List Request) → Prop where
  | nil : Vain o name []
  | snoc {passes : List (List Request)} {calls : List Request}
    {r : Except ProviderError (Option String)} :
    Vain o name passes → o.raised passes.length = false →
      o.Pass name passes.flatten.length none calls r → (∀ value, r ≠ .ok (some value)) →
        Vain o name (passes ++ [calls])

/-- A search with so many attempts: its rounds, and what it comes to. -/
inductive Search (o : Oracle) (name : String) (attempts : Nat) :
    List (List Request) → Except Failure ExportLookup → Prop where
  /-- After passes in vain the flag is up. -/
  | cancelled {passes : List (List Request)} : o.Vain name passes → passes.length < attempts →
    o.raised passes.length = true →
      Search o name attempts (passes.map sought ++ [[look]]) (.error .cancelled)
  /-- After passes in vain, one finds a value. -/
  | found {passes : List (List Request)} {calls : List Request} {value : String} :
    o.Vain name passes → passes.length < attempts → o.raised passes.length = false →
      o.Pass name passes.flatten.length none calls (.ok (some value)) →
        Search o name attempts (passes.map sought ++ [sought calls]) (.ok (.found value))
  /-- All passes were in vain. -/
  | notFound {passes : List (List Request)} : o.Vain name passes → passes.length = attempts →
    Search o name attempts (passes.map sought) (.ok (.notFound attempts))

/-- Each pass that is begun comes to its end, and is not longer than the patience. -/
def Finite (o : Oracle) (name : String) (attempts patience : Nat) : Prop :=
  ∀ passes, o.Vain name passes → passes.length < attempts → o.raised passes.length = false →
    ∃ calls r, o.Pass name passes.flatten.length none calls r ∧ calls.length ≤ patience

theorem Finite.short {patience : Nat} (h : o.Finite name attempts patience)
    (hvain : o.Vain name passes) (hlt : passes.length < attempts)
    (hraised : o.raised passes.length = false)
    (hpass : o.Pass name passes.flatten.length none calls r) : calls.length ≤ patience := by
  obtain ⟨calls', r', hpass', hshort⟩ := h passes hvain hlt hraised
  obtain ⟨rfl, -⟩ := hpass'.unique hpass
  exact hshort

/-- Then the search comes to its end. -/
theorem Finite.exists_search {patience : Nat} (h : o.Finite name attempts patience)
    (hvain : o.Vain name passes) (hle : passes.length ≤ attempts) :
    ∃ rounds found, o.Search name attempts rounds found := by
  induction hleft : attempts - passes.length generalizing passes with
  | zero => exact ⟨_, _, .notFound hvain (by omega)⟩
  | succ left ih =>
    have hlt : passes.length < attempts := by omega
    cases hraised : o.raised passes.length with
    | true => exact ⟨_, _, .cancelled hvain hlt hraised⟩
    | false =>
      obtain ⟨calls, r, hpass, -⟩ := h passes hvain hlt hraised
      by_cases hvalue : ∃ value, r = .ok (some value)
      · obtain ⟨value, rfl⟩ := hvalue
        exact ⟨_, _, .found hvain hlt hraised hpass⟩
      · refine ih (hvain.snoc hraised hpass (not_exists.1 hvalue)) ?_ ?_ <;>
          rw [List.length_append, List.length_singleton] <;> omega

/-! ## The search -/

/-- What a pass found. -/
theorem outcome_scanExports (h : o.Pass name s.calls none calls r)
    (hpatience : calls.length ≤ w.patience) :
    (Run.liftProgram (scanExports w name)).outcome o.handler s =
      (some (.ok r.toOption.join), s.after calls) := by
  show Program.run o.handler (Program.bind (scanExports w name) _) s = _
  rw [Program.run_bind, scanExports, Program.run_bind, h.run_scanFrom hpatience]
  cases r <;> rfl

theorem toOption_join_eq_none (h : ∀ value, r ≠ .ok (some value)) : r.toOption.join = none := by
  cases r with
  | error e => rfl
  | ok found =>
    cases found with
    | none => rfl
    | some value => exact absurd rfl (h value)

/-- A round in which the flag is not up. -/
theorem outcome_lookUpFrom (hraised : o.raised s.looks = false)
    (h : o.Pass name s.calls none calls r) (hpatience : calls.length ≤ w.patience) (left : Nat) :
    (lookUpFrom w name (left + 1)).outcome o.handler s =
      match r.toOption.join with
      | some value => (some (.ok (.found value)), s.after (sought calls))
      | none => (lookUpFrom w name left).outcome o.handler (s.after
          (sought calls ++ if 0 < left then [.control (.sleep w.exports.interval)] else [])) := by
  have hlook := o.outcome_checkCancelled s
  rw [hraised] at hlook
  rw [lookUpFrom, Run.outcome_bind_of_ok hlook,
    Run.outcome_bind_of_ok (outcome_scanExports (s := s.next (.control .isCancelled)) h hpatience)]
  cases r.toOption.join with
  | some value => rfl
  | none =>
    by_cases hleft : 0 < left
    · simp only [hleft, if_true]
      rw [Run.outcome_bind_of_ok (a := ()) rfl, Progress.after_append]
      rfl
    · simp only [hleft, if_false, List.append_nil]
      rfl

/-- The progress after passes in vain, each with its round and a pause. -/
def paused (interval : Nat) (clock : Clock) (passes : List (List Request)) : Progress :=
  (Progress.start clock).after
    (passes.flatMap fun calls => sought calls ++ [.control (.sleep interval)])

theorem paused_snoc {interval : Nat} {clock : Clock} :
    paused interval clock (passes ++ [calls]) =
      (paused interval clock passes).after (sought calls ++ [.control (.sleep interval)]) := by
  rw [paused, List.flatMap_append, Progress.after_append, List.flatMap_singleton]
  rfl

/-- The next round begins with the next look at the flag and the next call of the provider. -/
theorem Vain.progress (h : o.Vain name passes) (interval : Nat) (clock : Clock) :
    (paused interval clock passes).looks = passes.length ∧
      (paused interval clock passes).calls = passes.flatten.length := by
  induction h with
  | nil => exact ⟨rfl, rfl⟩
  | @snoc passes calls r _ _ hpass _ ih =>
    obtain ⟨hcalls, hlooks⟩ := hpass.progress ((paused interval clock passes).next look)
    rw [paused_snoc, Progress.after_append, List.length_append, List.flatten_append,
      List.length_append, List.flatten_singleton]
    refine ⟨hlooks.trans (congrArg (· + 1) ih.1), hcalls.trans ?_⟩
    exact congrArg (· + calls.length) ih.2

/-- Passes in vain that are made are not longer than the patience. -/
theorem Vain.short {patience : Nat} (h : o.Vain name passes)
    (hfinite : o.Finite name attempts patience) (hle : passes.length ≤ attempts) :
    ∀ calls ∈ passes, calls.length ≤ patience := by
  induction h with
  | nil => exact nofun
  | snoc hvain hraised hpass _ ih =>
    rw [List.length_append, List.length_singleton] at hle
    have hshort := hfinite.short hvain (by omega) hraised hpass
    exact List.forall_mem_append.2 ⟨ih (by omega), List.forall_mem_singleton.2 hshort⟩

/-- The round after passes in vain. -/
theorem Vain.round (h : o.Vain name passes) (hraised : o.raised passes.length = false)
    (hpass : o.Pass name passes.flatten.length none calls r) (hshort : calls.length ≤ w.patience)
    (clock : Clock) (left : Nat) :
    (lookUpFrom w name (left + 1)).outcome o.handler (paused w.exports.interval clock passes) =
      match r.toOption.join with
      | some value => (some (.ok (.found value)),
          (paused w.exports.interval clock passes).after (sought calls))
      | none => (lookUpFrom w name left).outcome o.handler
          ((paused w.exports.interval clock passes).after (sought calls ++
            if 0 < left then [.control (.sleep w.exports.interval)] else [])) := by
  obtain ⟨hlooks, hcalls⟩ := h.progress w.exports.interval clock
  rw [← hlooks] at hraised
  rw [← hcalls] at hpass
  exact outcome_lookUpFrom hraised hpass hshort left

/-- Rounds in vain are gone through, with a pause after each that is not the last. -/
theorem Vain.skip (h : o.Vain name passes) (hshort : ∀ calls ∈ passes, calls.length ≤ w.patience)
    (clock : Clock) (left : Nat) :
    (lookUpFrom w name (passes.length + (left + 1))).outcome o.handler (.start clock) =
      (lookUpFrom w name (left + 1)).outcome o.handler
        (paused w.exports.interval clock passes) := by
  induction h generalizing left with
  | nil => rw [List.length_nil, Nat.zero_add]; rfl
  | @snoc passes calls r hvain hraised hpass hnone ih =>
    rw [List.forall_mem_append] at hshort
    rw [List.length_append, List.length_singleton, Nat.add_assoc, Nat.add_comm 1, ih hshort.1,
      hvain.round hraised hpass (hshort.2 _ List.mem_cons_self), toOption_join_eq_none hnone]
    dsimp only
    rw [if_pos (Nat.succ_pos left), paused_snoc]

/-- Rounds in vain and one more, with a pause between each two. -/
theorem intercalate_rounds (interval : Nat) (clock : Clock) (last : List Request) :
    (Progress.start clock).after
        (List.intercalate [.control (.sleep interval)] (passes.map sought ++ [last])) =
      (paused interval clock passes).after last := by
  rw [paused, ← Progress.after_append]
  congr 1
  induction passes with
  | nil => exact List.intercalate_singleton
  | cons calls passes ih =>
    rw [List.map_cons, List.cons_append, List.intercalate_cons_of_ne_nil (by simp), ih,
      List.flatMap_cons]
    simp only [List.append_assoc]

/-- A search reaches the round that comes after its passes in vain. -/
theorem Vain.reached (h : o.Vain name passes) (hfinite : o.Finite name attempts w.patience)
    (hlt : passes.length < attempts) (clock : Clock) : ∃ left,
    attempts = passes.length + (left + 1) ∧
      (lookUpFrom w name attempts).outcome o.handler (.start clock) =
        (lookUpFrom w name (left + 1)).outcome o.handler
          (paused w.exports.interval clock passes) := by
  obtain ⟨left, rfl⟩ : ∃ left, attempts = passes.length + (left + 1) :=
    ⟨attempts - passes.length - 1, by omega⟩
  exact ⟨left, rfl, h.skip (h.short hfinite (Nat.le_of_lt hlt)) clock left⟩

end Oracle

namespace Lifecycle

open Oracle

/-- The search for an export spends exactly its attempts. It has no more rounds than it was given
attempts, at least one; it ends in the first in which the flag is up or the pass finds a value, and
with nothing found after the last; the requests of the run are those of the rounds, with one pause
between each two and none at the end, and an error of the provider is no more than a pass in vain. -/
theorem findExport_spends (o : Oracle) (poll : PollPolicy) (n interval patience : Nat)
    (name : String) (clock : Clock) (hfinite : o.Finite name (max n 1) patience) :
    (∃ rounds found, o.Search name (max n 1) rounds found) ∧
    ∀ rounds found, o.Search name (max n 1) rounds found →
      (findExport ⟨poll, .ofAttempts n interval, patience⟩ name).outcome o.handler (.start clock) =
        (some found, (Progress.start clock).after
          (List.intercalate [.control (.sleep interval)] rounds)) := by
  refine ⟨hfinite.exists_search .nil (Nat.zero_le _), fun rounds found hsearch => ?_⟩
  let w : Waiting := ⟨poll, .ofAttempts n interval, patience⟩
  change (lookUpFrom w name (max n 1)).outcome o.handler (.start clock) = _
  cases hsearch with
  | @cancelled passes hvain hlt hraised =>
    obtain ⟨left, -, hrun⟩ := hvain.reached (w := w) hfinite hlt clock
    have hlook := o.outcome_checkCancelled (paused interval clock passes)
    rw [(hvain.progress interval clock).1, hraised] at hlook
    rw [hrun, intercalate_rounds]
    exact Run.outcome_bind_of_error hlook _
  | @found passes calls value hvain hlt hraised hpass =>
    obtain ⟨left, -, hrun⟩ := hvain.reached (w := w) hfinite hlt clock
    rw [hrun, intercalate_rounds]
    exact hvain.round (w := w) hraised hpass (hfinite.short hvain hlt hraised hpass) clock left
  | notFound hvain hspent =>
    have hpos : 0 < max n 1 := by omega
    cases hvain with
    | nil => exact absurd hpos (hspent ▸ Nat.lt_irrefl 0)
    | @snoc passes calls r hvain hraised hpass hnone =>
      have hlast : passes.length + 1 = max n 1 := by simpa using hspent
      obtain ⟨left, hleft, hrun⟩ := hvain.reached (w := w) hfinite (by omega) clock
      obtain rfl : left = 0 := by omega
      have hshort := hfinite.short hvain (by omega) hraised hpass
      rw [hrun, List.map_append, List.map_singleton, intercalate_rounds]
      refine (hvain.round (w := w) hraised hpass hshort clock 0).trans ?_
      rw [toOption_join_eq_none hnone]
      simp only [Nat.lt_irrefl, if_false, List.append_nil]
      rfl

namespace Sample

/-- The name that is looked for. -/
def bucketExport : String := "shop-dev-DeploymentBucketName"

/-- A provider that errs when it is asked for the first time; then it has two pages, and the export
on the second. -/
def late : Oracle := ⟨fun _ => .ok .absent,
  fun n =>
    if n = 1 then .ok ⟨[⟨"other", "x"⟩], some "p2"⟩
    else if n = 2 then .ok ⟨[⟨bucketExport, "shop-dev-bucket"⟩], none⟩
    else .error (.unavailable "busy"),
  fun _ => false⟩

theorem eq_one_of_leads {name next : String} {call : Nat}
    (h : late.leads name call = .inl next) : call = 1 := by
  refine Decidable.byContradiction fun hone => ?_
  simp only [leads, late, if_neg hone] at h
  by_cases htwo : call = 2
  · rw [if_pos htwo] at h
    dsimp only at h
    split at h <;> cases h
  · rw [if_neg htwo] at h
    cases h

theorem exists_pass_late (name : String) (call : Nat) :
    ∃ calls r, late.Pass name call none calls r ∧ calls.length ≤ 2 := by
  cases hleads : late.leads name call with
  | inr r => exact ⟨_, r, .last hleads, by decide⟩
  | inl next =>
    obtain rfl := eq_one_of_leads hleads
    cases hrest : late.leads name 2 with
    | inr r => exact ⟨_, r, .more hleads (.last hrest), Nat.le_refl 2⟩
    | inl next => exact absurd (eq_one_of_leads hrest) (by decide)

theorem finite_late (name : String) (attempts : Nat) : late.Finite name attempts 2 :=
  fun _ _ _ _ => exists_pass_late name _

theorem vain_late : late.Vain bucketExport [[pageCall none]] :=
  Vain.nil.snoc rfl (.last rfl) nofun

end Sample

/-- The export is found by the second pass, after one pause. -/
theorem findExport_spends_sample :
    Sample.late.Finite Sample.bucketExport (max 5 1) 2 ∧
      Sample.late.Search Sample.bucketExport (max 5 1)
        [[look, pageCall none], [look, pageCall none, pageCall (some "p2")]]
        (.ok (.found "shop-dev-bucket")) ∧
      (findExport ⟨.standard, .ofAttempts 5 (seconds 3), 2⟩ Sample.bucketExport).outcome
          Sample.late.handler (.start .start) =
        (some (.ok (.found "shop-dev-bucket")), (Progress.start .start).after
          [look, pageCall none, .control (.sleep (seconds 3)),
            look, pageCall none, pageCall (some "p2")]) := by
  have hsearch : Sample.late.Search Sample.bucketExport (max 5 1)
      [[look, pageCall none], [look, pageCall none, pageCall (some "p2")]]
      (.ok (.found "shop-dev-bucket")) :=
    .found Sample.vain_late (by decide) rfl (.more rfl (.last rfl))
  exact ⟨Sample.finite_late _ _, hsearch,
    (findExport_spends Sample.late .standard 5 (seconds 3) 2 Sample.bucketExport .start
      (Sample.finite_late _ _)).2 _ _ hsearch⟩

end Lifecycle

end Rollout
