import Rollout.Proofs.Run.Protocol
import Rollout.Run.Deploy

/-!
Parts of a run that only look: waiting for a stack, finding an export, reading the marker and
deciding what to redeploy. They change nothing wherever they run, and none of them announces a
commit.
-/

namespace Rollout

/-- Whether an event announces a commit. -/
def Event.IsCommit : Event → Prop
  | recordCommitted _ => True
  | _ => False

/-- A request that changes nothing and announces no commit. -/
def Request.Idle : Request → Prop
  | store (.get ..) => True
  | store (.url ..) => True
  | store (.listObjects ..) => True
  | store (.listVersions ..) => True
  | stack (.status _) => True
  | stack (.listExports _) => True
  | record (.load _) => True
  | onMachine _ => True
  | control (.emit e) => ¬e.IsCommit
  | control _ => True
  | _ => False

/-- A request that saves a record: with it, a commit begins. -/
def Request.IsSave : Request → Prop
  | record (.save ..) => True
  | _ => False

instance : DecidablePred Request.IsSave := fun r =>
  match r with
  | .record (.save ..) => .isTrue trivial
  | .record (.load _) | .record (.delete _) => .isFalse id
  | .store _ | .stack _ | .hook _ | .onMachine _ | .control _ => .isFalse id

/-- A request that announces a commit. -/
def Request.Announces : Request → Prop
  | control (.emit e) => e.IsCommit
  | _ => False

theorem Request.Idle.not_isSave {r : Request} (h : r.Idle) : ¬r.IsSave := by
  cases r with
  | record c => cases c <;> first | exact id | exact h.elim
  | _ => exact id

theorem Request.Idle.not_announces {r : Request} (h : r.Idle) : ¬r.Announces := by
  cases r with
  | control c => cases c <;> first | exact id | exact h
  | _ => exact id

namespace Run

theorem idle_emit {e : Event} (h : ¬e.IsCommit) : (emit e).Only Request.Idle := only_emit h

theorem idle_checkCancelled : checkCancelled.Only Request.Idle := only_checkCancelled trivial

theorem idle_now : now.Only Request.Idle := only_liftProgram ⟨trivial, fun _ => trivial⟩

theorem idle_sleep (duration : Nat) : (sleep duration).Only Request.Idle :=
  only_liftProgram ⟨trivial, fun _ => trivial⟩

end Run

namespace Lifecycle

open Run

theorem idle_status (name : String) : (status name).Only Request.Idle :=
  only_ofProgram ⟨trivial, fun _ => trivial⟩

theorem idle_pollFrom (poll : PollPolicy) (name : String) (started rounds : Nat) :
    (pollFrom poll name started rounds).Only Request.Idle := by
  induction rounds with
  | zero => trivial
  | succ rounds ih =>
    refine only_bind idle_checkCancelled fun _ => only_bind (idle_status name) fun s => ?_
    by_cases hterminal : s.isTerminal
    · simp only [hterminal, if_true]
      by_cases hfailure : s.isFailure
      · simp only [hfailure, if_true]
        exact only_throw _
      · simp only [hfailure]
        exact only_pure _
    · simp only [hterminal]
      refine only_bind idle_now fun now => ?_
      by_cases htimeout : poll.timeout ≤ now - started
      · simp only [htimeout, if_true]
        exact only_throw _
      · simp only [htimeout, if_false]
        exact only_bind (idle_sleep _) fun _ => ih

theorem idle_pollUntilTerminal (w : Waiting) (name : String) :
    (pollUntilTerminal w name).Only Request.Idle :=
  only_bind idle_now fun _ => idle_pollFrom ..

theorem idle_scanFrom (exportName : String) (pages : Nat) (token : Option String) :
    (scanFrom exportName pages token).Only Request.Idle := by
  induction pages generalizing token with
  | zero => trivial
  | succ pages ih =>
    refine ⟨trivial, fun answer => ?_⟩
    cases answer with
    | error e => trivial
    | ok page =>
      simp only
      split
      · trivial
      · split
        · exact ih _
        · trivial

theorem idle_scanExports (w : Waiting) (exportName : String) :
    (scanExports w exportName).Only Request.Idle :=
  Program.only_bind (idle_scanFrom ..) fun r => by cases r <;> trivial

theorem idle_lookUpFrom (w : Waiting) (exportName : String) (left : Nat) :
    (lookUpFrom w exportName left).Only Request.Idle := by
  induction left with
  | zero => trivial
  | succ left ih =>
    refine only_bind idle_checkCancelled fun _ =>
      only_bind (only_liftProgram (idle_scanExports ..)) fun found => ?_
    cases found with
    | some value => exact only_pure _
    | none =>
      by_cases hleft : 0 < left
      · simp only [hleft, if_true]
        exact only_bind (idle_sleep _) fun _ => ih
      · simp only [hleft, if_false]
        exact ih

theorem idle_findExport (w : Waiting) (exportName : String) :
    (findExport w exportName).Only Request.Idle := idle_lookUpFrom ..

section Exports

variable {κ : Type} {P : Protocol κ} {k : κ} {name : String} {V : String → Prop}

theorem follows_scanFrom (hidle : ∀ k r, r.Idle → P.allowed k r)
    (hpage : ∀ k token page k', P.after k (.stack (.listExports token)) (.ok page) k' →
      ∀ e ∈ page.exports, e.name = name → V e.value)
    (pages : Nat) (token : Option String) :
    (scanFrom name pages token).Follows P
      (fun found _ => ∀ value, found = .ok (some value) → V value) k := by
  induction pages generalizing token k with
  | zero => trivial
  | succ pages ih =>
    refine ⟨hidle k _ trivial, fun answer k' hafter => ?_⟩
    cases answer with
    | error e =>
      intro value hvalue
      cases hvalue
    | ok page =>
      simp only
      split
      · rename_i e he
        rintro value ⟨⟩
        have hfound := List.find?_some he
        exact hpage k token page k' hafter e (List.mem_of_find?_eq_some he)
          (of_decide_eq_true hfound)
      · split
        · exact ih _
        · intro value hvalue
          cases hvalue

theorem follows_lookUpFrom (hidle : ∀ k r, r.Idle → P.allowed k r)
    (hpage : ∀ k token page k', P.after k (.stack (.listExports token)) (.ok page) k' →
      ∀ e ∈ page.exports, e.name = name → V e.value)
    (w : Waiting) (left : Nat) :
    (lookUpFrom w name left).Follows P
      (fun found _ => ∀ value, found = .found value → V value) k := by
  have hlook {α : Type} {p : Run α} {k : κ} (h : p.Only Request.Idle) :
      p.Follows P (fun _ _ => True) k :=
    h.follows (R := fun _ => True) (fun k r _ hr => ⟨hidle k r hr, fun _ _ _ => trivial⟩) trivial
  induction left generalizing k with
  | zero =>
    refine follows_pure fun value hvalue => ?_
    cases hvalue
  | succ left ih =>
    refine .bind (hlook idle_checkCancelled) fun _ k' _ => ?_
    refine .bind (follows_liftProgram (Program.Follows.bind
      (follows_scanFrom hidle hpage w.patience none) ?_))
      (Q := fun found _ => ∀ value, found = some value → V value) ?_
    · intro found k'' hfound
      cases found with
      | ok found => exact fun value hvalue => hfound value (congrArg _ hvalue)
      | error e => exact nofun
    intro found k'' hfound
    cases found with
    | some value =>
      refine follows_pure ?_
      rintro value ⟨⟩
      exact hfound _ rfl
    | none =>
      by_cases hleft : 0 < left
      · simp only [hleft, if_true]
        exact .bind (hlook (idle_sleep _)) fun _ _ _ => ih
      · simp only [hleft, if_false]
        exact ih

/-- An export that is found is what the pages say of it. -/
theorem follows_findExport (hidle : ∀ k r, r.Idle → P.allowed k r)
    (hpage : ∀ k token page k', P.after k (.stack (.listExports token)) (.ok page) k' →
      ∀ e ∈ page.exports, e.name = name → V e.value)
    (w : Waiting) :
    (findExport w name).Follows P (fun found _ => ∀ value, found = .found value → V value) k :=
  follows_lookUpFrom hidle hpage w _

end Exports

end Lifecycle

namespace Artifacts

open Run

theorem idle_readMarker (bucket : String) : (readMarker bucket).Only Request.Idle :=
  only_bind (only_bind (only_ofProgram ⟨trivial, fun _ => trivial⟩) fun _ => only_pure _)
    fun _ => only_pure _

theorem idle_url (bucket key : String) (toFailure : StoreError → Failure) :
    (Run.store (.url bucket key) toFailure).Only Request.Idle :=
  only_ofProgram ⟨trivial, fun _ => trivial⟩

theorem idle_readFile (path : Path) (key : String) : (readFile path key).Only Request.Idle :=
  only_ofProgram ⟨trivial, fun _ => trivial⟩

theorem idle_contentFor (u : PendingUpload) (values : Option Substitutions) :
    (contentFor u values).Only Request.Idle := by
  refine only_bind (idle_readFile ..) fun body => ?_
  cases values with
  | none => exact only_pure _
  | some values =>
    simp only
    split
    · exact only_pure _
    · exact only_throw _

end Artifacts

namespace Deploy

open Run

theorem idle_awaitStack (w : Waiting) (stack : String) :
    (awaitStack w stack).Only Request.Idle :=
  only_bind (Lifecycle.idle_pollUntilTerminal ..) fun _ => idle_emit id

theorem idle_resolveBucket (w : Waiting) (stack : String) :
    (resolveBucket w stack).Only Request.Idle := by
  refine only_bind (Lifecycle.idle_findExport ..) fun found => ?_
  cases found with
  | found bucket => exact only_pure _
  | notFound attempts => exact only_throw _

theorem idle_readTemplate (kind : TemplateKind) (stage : Stage) :
    (readTemplate kind stage).Only Request.Idle :=
  only_ofProgram ⟨trivial, fun _ => trivial⟩

theorem idle_resolveExports (w : Waiting) (watches : List ExportWatch) (r : Resolution) :
    (resolveExports w watches r).Only Request.Idle := by
  induction watches generalizing r with
  | nil => trivial
  | cons watch watches ih =>
    refine only_bind (Lifecycle.idle_findExport ..) fun found => ?_
    cases found with
    | found value => exact only_bind (idle_emit id) fun _ => ih _
    | notFound attempts => exact only_bind (idle_emit id) fun _ => ih _

theorem idle_reportFiles (bucket : String) (keys : List String) :
    (reportFiles bucket keys).Only Request.Idle := by
  induction keys with
  | nil => exact only_pure _
  | cons key keys ih =>
    exact only_bind (idle_emit id) fun _ => only_bind ih fun _ => only_pure _

theorem idle_reportHooks (results : List (String × Except HookError Unit)) :
    (reportHooks results).Only Request.Idle := by
  induction results with
  | nil => trivial
  | cons result results ih =>
    obtain ⟨name, r⟩ := result
    cases r with
    | ok _ =>
      exact Program.only_bind ⟨id, fun _ => trivial⟩ fun _ => Program.only_bind ih fun _ => trivial
    | error e =>
      exact Program.only_bind ⟨id, fun _ => trivial⟩ fun _ => Program.only_bind ih fun _ => trivial

/-- Running hooks looks, reports and invokes hooks. -/
theorem only_runHooks {A : Request → Prop} (hidle : ∀ r, r.Idle → A r)
    (hhook : ∀ name, A (.hook name)) (names : List String) : (runHooks names).Only A := by
  have hinvoke (names : List String) : (invokeEach names).Only A := by
    induction names with
    | nil => trivial
    | cons name names ih => exact ⟨hhook name, fun _ => Program.only_bind ih fun _ => trivial⟩
  exact ⟨hidle _ trivial, fun _ => Program.only_bind (hinvoke _) fun _ =>
    (idle_reportHooks _).mono hidle⟩

end Deploy

end Rollout
