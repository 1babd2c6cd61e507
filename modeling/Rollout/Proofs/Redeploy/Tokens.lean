import Rollout.Proofs.Redeploy.Decision
import Rollout.Proofs.Substitution

/-!
The tokens of a plan. The versions of the active functions are bound to their tokens one after the
other, so of the functions that share a token the last one has it, and an empty token is not bound
at all. A valid project may have both. A token stands for the version of its function exactly if the
last function with that token has the same version.
-/

namespace Rollout.Redeploy

variable {p : Project} {stage : Stage} {previous : Record} {marker : Option String}
  {hasher : FunctionSpec → Except HashError ContentHash} {f g : FunctionSpec} {token : String}

/-- The last active function of a stage with a token. -/
def lastHolder? (p : Project) (stage : Stage) (token : String) : Option FunctionSpec :=
  (p.active stage).reverse.find? fun f => f.versionToken == token

/-- The version that the record of a plan has for a function. -/
def versionOf? (plan : RedeployPlan) (f : FunctionSpec) : Option String :=
  (plan.record.get? f.entryPoint).map fun d => d.version.key

/-! ## The last function with a token -/

theorem lookup_map_versionToken (fs : List FunctionSpec) (version : FunctionSpec → String)
    (token : String) :
    (fs.map fun f => (f.versionToken, version f)).lookup token =
      (fs.find? fun f => f.versionToken == token).map version := by
  induction fs with
  | nil => rfl
  | cons f fs ih =>
    rw [List.map_cons, List.lookup_cons, List.find?_cons, ih, Bool.beq_comm]
    cases f.versionToken == token with
    | true => rfl
    | false => rfl

theorem lastHolder?_spec (h : lastHolder? p stage token = some g) :
    g ∈ p.active stage ∧ g.versionToken = token := by
  refine ⟨List.mem_reverse.1 (List.mem_of_find?_eq_some h), ?_⟩
  simpa using List.find?_some h

theorem exists_lastHolder? (hf : f ∈ p.active stage) :
    ∃ g, lastHolder? p stage f.versionToken = some g :=
  Option.isSome_iff_exists.1 (List.find?_isSome.2 ⟨f, List.mem_reverse.2 hf, by simp⟩)

/-! ## What is bound -/

/-- The version of an active function, from the decision on it. -/
theorem versionOf?_plan (hp : p.fault? = none) (hf : f ∈ p.active stage) :
    versionOf? (plan p stage previous marker hasher) f =
      some (decisionOf p previous hasher (mode p previous marker) f).deployed.version.key := by
  rw [versionOf?, get?_record hp hf]
  rfl

theorem ordered_tokens_plan :
    (plan p stage previous marker hasher).tokens.bindings.Ordered :=
  Substitutions.bindings_ofList _

/-- A token has the version of the last function with it. -/
theorem get?_tokens_plan (hp : p.fault? = none) (htoken : token ≠ "") :
    (plan p stage previous marker hasher).tokens.get? token =
      (lastHolder? p stage token).bind (versionOf? (plan p stage previous marker hasher)) := by
  rw [tokens_plan, Substitutions.get?_ofList, if_neg htoken, ← List.map_reverse]
  refine (lookup_map_versionToken _ (fun f =>
    (decisionOf p previous hasher (mode p previous marker) f).deployed.version.key) _).trans ?_
  rw [← lastHolder?]
  cases hlast : lastHolder? p stage token with
  | none => rfl
  | some g => exact (versionOf?_plan hp (lastHolder?_spec hlast).1).symm

/-- A function whose token is bound to its version has it in place of the token. -/
theorem render_versionToken (hp : p.fault? = none) (hf : f ∈ p.active stage)
    (h : (plan p stage previous marker hasher).tokens.get? f.versionToken =
      versionOf? (plan p stage previous marker hasher) f) :
    some ((plan p stage previous marker hasher).tokens.render f.versionToken) =
      versionOf? (plan p stage previous marker hasher) f := by
  rw [versionOf?_plan hp hf] at h ⊢
  rw [Substitutions.render_token ordered_tokens_plan h]

/-- Where all functions share an artifact, they share its version. -/
theorem versionOf?_shared (hp : p.fault? = none) (hassemble : p.assemble = false)
    (hf : f ∈ p.active stage) (hg : g ∈ p.active stage) :
    versionOf? (plan p stage previous marker hasher) f =
      versionOf? (plan p stage previous marker hasher) g := by
  have hmode (h : FunctionSpec) : ¬Keeps previous hasher (mode p previous marker) h := fun hkeeps => by
    have := (mode_eq_incremental.1 hkeeps.1).1
    rw [hassemble] at this
    cases this
  obtain ⟨artifact, hartifact, hversion⟩ := freshVersion_eq hp f
  obtain ⟨artifact', hartifact', hversion'⟩ := freshVersion_eq hp g
  rw [hassemble, if_neg Bool.false_ne_true] at hartifact hartifact'
  rw [versionOf?_plan hp hf, versionOf?_plan hp hg, deployed_of_not_keeps (hmode f),
    deployed_of_not_keeps (hmode g), hversion, hversion',
    Option.some.inj (hartifact.symm.trans hartifact')]

/-! ## The tokens as a whole -/

/-- What the tokens of a plan have to say about the functions that are active in the stage. -/
structure Binds (p : Project) (stage : Stage) (plan : RedeployPlan) : Prop where
  /-- Every active function has a version. -/
  recorded : ∀ f ∈ p.active stage, ∃ version, versionOf? plan f = some version
  /-- Of the functions with one token, the last one has it; there is no other token. -/
  value (token : String) : plan.tokens.get? token =
    if token = "" then none else (lastHolder? p stage token).bind (versionOf? plan)
  /-- So a function has its own token unless the last function with it has another version. -/
  own : ∀ f ∈ p.active stage, plan.tokens.get? f.versionToken = versionOf? plan f ↔
    f.versionToken ≠ "" ∧ ∃ g, lastHolder? p stage f.versionToken = some g ∧
      versionOf? plan g = versionOf? plan f
  /-- A token that is not empty and no other function's stands for the version of its function. -/
  apart : ∀ f ∈ p.active stage, f.versionToken ≠ "" →
    (∀ g ∈ p.active stage, g.versionToken = f.versionToken → g = f) →
      plan.tokens.get? f.versionToken = versionOf? plan f
  /-- So does every token that is not empty where the functions share an artifact. -/
  shared : p.assemble = false → ∀ f ∈ p.active stage, f.versionToken ≠ "" →
    plan.tokens.get? f.versionToken = versionOf? plan f
  /-- The text of a token becomes what the token is bound to. -/
  rendered : ∀ f ∈ p.active stage, plan.tokens.get? f.versionToken = versionOf? plan f →
    some (plan.tokens.render f.versionToken) = versionOf? plan f

/-- The tokens of a valid project, whatever the record, the marker and the hasher are. -/
theorem plan_binds (p : Project) (hp : p.fault? = none) (stage : Stage) (previous : Record)
    (marker : Option String) (hasher : FunctionSpec → Except HashError ContentHash) :
    Binds p stage (plan p stage previous marker hasher) := by
  have hvalue (token : String) : (plan p stage previous marker hasher).tokens.get? token =
      if token = "" then none
      else (lastHolder? p stage token).bind (versionOf? (plan p stage previous marker hasher)) := by
    split
    · rename_i hempty
      rw [hempty, Substitutions.get?_empty]
    · rename_i hne
      exact get?_tokens_plan hp hne
  have hown (f : FunctionSpec) (hf : f ∈ p.active stage) :
      (plan p stage previous marker hasher).tokens.get? f.versionToken =
          versionOf? (plan p stage previous marker hasher) f ↔
        f.versionToken ≠ "" ∧ ∃ g, lastHolder? p stage f.versionToken = some g ∧
          versionOf? (plan p stage previous marker hasher) g =
            versionOf? (plan p stage previous marker hasher) f := by
    obtain ⟨g, hlast⟩ := exists_lastHolder? hf
    rw [hvalue, hlast, Option.bind_some]
    split
    · rename_i hempty
      simp [hempty, versionOf?_plan hp hf]
    · rename_i hne
      simp [hne]
  refine ⟨fun f hf => ⟨_, versionOf?_plan hp hf⟩, hvalue, hown, ?_, ?_,
    fun f hf => render_versionToken hp hf⟩
  · intro f hf hne honly
    obtain ⟨g, hlast⟩ := exists_lastHolder? hf
    obtain ⟨hg, htoken⟩ := lastHolder?_spec hlast
    exact (hown f hf).2 ⟨hne, g, hlast, by rw [honly g hg htoken]⟩
  · intro hassemble f hf hne
    obtain ⟨g, hlast⟩ := exists_lastHolder? hf
    exact (hown f hf).2
      ⟨hne, g, hlast, versionOf?_shared hp hassemble (lastHolder?_spec hlast).1 hf⟩

theorem plan_binds_sample :
    Sample.project.fault? = none ∧
      Binds Sample.project .dev (plan Sample.project .dev Sample.recorded (some "t1") Sample.hashes) :=
  have hp : Sample.project.fault? = none := by decide
  ⟨hp, plan_binds _ hp _ _ _ _⟩

namespace Sample

/-- A project whose cart and payment function are to be told apart by one token, and whose mail
function has none. -/
def oneToken : Project :=
  { project with functions :=
      [{ function "cart" ["dev"] with versionToken := "V" },
        { function "pay" ["dev"] with versionToken := "V" },
        { function "mail" ["dev"] with versionToken := "" }] }

end Sample

/-- A valid project in which the token of the cart stands for another function's version, and the
mail function has a version but no binding. -/
theorem token_overwritten :
    Sample.oneToken.fault? = none ∧
      ∃ cart ∈ Sample.oneToken.active .dev, ∃ mail ∈ Sample.oneToken.active .dev,
        versionOf? (plan Sample.oneToken .dev .empty none Sample.hashes) cart = some "t2/cart.zip" ∧
          (plan Sample.oneToken .dev .empty none Sample.hashes).tokens.get? cart.versionToken =
            some "t2/pay.zip" ∧
          versionOf? (plan Sample.oneToken .dev .empty none Sample.hashes) mail =
            some "t2/mail.zip" ∧
          (plan Sample.oneToken .dev .empty none Sample.hashes).tokens.get? mail.versionToken =
            none :=
  ⟨by decide, { Sample.function "cart" ["dev"] with versionToken := "V" }, by decide,
    { Sample.function "mail" ["dev"] with versionToken := "" }, by decide, by decide, by decide,
    by decide, by decide⟩

end Rollout.Redeploy
