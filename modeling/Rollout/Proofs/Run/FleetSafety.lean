import Rollout.Proofs.Run.SharedDeploy

/-!
No stale artifact is reused where the bucket is never taken down. However the requests of runs are
mixed, each run stands by the rules as of its last answer, and the others only add to what it knew
then; so all records are genuine all the time, and with them all that is reused.
-/

namespace Rollout.Fleet

variable {ι μ : Type} {F : Fleet ι} {i : ι} {s s' : Shared μ} [DecidableEq μ]

/-- Where the bucket is never taken down, no timestamp is stale. -/
def Never (_ : String) : Prop := False

omit [DecidableEq μ] in
theorem live_never : F.Live Never i := ⟨id, fun _ _ _ _ => id⟩

/-- Where a run stands by the rules, as of its last answer: it is going to decide upon a genuine
record, or has. -/
def Phase.Follows (F : Fleet ι) (post : Post ι μ) (s : Shared μ) : Phase → Prop
  | deciding rest =>
    rest.Follows (F.sharing Never post) (fun r s' => ∀ p, r = .ok p → F.Ready post s' p) s
  | decided p rest => F.Ready post s p ∧ rest.Follows (F.sharing Never post) (fun _ _ => True) s

/-- Whether a run stands by the rules, whatever others have done since its last answer. -/
def Complies (F : Fleet ι) (s : Shared μ) (party : Party ι μ) : Prop :=
  ∃ last, F.Preserves Never last s ∧ party.phase.Follows F party.post last

theorem Complies.of_preserves {party : Party ι μ} (h : F.Complies s party)
    (hs : F.Preserves Never s s') : F.Complies s' party := by
  obtain ⟨last, hlast, hphase⟩ := h
  exact ⟨last, hlast.trans hs, hphase⟩

theorem complies_begin (hs : F.Sound Never s) (post : Post ι μ) (patience : Nat)
    (skipHooks : Bool) : F.Complies s (F.begin post patience skipHooks) :=
  ⟨s, .refl hs, follows_prepare _ hs⟩

/-- A step of a run preserves what the others rely on, and the run stays by the rules. -/
theorem Complies.moves {party : Party ι μ} {phase : Phase} (h : F.Complies s party)
    (hmoves : F.Moves party s phase s') :
    F.Preserves Never s s' ∧ F.Complies s' { party with phase } := by
  obtain ⟨last, hlast, hphase⟩ := h
  cases hmoves with
  | deciding heq ha =>
    rw [heq] at hphase
    obtain ⟨hallowed, hnext⟩ := hphase
    have hs := preserves_of_answers hallowed hlast ha
    exact ⟨hs, s', .refl hs.sound, hnext _ _ ⟨s, hlast, ha⟩⟩
  | decide heq =>
    rw [heq] at hphase
    have hready := (hphase _ rfl).of_preserves hlast
    have hs := Preserves.refl hlast.sound
    exact ⟨hs, s, hs, hready,
      Program.Follows.mono (follows_proceed hlast.sound rfl live_never hready) fun _ _ _ => trivial⟩
  | decided heq ha =>
    rw [heq] at hphase
    obtain ⟨hready, hallowed, hnext⟩ := hphase
    have hs := preserves_of_answers hallowed hlast ha
    exact ⟨hs, s', .refl hs.sound, hready.of_preserves (hlast.trans hs), hnext _ _ ⟨s, hlast, ha⟩⟩

/-- Whatever runs do side by side, all records are genuine and all runs stand by the rules. -/
theorem sound_of_reached {S : System ι μ} (h : F.Reached S) :
    F.Sound Never S.shared ∧ ∀ party ∈ S.parties, F.Complies S.shared party := by
  induction h with
  | start => exact ⟨Sound.empty, nofun⟩
  | join post patience skipHooks _ ih =>
    obtain ⟨hsound, hparties⟩ := ih
    exact ⟨hsound, List.forall_mem_cons.2 ⟨complies_begin hsound .., hparties⟩⟩
  | @move s s' before after party phase _ hmoves ih =>
    obtain ⟨hsound, hparties⟩ := ih
    obtain ⟨hs, hmoved⟩ := (hparties party (by simp)).moves hmoves
    refine ⟨hs.sound, fun other hother => ?_⟩
    rcases List.mem_append.1 hother with hother | hother
    · exact (hparties other (by simp [hother])).of_preserves hs
    rcases List.mem_cons.1 hother with rfl | hother
    · exact hmoved
    · exact (hparties other (by simp [hother])).of_preserves hs

/-- No stale artifact is reused: when a run has decided that a function keeps a version, the
bucket has the version, with the bytes of a compilation in which the function had the fingerprint
it has now. -/
theorem genuine_of_reused {S : System ι μ} {party : Party ι μ} {p : Deploy.Prepared}
    {rest : Program (Except Failure DeployReport)} {f : FunctionSpec} (hS : F.Reached S)
    (hparty : party ∈ S.parties) (hphase : party.phase = .decided p rest)
    (hf : f ∈ p.project.active F.stage) (hreused : f.entryPoint ∈ p.plan.reused) :
    ∃ v hash, p.plan.record.get? f.entryPoint = some ⟨v, some hash⟩ ∧
      (F.compilation party.post.compilation).fingerprint f = .ok hash ∧
      F.Genuine S.shared f.entryPoint v hash := by
  obtain ⟨last, hlast, hfollows⟩ := (sound_of_reached hS).2 party hparty
  rw [hphase] at hfollows
  exact (hfollows.1.of_preserves hlast).genuine hf hreused

namespace Sample

/-- What the deploy of the first compilation leaves. -/
def left : Shared Bool := ((deployed false).outcome (world false false) .empty).2

theorem first_run :
    (((deployed false).outcome (world false false) .empty).1.any fun r => r.isOk) = true := by
  decide +kernel

theorem second_run : ((prepared.outcome (world false true) left).1.any fun r =>
    r.toOption.any fun p =>
      p.plan.reused = ["cart"] && (p.project.active .dev).contains (function "cart")) = true := by
  decide +kernel

/-- The first compilation deployed, and a run of the second that has decided to keep the cart. -/
theorem reached : ∃ (s : Shared Bool) (before : Party Bool Bool) (p : Deploy.Prepared)
    (rest : Program (Except Failure DeployReport)),
    fleet.Reached ⟨s, [⟨runner false true, 10, true, .decided p rest⟩, before]⟩ ∧
      function "cart" ∈ p.project.active .dev ∧ "cart" ∈ p.plan.reused := by
  obtain ⟨r, hfirst, hok⟩ := (Option.any_eq_true ..).1 first_run
  obtain ⟨r', hsecond, hreused⟩ := (Option.any_eq_true ..).1 second_run
  cases r with
  | error e => cases hok
  | ok report =>
    cases r' with
    | error e => cases hreused
    | ok p =>
      obtain ⟨before, hleft⟩ := Reached.start.deploy (hosts false false) (Prod.ext hfirst rfl)
      obtain ⟨hp, hactive⟩ := Bool.and_eq_true_iff.1 hreused
      refine ⟨_, before, p, _, hleft.prepare (hosts false true) (Prod.ext hsecond rfl), ?_, ?_⟩
      · exact List.contains_iff_mem.1 hactive
      · rw [of_decide_eq_true hp]
        exact List.mem_singleton_self _

end Sample

theorem genuine_of_reused_sample :
    ∃ (s : Shared Bool) (before : Party Bool Bool) (p : Deploy.Prepared)
      (rest : Program (Except Failure DeployReport)) (v : FunctionVersion) (hash : ContentHash),
      Sample.fleet.Reached ⟨s, [⟨Sample.runner false true, 10, true, .decided p rest⟩, before]⟩ ∧
        "cart" ∈ p.plan.reused ∧ p.plan.record.get? "cart" = some ⟨v, some hash⟩ ∧
        (Sample.compilation true).fingerprint (Sample.function "cart") = .ok hash ∧
        Sample.fleet.Genuine s "cart" v hash := by
  obtain ⟨s, before, p, rest, hS, hactive, hreused⟩ := Sample.reached
  obtain ⟨v, hash, hrecord, hcurrent, hgenuine⟩ :=
    genuine_of_reused hS List.mem_cons_self rfl hactive hreused
  exact ⟨s, before, p, rest, v, hash, hS, hreused, hrecord, hcurrent, hgenuine⟩

end Rollout.Fleet
