import Rollout.Proofs.Run.Fleet
import Rollout.Proofs.Text.Split
import Rollout.Proofs.Text.Utf8

/-!
What runs owe each other. An entry of a record is genuine if its artifact is in the bucket, as
built by a compilation in which the function had the recorded fingerprint. Keys are told apart by
compilation and artifact; so if a run stores under the key of an artifact only that artifact, and
saves only genuine records, then whatever was genuine stays so for all the others. A run that keeps
to this may count on the others to keep to it as well, however their requests are mixed.

Records may be left over from before the bucket was taken down. They name a stale timestamp, and
are never believed so long as no run marks a stale timestamp as the live one.
-/

namespace Rollout.Fleet

variable {ι μ : Type} {F : Fleet ι} {stale : String → Prop} {i j : ι} {s s' s'' : Shared μ}
  {artifact artifact' entryPoint : String} {v : FunctionVersion} {hash : ContentHash}

/-! ## What stays -/

/-- Whether an artifact is in the bucket as a compilation built it. -/
def Stored (F : Fleet ι) (s : Shared μ) (i : ι) (artifact : String) : Prop :=
  s.objects (F.key i artifact) = some ((F.compilation i).artifact artifact)

/-- Whether a version of a function is in the bucket, with the bytes of a compilation in which the
function had a fingerprint. -/
def Genuine (F : Fleet ι) (s : Shared μ) (entryPoint : String) (v : FunctionVersion)
    (hash : ContentHash) : Prop :=
  ∃ i, ∃ f ∈ (F.compilation i).project.functions, f.entryPoint = entryPoint ∧
    (F.compilation i).fingerprint f = .ok hash ∧
    v = .mint (F.compilation i).project.timestamp
      (Redeploy.artifactOf (F.compilation i).project f) ∧
    F.Stored s i (Redeploy.artifactOf (F.compilation i).project f)

/-- Whether every entry of a record that has a fingerprint is genuine. -/
def Vouched (F : Fleet ι) (s : Shared μ) (r : Record) : Prop :=
  ∀ e ∈ r.functions, ∀ hash, e.2.hash = some hash → F.Genuine s e.1 e.2.version hash

/-- The timestamp that a marker names. -/
def markerText (body : ByteArray) : String := Text.trim (Text.decodeLossy body)

theorem markerText_toUTF8 (timestamp : String) :
    markerText timestamp.toUTF8 = Text.trim timestamp := by
  rw [markerText, Text.decodeLossy_toUTF8]

/-- Whether all records are genuine but the stale ones, and the marker names no stale one. -/
structure Sound (F : Fleet ι) (stale : String → Prop) (s : Shared μ) : Prop where
  vouched : ∀ m t, (s.records m).timestamp = some t → ¬stale t → F.Vouched s (s.records m)
  marker : ∀ body, s.objects markerKey = some body → ¬stale (markerText body)

/-- What runs rely on each other for: what is stored of an artifact stays, and the records are
genuine. -/
structure Preserves (F : Fleet ι) (stale : String → Prop) (s s' : Shared μ) : Prop where
  stored : ∀ i artifact, F.Stored s i artifact → F.Stored s' i artifact
  sound : F.Sound stale s'

theorem Preserves.refl (h : F.Sound stale s) : F.Preserves stale s s := ⟨fun _ _ => id, h⟩

theorem Preserves.trans (h : F.Preserves stale s s') (h' : F.Preserves stale s' s'') :
    F.Preserves stale s s'' :=
  ⟨fun i artifact hs => h'.stored i artifact (h.stored i artifact hs), h'.sound⟩

theorem Genuine.of_stored (h : F.Genuine s entryPoint v hash)
    (hstored : ∀ i artifact, F.Stored s i artifact → F.Stored s' i artifact) :
    F.Genuine s' entryPoint v hash := by
  obtain ⟨i, f, hf, hentry, hhash, hv, hin⟩ := h
  exact ⟨i, f, hf, hentry, hhash, hv, hstored _ _ hin⟩

theorem Vouched.of_stored {r : Record} (h : F.Vouched s r)
    (hstored : ∀ i artifact, F.Stored s i artifact → F.Stored s' i artifact) : F.Vouched s' r :=
  fun e he hash hhash => (h e he hash hhash).of_stored hstored

theorem Sound.empty : F.Sound stale (.empty : Shared μ) := by
  constructor
  · intro m t ht
    cases ht
  · intro body hbody
    cases hbody

/-! ## Keys -/

theorem toList_key (i : ι) (artifact : String) :
    (F.key i artifact).toList =
      (F.compilation i).project.timestamp.toList ++ '/' :: artifact.toList := by
  simp [key, FunctionVersion.mint]

/-- A key tells the compilation and the artifact. -/
theorem key_inj (h : F.key i artifact = F.key j artifact') : i = j ∧ artifact = artifact' := by
  have hsplit (k : ι) (a : String) : Text.splitFirst '/' (F.key k a).toList =
      some ((F.compilation k).project.timestamp.toList, a.toList) := by
    rw [toList_key]
    exact Text.splitFirst_append (F.noSlash k) _
  have hsame := hsplit i artifact
  rw [h, hsplit j artifact', Option.some.injEq, Prod.mk.injEq] at hsame
  exact ⟨(F.distinct _ _ (String.ext hsame.1)).symm, (String.ext hsame.2).symm⟩

theorem aside_of_not_mem {key : String} (h : '/' ∉ key.toList) : F.Aside key := by
  rintro i artifact rfl
  exact h (by simp [toList_key])

theorem key_ne_markerKey (i : ι) (artifact : String) : F.key i artifact ≠ markerKey :=
  (aside_of_not_mem (by decide) i artifact).symm

/-! ## The rules -/

/-- Whether bytes may be stored under a key: under that of an artifact only the artifact, and
under that of the marker nothing stale. -/
structure Honest (F : Fleet ι) (stale : String → Prop) (key : String) (body : ByteArray) :
    Prop where
  artifact : ∀ i artifact, key = F.key i artifact → body = (F.compilation i).artifact artifact
  marker : key = markerKey → ¬stale (markerText body)

theorem honest_artifact (i : ι) (artifact : String) :
    F.Honest stale (F.key i artifact) ((F.compilation i).artifact artifact) where
  artifact j artifact' hkey := by
    obtain ⟨rfl, rfl⟩ := key_inj hkey
    rfl
  marker hkey := absurd hkey (key_ne_markerKey i artifact)

/-- A request that a run may make at any time. -/
def Innocent (F : Fleet ι) (stale : String → Prop) : Request → Prop
  | .store (.put bucket key body) => bucket = F.bucket → F.Honest stale key body
  | .record (.save ..) => False
  | r => ¬r.Takes

theorem innocent_of_idle {r : Request} (h : r.Idle) : F.Innocent stale r := by
  cases r with
  | store c => cases c <;> first | exact h.elim | exact id
  | record c => cases c <;> first | exact h.elim | exact id
  | _ => exact id

/-- Storing what may be stored preserves all artifacts. -/
theorem preserves_put {key : String} {body : ByteArray} (hs : F.Sound stale s)
    (h : F.Honest stale key body) : F.Preserves stale s (s.put key body) := by
  have hstored (i : ι) (artifact : String) (hin : F.Stored s i artifact) :
      F.Stored (s.put key body) i artifact := by
    by_cases hkey : F.key i artifact = key
    · simp [Stored, hkey, h.artifact i artifact hkey.symm]
    · simpa [Stored, Function.update_of_ne hkey] using hin
  refine ⟨hstored, fun m t ht hfresh => (hs.vouched m t ht hfresh).of_stored hstored, ?_⟩
  intro found hfound
  by_cases hkey : markerKey = key
  · subst hkey
    rw [Shared.put_objects, Function.update_self, Option.some.injEq] at hfound
    exact hfound ▸ h.marker rfl
  · rw [Shared.put_objects, Function.update_of_ne hkey] at hfound
    exact hs.marker found hfound

variable [DecidableEq μ] {post : Post ι μ} {α β : Type}

/-- Saving a genuine record preserves that all are. -/
theorem preserves_save {m : μ} {r : Record} (hs : F.Sound stale s) (h : F.Vouched s r) :
    F.Preserves stale s (s.save m r) := by
  refine ⟨fun _ _ => id, fun m' t ht hfresh => ?_, hs.marker⟩
  rw [Shared.save_records] at ht ⊢
  by_cases hm : m' = m
  · rw [hm, Function.update_self]
    exact h.of_stored fun _ _ => id
  · rw [Function.update_of_ne hm] at ht ⊢
    exact (hs.vouched m' t ht hfresh).of_stored fun _ _ => id

/-- The rules runs keep to. A run cannot know what others do between two of its requests but that
they keep to the rules too. -/
def sharing (F : Fleet ι) (stale : String → Prop) (post : Post ι μ) : Protocol (Shared μ) where
  allowed s r :=
    match r with
    | .record (.save _ r) => F.Vouched s r
    | r => F.Innocent stale r
  after s r a s' := ∃ now, F.Preserves stale s now ∧ F.Answers post r now a s'

theorem allowed_of_innocent {r : Request} (h : F.Innocent stale r) :
    (F.sharing stale post).allowed s r := by
  cases r with
  | record c =>
    cases c with
    | save stage r => exact h.elim
    | _ => exact h
  | _ => exact h

/-- What a run does by the rules preserves what the others rely on. -/
theorem preserves_of_answers {now : Shared μ} {r : Request} {a : r.Answer}
    (hallowed : (F.sharing stale post).allowed s r) (hnow : F.Preserves stale s now)
    (ha : F.Answers post r now a s') : F.Preserves stale now s' := by
  have hsame (h : s' = now) : F.Preserves stale now s' := by
    rw [h]
    exact .refl hnow.sound
  cases r with
  | store c =>
    cases c with
    | put bucket key body =>
      rcases ha with ⟨hs, -⟩ | ⟨hbucket, rfl⟩
      · exact hsame hs
      · exact preserves_put hnow.sound (hallowed hbucket)
    | get bucket key => exact hsame ha.1
    | url bucket key => exact hsame ha
    | listObjects bucket token => exact hsame ha.1
    | listVersions bucket cursor => exact hsame ha.1
    | delete bucket key => exact absurd trivial hallowed
    | deleteVersion bucket key id => exact absurd trivial hallowed
    | deleteBucket bucket => exact absurd trivial hallowed
  | stack c =>
    cases c with
    | listExports token => exact hsame ha.1
    | _ => exact hsame ha
  | hook name => exact hsame ha
  | record c =>
    cases c with
    | load stage => exact hsame ha.1
    | save stage r =>
      rcases ha with ⟨hs, -⟩ | ⟨-, rfl⟩
      · exact hsame hs
      · exact preserves_save hnow.sound (Vouched.of_stored hallowed hnow.stored)
    | delete stage => exact absurd trivial hallowed
  | onMachine c =>
    cases c with
    | template kind stage => exact hsame ha
    | _ => exact hsame ha.1
  | control c => exact hsame ha

theorem preserves_of_after {r : Request} {a : r.Answer}
    (hallowed : (F.sharing stale post).allowed s r)
    (h : (F.sharing stale post).after s r a s') : F.Preserves stale s s' := by
  obtain ⟨now, hnow, ha⟩ := h
  exact hnow.trans (preserves_of_answers hallowed hnow ha)

/-! ## Runs by the rules -/

/-- Whatever a run by the rules does, it and the others preserve what it relies on. -/
theorem preserves_of_follows {p : Program α} {Q : α → Shared μ → Prop}
    (hs : F.Preserves stale s s') (h : p.Follows (F.sharing stale post) Q s') :
    p.Follows (F.sharing stale post) (fun a s'' => F.Preserves stale s s'' ∧ Q a s'') s' := by
  induction p generalizing s' with
  | done a => exact ⟨hs, h⟩
  | ask r next ih =>
    obtain ⟨hallowed, hnext⟩ := h
    exact ⟨hallowed, fun a s'' ha =>
      ih a (hs.trans (preserves_of_after hallowed ha)) (hnext a s'' ha)⟩
  | unfinished => trivial

/-- One part of a run after the other. -/
theorem follows_bind {p : Run α} {f : α → Run β} {Q : α → Shared μ → Prop}
    {R : β → Shared μ → Prop} (hs : F.Sound stale s) (hp : p.Follows (F.sharing stale post) Q s)
    (hf : ∀ a s', F.Preserves stale s s' → Q a s' → (f a).Follows (F.sharing stale post) R s') :
    (p >>= f).Follows (F.sharing stale post) R s := by
  refine Run.Follows.bind (Q := fun a s' => F.Preserves stale s s' ∧ Q a s') ?_
    fun a s' h => hf a s' h.1 h.2
  exact Program.Follows.mono (preserves_of_follows (.refl hs) hp)
    fun r s' h a ha => ⟨h.1, h.2 a ha⟩

theorem follows_of_innocent {p : Run α} (h : p.Only (F.Innocent stale)) :
    p.Follows (F.sharing stale post) (fun _ _ => True) s :=
  h.follows (R := fun _ => True)
    (fun _ _ _ hr => ⟨allowed_of_innocent hr, fun _ _ _ => trivial⟩) trivial

omit [DecidableEq μ] in
theorem only_innocent {p : Run α} (h : p.Only Request.Idle) : p.Only (F.Innocent stale) :=
  Program.Only.mono h fun _ => innocent_of_idle

theorem follows_of_idle {p : Run α} (h : p.Only Request.Idle) :
    p.Follows (F.sharing stale post) (fun _ _ => True) s :=
  follows_of_innocent (only_innocent h)

end Rollout.Fleet
