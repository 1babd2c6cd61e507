import Rollout.Files.Update

/-!
Outcomes of steps taken one after the other: what is known of the parts when the whole succeeded,
for steps that only look and for steps that change the disk.
-/

namespace Rollout

variable {ε δ α β : Type}

namespace Outcome

theorem bind_eq_ok {x : Except ε α} {f : α → Except ε β} {b : β} :
    (x >>= f) = .ok b ↔ ∃ a, x = .ok a ∧ f a = .ok b := by
  cases x with
  | error e => simp [bind, Except.bind]
  | ok a => simp [bind, Except.bind]

theorem ok_bind (a : α) (f : α → Except ε β) : (Except.ok a >>= f) = f a := rfl

theorem error_bind (e : ε) (f : α → Except ε β) : (Except.error e >>= f) = .error e := rfl

theorem bind_congr_ok {x : Except ε α} {f g : α → Except ε β} (h : ∀ a, x = .ok a → f a = g a) :
    (x >>= f) = (x >>= g) := by
  cases x with
  | error e => rfl
  | ok a => exact h a rfl

theorem pure_eq_ok {a b : α} : (pure a : Except ε α) = .ok b ↔ a = b := by
  simp [pure, Except.pure]

theorem throw_ne_ok {e : ε} {b : β} : (throw e : Except ε β) ≠ .ok b := nofun

theorem throw_bind {e : ε} {f : α → Except ε β} :
    ((throw e : Except ε α) >>= f) = throw e := rfl

/-- A guard that throws was passed. -/
theorem guard_eq_ok {c : Prop} [Decidable c] {e : ε} {x : Except ε β} {b : β} :
    (if c then throw e else x) = .ok b ↔ ¬c ∧ x = .ok b := by
  by_cases h : c
  · simp [h, throw_ne_ok]
  · simp [h]

theorem mapError_eq_ok {x : Except ε α} {f : ε → δ} {a : α} :
    x.mapError f = .ok a ↔ x = .ok a := by
  cases x with
  | error e => constructor <;> intro h <;> cases h
  | ok a' => constructor <;> intro h <;> cases h <;> rfl

theorem toOption_eq_some {x : Except ε α} {a : α} : x.toOption = some a ↔ x = .ok a := by
  cases x with
  | error e => simp [Except.toOption]
  | ok b => simp [Except.toOption]

theorem ok_of_toOption {x : Except ε α} {a : α} (h : x.toOption = some a) : x = .ok a :=
  toOption_eq_some.1 h

theorem error_of_toOption {x : Except ε α} (h : x.toOption = none) : ∃ e, x = .error e := by
  cases x with
  | error e => exact ⟨e, rfl⟩
  | ok b => cases h

/-! ## On the disk -/

theorem bind_apply (d : Disk ε α) (f : α → Disk ε β) (t : FileTree) :
    (d >>= f) t =
      match d t with
      | (.ok a, t₁) => f a t₁
      | (.error e, t₁) => (.error e, t₁) := by
  simp only [bind, ExceptT.bind, ExceptT.mk, StateT.bind, ExceptT.bindCont]
  rcases d t with ⟨_ | _, t₁⟩ <;> rfl

/-- One step after another: the first failed, or both were done. -/
theorem bind_eq {d : Disk ε α} {f : α → Disk ε β} {t t' : FileTree} {r : Except ε β}
    (h : (d >>= f) t = (r, t')) :
    (∃ e, d t = (.error e, t') ∧ r = .error e) ∨ ∃ a t₁, d t = (.ok a, t₁) ∧ f a t₁ = (r, t') := by
  rw [bind_apply] at h
  split at h
  · rename_i a t₁ hd
    exact .inr ⟨a, t₁, hd, h⟩
  · rename_i e t₁ hd
    cases h
    exact .inl ⟨e, hd, rfl⟩

/-- A step after a look at the disk. -/
theorem reading_bind_eq {f : FileTree → Except ε α} {g : α → Disk ε β} {t t' : FileTree}
    {r : Except ε β} (h : (Disk.reading f >>= g) t = (r, t')) :
    (t' = t ∧ ∃ e, r = .error e) ∨ ∃ a, f t = .ok a ∧ g a t = (r, t') := by
  rcases bind_eq h with ⟨e, he, rfl⟩ | ⟨a, t₁, ha, h⟩
  · obtain ⟨-, rfl⟩ := Prod.mk.inj he
    exact .inl ⟨rfl, e, rfl⟩
  · obtain ⟨hf, rfl⟩ := Prod.mk.inj ha
    exact .inr ⟨a, hf, h⟩

theorem bind_of_ok {d : Disk ε α} {f : α → Disk ε β} {t t₁ : FileTree} {a : α}
    (h : d t = (.ok a, t₁)) : (d >>= f) t = f a t₁ := by
  rw [bind_apply, h]

theorem reading_bind_of_ok {f : FileTree → Except ε α} {g : α → Disk ε β} {t : FileTree} {a : α}
    (h : f t = .ok a) : (Disk.reading f >>= g) t = g a t :=
  bind_of_ok (show Disk.reading f t = (.ok a, t) by rw [Disk.reading, h])

/-- What a step under other words for its failures did. -/
theorem mapError_eq {d : Disk ε α} {f : ε → δ} {t t' : FileTree} {r : Except δ α}
    (h : d.mapError f t = (r, t')) :
    ∃ r', d t = (r', t') ∧ ∀ a, r = .ok a → r' = .ok a := by
  simp only [Disk.mapError] at h
  split at h
  · rename_i a t₁ hd
    cases h
    exact ⟨_, hd, fun _ h => by cases h; rfl⟩
  · rename_i e t₁ hd
    cases h
    exact ⟨_, hd, nofun⟩

theorem mapError_of_ok {d : Disk ε α} {f : ε → δ} {t t' : FileTree} {a : α}
    (h : d t = (.ok a, t')) : d.mapError f t = (.ok a, t') := by
  simp only [Disk.mapError, h]

theorem performAll_nil {t t' : FileTree} {r : Except FileError Unit}
    (h : Effect.performAll [] t = (r, t')) : t' = t ∧ r = .ok () := by
  cases h
  exact ⟨rfl, rfl⟩

theorem performAll_cons {e : Effect} {es : List Effect} {t t' : FileTree}
    {r : Except FileError Unit} (h : Effect.performAll (e :: es) t = (r, t')) :
    (e.perform t = (r, t') ∧ r ≠ .ok ()) ∨
      ∃ t₁, e.perform t = (.ok (), t₁) ∧ Effect.performAll es t₁ = (r, t') := by
  rcases bind_eq h with ⟨e, he, rfl⟩ | ⟨⟨⟩, t₁, he, hes⟩
  · exact .inl ⟨he, nofun⟩
  · exact .inr ⟨t₁, he, hes⟩

end Outcome

end Rollout
