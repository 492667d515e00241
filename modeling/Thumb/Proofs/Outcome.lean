import Mathlib.Data.List.Forall2

/-! Computations that can be refused. A sequence of them succeeds exactly when each one does, so a
success can be taken apart into the successes it was made of. -/
namespace Thumb

variable {ε δ γ α β : Type}

@[simp] theorem bind_eq_ok_iff {x : Except ε α} {f : α → Except ε β} {b : β} :
    x >>= f = .ok b ↔ ∃ a, x = .ok a ∧ f a = .ok b := by
  cases x <;> simp [bind, Except.bind]

@[simp] theorem map_eq_ok_iff {x : Except ε α} {f : α → β} {b : β} :
    x.map f = .ok b ↔ ∃ a, x = .ok a ∧ f a = b := by
  cases x <;> simp [Except.map]

@[simp] theorem mapError_eq_ok_iff {x : Except ε α} {f : ε → δ} {a : α} :
    x.mapError f = .ok a ↔ x = .ok a := by
  cases x <;> simp [Except.mapError]

@[simp] theorem pure_eq_ok_iff {a b : α} : (pure a : Except ε α) = .ok b ↔ a = b := by
  simp [pure, Except.pure]

@[simp] theorem throw_eq_ok_iff {a : α} {e : ε} : throw e = (.ok a : Except ε α) ↔ False :=
  iff_of_false nofun id

@[simp] theorem guard_eq_ok_iff {p : Prop} [Decidable p] {a b : α} {e : ε} :
    (if p then .ok a else .error e : Except ε α) = .ok b ↔ p ∧ a = b := by
  split <;> simp [*]

theorem mapM_eq_ok_iff {f : α → Except ε β} {as : List α} {bs : List β} :
    as.mapM f = .ok bs ↔ List.Forall₂ (fun a b => f a = .ok b) as bs := by
  induction as generalizing bs with
  | nil => cases bs <;> simp
  | cons a as ih =>
    rw [List.mapM_cons, bind_eq_ok_iff]
    constructor
    · rintro ⟨b, hb, h⟩
      obtain ⟨tail, htail, h⟩ := bind_eq_ok_iff.mp h
      rw [← pure_eq_ok_iff.mp h]
      exact .cons hb (ih.mp htail)
    · rintro (_ | ⟨hb, htail⟩)
      exact ⟨_, hb, bind_eq_ok_iff.mpr ⟨_, ih.mpr htail, rfl⟩⟩

/-- Each member of the second of two related lists is related to a member of the first. -/
theorem exists_of_mem_right {R : α → β → Prop} {as : List α} {bs : List β} {b : β}
    (h : List.Forall₂ R as bs) (hb : b ∈ bs) : ∃ a ∈ as, R a b := by
  induction h with
  | nil => cases hb
  | @cons a b' as bs hab _ ih =>
    rcases List.mem_cons.mp hb with rfl | hb
    · exact ⟨a, List.mem_cons_self, hab⟩
    · obtain ⟨a', ha', hab'⟩ := ih hb
      exact ⟨a', List.mem_cons_of_mem _ ha', hab'⟩

theorem exists_of_mem_results {f : α → Except ε β} {as : List α} {bs : List β} {b : β}
    (h : List.Forall₂ (fun a b => f a = .ok b) as bs) (hb : b ∈ bs) : ∃ a, f a = .ok b := by
  obtain ⟨a, -, hab⟩ := exists_of_mem_right h hb
  exact ⟨a, hab⟩

theorem forM_eq_ok_iff {f : α → Except ε Unit} {as : List α} :
    as.forM f = .ok () ↔ ∀ a ∈ as, f a = .ok () := by
  induction as with
  | nil => simp
  | cons a as ih =>
    rw [List.forall_mem_cons, ← ih]
    simp only [List.forM_eq_forM, List.forM_cons, bind_eq_ok_iff]
    constructor
    · rintro ⟨⟨⟩, ha, has⟩
      exact ⟨ha, has⟩
    · rintro ⟨ha, has⟩
      exact ⟨(), ha, has⟩

/-- What succeeds for one value only is refused when it is not that one. -/
theorem exists_error_of_forall_ne_ok {x : Except ε α} (h : ∀ a, x ≠ .ok a) : ∃ e, x = .error e := by
  cases x with
  | error e => exact ⟨e, rfl⟩
  | ok a => exact absurd rfl (h a)

@[simp] theorem mapError_eq_error_iff {x : Except ε α} {k : ε → δ} {d : δ} :
    x.mapError k = .error d ↔ ∃ e, x = .error e ∧ k e = d := by
  cases x <;> simp [Except.mapError]

theorem bind_eq_error_iff {x : Except ε α} {f : α → Except ε β} {e : ε} :
    x >>= f = .error e ↔ x = .error e ∨ ∃ a, x = .ok a ∧ f a = .error e := by
  cases x <;> simp [bind, Except.bind]

theorem map_eq_error_iff {x : Except ε α} {f : α → β} {e : ε} :
    x.map f = .error e ↔ x = .error e := by
  cases x <;> simp [Except.map]

/-- A list of checks is refused for the first member that does not pass. -/
theorem forM_eq_error_iff {f : α → Except ε Unit} {as : List α} {e : ε} :
    as.forM f = .error e ↔
      ∃ pre a post, as = pre ++ a :: post ∧ (∀ b ∈ pre, f b = .ok ()) ∧ f a = .error e := by
  induction as with
  | nil => simp [pure, Except.pure]
  | cons a as ih =>
    rw [List.forM_eq_forM] at ih ⊢
    rw [List.forM_cons, bind_eq_error_iff, ih]
    constructor
    · rintro (ha | ⟨⟨⟩, ha, pre, b, post, rfl, hpre, hb⟩)
      · exact ⟨[], a, as, rfl, by simp, ha⟩
      · exact ⟨a :: pre, b, post, rfl, List.forall_mem_cons.mpr ⟨ha, hpre⟩, hb⟩
    · rintro ⟨pre, b, post, has, hpre, hb⟩
      cases pre with
      | nil =>
        obtain ⟨rfl, -⟩ := List.cons.inj has
        exact .inl hb
      | cons a' pre =>
        obtain ⟨rfl, rfl⟩ := List.cons.inj has
        obtain ⟨ha, hpre⟩ := List.forall_mem_cons.mp hpre
        exact .inr ⟨(), ha, pre, b, post, rfl, hpre, hb⟩

theorem mapError_mapError (x : Except ε α) (k : ε → δ) (k' : δ → γ) :
    (x.mapError k).mapError k' = x.mapError fun e => k' (k e) := by cases x <;> rfl

theorem mapError_map (x : Except ε α) (f : α → β) (k : ε → δ) :
    (x.map f).mapError k = (x.mapError k).map f := by cases x <;> rfl

theorem toOption_mapError (x : Except ε α) (k : ε → δ) : (x.mapError k).toOption = x.toOption := by
  cases x <;> rfl

theorem mapError_bind (x : Except ε α) (f : α → Except ε β) (k : ε → δ) :
    (x >>= f).mapError k = x.mapError k >>= fun a => (f a).mapError k := by cases x <;> rfl

/-- What comes next matters only after a success. -/
theorem mapError_bind_congr {x : Except ε α} {f g : α → Except ε β} {k : ε → δ}
    (h : ∀ a, x = .ok a → (f a).mapError k = (g a).mapError k) :
    (x >>= f).mapError k = (x >>= g).mapError k := by
  cases x with
  | error e => rfl
  | ok a => exact h a rfl

/-- Where all refusals count as one, the successes determine the outcome. -/
theorem mapError_const_congr {x y : Except ε α} (d : δ) (h : ∀ a, x = .ok a ↔ y = .ok a) :
    x.mapError (fun _ => d) = y.mapError fun _ => d := by
  cases hx : x with
  | ok a => rw [(h a).mp hx]
  | error e =>
    obtain ⟨e', he'⟩ : ∃ e', y = .error e' := by
      refine exists_error_of_forall_ne_ok ?_
      intro a ha
      cases hx.symm.trans ((h a).mpr ha)
    rw [he']
    rfl

end Thumb
