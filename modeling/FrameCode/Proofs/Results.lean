/-!
# Results

When a mapped result is a value, and the relation of two results that are the same error or have
related values.
-/

namespace FrameCode

variable {ε ε' α β γ δ : Type}

theorem map_eq_ok_iff {f : α → β} {r : Except ε α} {b : β} :
    r.map f = .ok b ↔ ∃ a, r = .ok a ∧ f a = b := by
  cases r <;> simp [Except.map]

theorem map_eq_error_iff {f : α → β} {r : Except ε α} {e : ε} :
    r.map f = .error e ↔ r = .error e := by
  cases r <;> simp [Except.map]

theorem mapError_eq_ok_iff {f : ε → ε'} {r : Except ε α} {a : α} :
    r.mapError f = .ok a ↔ r = .ok a := by
  cases r with
  | ok b =>
    constructor
    · intro mapped
      exact congrArg Except.ok (Except.ok.inj mapped)
    · rintro ⟨⟩
      rfl
  | error e => constructor <;> rintro ⟨⟩

theorem mapError_eq_error_iff {f : ε → ε'} {r : Except ε α} {e' : ε'} :
    r.mapError f = .error e' ↔ ∃ e, r = .error e ∧ f e = e' := by
  cases r with
  | ok a =>
    constructor
    · rintro ⟨⟩
    · rintro ⟨e, ⟨⟩, -⟩
  | error e =>
    constructor
    · intro mapped
      exact ⟨e, rfl, Except.error.inj mapped⟩
    · rintro ⟨e, ⟨⟩, rfl⟩
      rfl

theorem mapError_map (g : ε → ε') (f : α → β) (r : Except ε α) :
    (r.map f).mapError g = (r.mapError g).map f := by
  cases r <;> rfl

/-- The results are the same error, or both are values, and those are related. -/
inductive Agree (R : α → β → Prop) : Except ε α → Except ε β → Prop
  | ok {a : α} {b : β} : R a b → Agree R (.ok a) (.ok b)
  | error (e : ε) : Agree R (.error e) (.error e)

namespace Agree

variable {R : α → β → Prop} {S : γ → δ → Prop}

theorem map {r : Except ε α} {r' : Except ε β} (agree : Agree R r r') {f : α → γ} {g : β → δ}
    (related : ∀ a b, R a b → S (f a) (g b)) : Agree S (r.map f) (r'.map g) := by
  cases agree with
  | ok rel => exact .ok (related _ _ rel)
  | error e => exact .error e

theorem mapError {r : Except ε α} {r' : Except ε β} (agree : Agree R r r') (f : ε → ε') :
    Agree R (r.mapError f) (r'.mapError f) := by
  cases agree with
  | ok rel => exact .ok rel
  | error e => exact .error (f e)

theorem of_eq {r r' : Except ε α} (eq : r = r') : Agree Eq r r' := by
  subst eq
  cases r with
  | ok a => exact .ok rfl
  | error e => exact .error e

/-- Equal results agree, if the relation holds of each value with itself. -/
theorem of_eq_of {R : α → α → Prop} {r r' : Except ε α} (eq : r = r')
    (refl : ∀ a, r = .ok a → R a a) : Agree R r r' := by
  subst eq
  cases r with
  | ok a => exact .ok (refl a rfl)
  | error e => exact .error e

theorem cases {r : Except ε α} {r' : Except ε β} (agree : Agree R r r') :
    (∃ e, r = .error e ∧ r' = .error e) ∨ ∃ a b, r = .ok a ∧ r' = .ok b ∧ R a b := by
  cases agree with
  | ok rel => exact .inr ⟨_, _, rfl, rfl, rel⟩
  | error e => exact .inl ⟨e, rfl, rfl⟩

end Agree

theorem rel_cases {R : α → β → Prop} {a? : Option α} {b? : Option β} (rel : Option.Rel R a? b?) :
    (a? = none ∧ b? = none) ∨ ∃ a b, a? = some a ∧ b? = some b ∧ R a b := by
  cases rel with
  | some rel => exact .inr ⟨_, _, rfl, rfl, rel⟩
  | none => exact .inl ⟨rfl, rfl⟩

end FrameCode
