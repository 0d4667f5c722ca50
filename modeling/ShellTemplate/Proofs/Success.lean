/-!
# Results that succeed

When a chain of steps that may fail gives a result, each of its steps gave one.
Two chains have the same outcome when both fail in the same way or give results
that are related.
-/

namespace ShellTemplate

variable {ε ε' α α' β β' : Type}

theorem map_eq_ok_iff {f : α → β} {x : Except ε α} {b : β} :
    x.map f = .ok b ↔ ∃ a, x = .ok a ∧ f a = b := by
  cases x <;> simp [Except.map]

theorem bind_eq_ok_iff {f : α → Except ε β} {x : Except ε α} {b : β} :
    x >>= f = .ok b ↔ ∃ a, x = .ok a ∧ f a = .ok b := by
  cases x <;> simp [bind, Except.bind]

theorem map_bind {f : α → α'} {g : α' → Except ε β} {x : Except ε α} :
    x.map f >>= g = x >>= fun a ↦ g (f a) := by
  cases x <;> rfl

theorem map_map {f : α → α'} {g : α' → β} {x : Except ε α} :
    (x.map f).map g = x.map fun a ↦ g (f a) := by
  cases x <;> rfl

theorem mapError_map {g : ε → ε'} {f : α → β} {x : Except ε α} :
    (x.map f).mapError g = (x.mapError g).map f := by
  cases x <;> rfl

theorem mapError_bind {g : ε → ε'} {f : α → Except ε β} {x : Except ε α} :
    (x >>= f).mapError g = x.mapError g >>= fun a ↦ (f a).mapError g := by
  cases x <;> rfl

theorem mapError_eq_ok_iff {f : ε → ε'} {x : Except ε α} {a : α} :
    x.mapError f = .ok a ↔ x = .ok a := by
  cases x with
  | ok b =>
      change Except.ok b = .ok a ↔ Except.ok b = .ok a
      simp
  | error e =>
      change Except.error (f e) = .ok a ↔ Except.error e = .ok a
      simp

theorem map_eq_error_iff {f : α → β} {x : Except ε α} {e : ε} :
    x.map f = .error e ↔ x = .error e := by
  cases x <;> simp [Except.map]

theorem bind_eq_error_iff {f : α → Except ε β} {x : Except ε α} {e : ε} :
    x >>= f = .error e ↔ x = .error e ∨ ∃ a, x = .ok a ∧ f a = .error e := by
  cases x <;> simp [bind, Except.bind]

theorem mapError_eq_error_iff {f : ε → ε'} {x : Except ε α} {e : ε'} :
    x.mapError f = .error e ↔ ∃ e', x = .error e' ∧ f e' = e := by
  cases x with
  | ok b =>
      change Except.ok b = .error e ↔ ∃ e', Except.ok b = .error e' ∧ f e' = e
      simp
  | error e' =>
      change Except.error (f e') = .error e ↔ ∃ e'', Except.error e' = .error e'' ∧ f e'' = e
      simp

/-- Both fail with the same error, or both give results that are related. -/
inductive SameOutcome (R : α → β → Prop) : Except ε α → Except ε β → Prop
  | ok {a : α} {b : β} (h : R a b) : SameOutcome R (.ok a) (.ok b)
  | error (e : ε) : SameOutcome R (.error e) (.error e)

namespace SameOutcome

variable {R : α → β → Prop} {S : α' → β' → Prop}

theorem bind {x : Except ε α} {y : Except ε β} {f : α → Except ε α'} {g : β → Except ε β'}
    (h : SameOutcome R x y) (hfg : ∀ a b, R a b → SameOutcome S (f a) (g b)) :
    SameOutcome S (x >>= f) (y >>= g) := by
  cases h with
  | ok h => exact hfg _ _ h
  | error e => exact .error e

theorem map {x : Except ε α} {y : Except ε β} {f : α → α'} {g : β → β'}
    (h : SameOutcome R x y) (hfg : ∀ a b, R a b → S (f a) (g b)) :
    SameOutcome S (x.map f) (y.map g) := by
  cases h with
  | ok h => exact .ok (hfg _ _ h)
  | error e => exact .error e

theorem mapError {x : Except ε α} {y : Except ε β} {f : ε → ε'} (h : SameOutcome R x y) :
    SameOutcome R (x.mapError f) (y.mapError f) := by
  cases h with
  | ok h => exact .ok h
  | error e => exact .error (f e)

theorem imp_ok {S : α → β → Prop} {x : Except ε α} {y : Except ε β} (h : SameOutcome R x y)
    (hRS : ∀ a b, x = .ok a → R a b → S a b) : SameOutcome S x y := by
  cases h with
  | ok h => exact .ok (hRS _ _ rfl h)
  | error e => exact .error e

theorem exists_of_ok {x : Except ε α} {y : Except ε β} {a : α} (h : SameOutcome R x y)
    (hx : x = .ok a) : ∃ b, y = .ok b ∧ R a b := by
  subst hx
  cases h with
  | ok h => exact ⟨_, rfl, h⟩

end SameOutcome

end ShellTemplate
