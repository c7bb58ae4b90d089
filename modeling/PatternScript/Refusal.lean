/-!
# Results that may be refused

A reader gives a result or the cause for which it refuses. What a sequence of readers
accepts was accepted by each of them in turn.
-/
namespace PatternScript

variable {ε α β : Type}

theorem bind_eq_ok {read : Except ε α} {go : α → Except ε β} {b : β} :
    (read >>= go) = .ok b ↔ ∃ a, read = .ok a ∧ go a = .ok b := by
  cases read <;> simp [bind, Except.bind]

theorem throw_unless_eq_ok {p : Prop} [Decidable p] {e : ε} {go : PUnit → Except ε β} {b : β} :
    (if p then throw e >>= go else go ⟨⟩) = .ok b ↔ ¬ p ∧ go ⟨⟩ = .ok b := by
  by_cases hp : p
  · simp [hp, bind, Except.bind, throw, throwThe, MonadExceptOf.throw]
  · simp [hp]

theorem bind_eq_error {read : Except ε α} {go : α → Except ε β} {e : ε} :
    (read >>= go) = .error e ↔ read = .error e ∨ ∃ a, read = .ok a ∧ go a = .error e := by
  cases read <;> simp [bind, Except.bind]

theorem throw_unless_eq_error {p : Prop} [Decidable p] {e e' : ε} {go : PUnit → Except ε β} :
    (if p then throw e >>= go else go ⟨⟩) = .error e' ↔
      (p ∧ e = e') ∨ (¬ p ∧ go ⟨⟩ = .error e') := by
  by_cases hp : p
  · simp [hp, bind, Except.bind, throw, throwThe, MonadExceptOf.throw]
  · simp [hp]

theorem map_eq_ok {f : α → β} {read : Except ε α} {b : β} :
    f <$> read = .ok b ↔ ∃ a, read = .ok a ∧ f a = b := by
  cases read <;> simp [Functor.map, Except.map]

theorem mapError_eq_ok {ε' : Type} {f : ε → ε'} {read : Except ε α} {a : α} :
    read.mapError f = .ok a ↔ read = .ok a := by
  cases read with
  | error e =>
    constructor
    · intro h
      cases h
    · intro h
      cases h
  | ok a' =>
    constructor
    · intro h
      cases h
      rfl
    · intro h
      cases h
      rfl

end PatternScript
