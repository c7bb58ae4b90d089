import PatternScript.Refusal

/-!
# Results that agree

Two readers agree when both give results that stand in a relation, or both refuse, for causes
that stand in a relation. Readers that are put together the same way from parts that agree do
so as well.
-/
namespace PatternScript

variable {ε ε' α α' β β' : Type} {E : ε → ε' → Prop} {R : α → α' → Prop} {S : β → β' → Prop}

inductive Agrees (E : ε → ε' → Prop) (R : α → α' → Prop) : Except ε α → Except ε' α' → Prop where
  | ok {a : α} {a' : α'} : R a a' → Agrees E R (.ok a) (.ok a')
  | error {e : ε} {e' : ε'} : E e e' → Agrees E R (.error e) (.error e')

namespace Agrees

variable {x : Except ε α} {x' : Except ε' α'} {f : α → Except ε β} {f' : α' → Except ε' β'}

theorem bind (h : Agrees E R x x') (hf : ∀ a a', R a a' → Agrees E S (f a) (f' a')) :
    Agrees E S (x >>= f) (x' >>= f') := by
  cases h with
  | ok ha => exact hf _ _ ha
  | error he => exact .error he

theorem mono {E' : ε → ε' → Prop} {R' : α → α' → Prop} (h : Agrees E R x x')
    (hE : ∀ e e', E e e' → E' e e') (hR : ∀ a a', R a a' → R' a a') : Agrees E' R' x x' := by
  cases h with
  | ok ha => exact .ok (hR _ _ ha)
  | error he => exact .error (hE _ _ he)

theorem throwIf {p p' : Prop} {_ : Decidable p} {_ : Decidable p'} {e : ε} {e' : ε'}
    {go : PUnit → Except ε α} {go' : PUnit → Except ε' α'} (hp : p' ↔ p) (he : E e e')
    (h : Agrees E R (go ⟨⟩) (go' ⟨⟩)) :
    Agrees E R (if p then throw e >>= go else go ⟨⟩)
      (if p' then throw e' >>= go' else go' ⟨⟩) := by
  by_cases hthrow : p
  · rw [if_pos hthrow, if_pos (hp.2 hthrow)]
    exact .error he
  · rw [if_neg hthrow, if_neg (mt hp.1 hthrow)]
    exact h

theorem map {g : α → β} {g' : α' → β'} (h : Agrees E R x x')
    (hg : ∀ a a', R a a' → S (g a) (g' a')) : Agrees E S (g <$> x) (g' <$> x') := by
  cases h with
  | ok ha => exact .ok (hg _ _ ha)
  | error he => exact .error he

theorem of_map (g : α → β) (g' : α' → β') (h : Agrees E S (g <$> x) (g' <$> x')) :
    Agrees E (fun a a' => S (g a) (g' a')) x x' := by
  cases x <;> cases x' <;> cases h
  next he => exact .error he
  next ha => exact .ok ha

end Agrees

end PatternScript
