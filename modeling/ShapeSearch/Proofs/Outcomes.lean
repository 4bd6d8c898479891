namespace ShapeSearch

variable {ε ε' δ δ' α α' β β' : Type}

theorem bind_eq_ok_iff {x : Except ε α} {f : α → Except ε β} {b : β} :
    (x >>= f) = .ok b ↔ ∃ a, x = .ok a ∧ f a = .ok b := by
  cases x with
  | error e => simp [bind, Except.bind]
  | ok a => simp [bind, Except.bind]

theorem map_eq_ok_iff {x : Except ε α} {f : α → β} {b : β} :
    x.map f = .ok b ↔ ∃ a, x = .ok a ∧ f a = b := by
  cases x with
  | error e => simp [Except.map]
  | ok a => simp [Except.map]

theorem mapError_ok (f : ε → δ) (a : α) : (Except.ok a).mapError f = .ok a := rfl

theorem mapError_eq_ok_iff {x : Except ε α} {f : ε → δ} {a : α} :
    x.mapError f = .ok a ↔ x = .ok a := by
  constructor
  · intro h
    cases x with
    | error e => cases h
    | ok b =>
        cases h
        rfl
  · rintro rfl
    exact mapError_ok f a

theorem ok_of_toOption {x : Except ε α} {a : α} (h : x.toOption = some a) : x = .ok a := by
  cases x with
  | error e => cases h
  | ok b => exact congrArg _ (Option.some.inj h)

theorem or_eq_some_iff {x y : Option α} (h : ∀ a b, x = some a → y = some b → a = b)
    {a : α} : x.or y = some a ↔ x = some a ∨ y = some a := by
  cases x with
  | none => simp
  | some b =>
      rw [Option.some_or]
      refine ⟨.inl, fun ha => ha.elim id fun hy => ?_⟩
      rw [h b a rfl hy]

/-- Two computations that both fail, or both give values which are related. -/
inductive SameOutcome (R : α → β → Prop) : Except ε α → Except ε' β → Prop
  | ok {a : α} {b : β} (h : R a b) : SameOutcome R (.ok a) (.ok b)
  | error (e : ε) (e' : ε') : SameOutcome R (.error e) (.error e')

namespace SameOutcome

variable {R : α → β → Prop} {R' : α' → β' → Prop} {x : Except ε α} {y : Except ε' β}

theorem map (h : SameOutcome R x y) {f : α → α'} {g : β → β'}
    (hfg : ∀ a b, x = .ok a → R a b → R' (f a) (g b)) : SameOutcome R' (x.map f) (y.map g) := by
  cases h with
  | ok h => exact .ok (hfg _ _ rfl h)
  | error e e' => exact .error e e'

theorem bind (h : SameOutcome R x y) {f : α → Except ε α'} {g : β → Except ε' β'}
    (hfg : ∀ a b, x = .ok a → R a b → SameOutcome R' (f a) (g b)) :
    SameOutcome R' (x.bind f) (y.bind g) := by
  cases h with
  | ok h => exact hfg _ _ rfl h
  | error e e' => exact .error e e'

theorem mapError (h : SameOutcome R x y) (f : ε → δ) (g : ε' → δ') :
    SameOutcome R (x.mapError f) (y.mapError g) := by
  cases h with
  | ok h => exact .ok h
  | error e e' => exact .error _ _

theorem exists_ok {a : α} (h : SameOutcome R (.ok a : Except ε α) y) : ∃ b, y = .ok b ∧ R a b := by
  cases h with
  | ok h => exact ⟨_, rfl, h⟩

end SameOutcome

end ShapeSearch
