/-!
# Programs that raise

A sequence of steps ends well only if every step does.
-/

namespace Lib

variable {ε α β : Type}

/-- The first step of a sequence, and the rest. -/
theorem ok_of_bind {x : Except ε α} {f : α → Except ε β} {b : β} (h : (x >>= f) = .ok b) :
    ∃ a, x = .ok a ∧ f a = .ok b := by
  cases x with
  | error e => cases h
  | ok a => exact ⟨a, rfl, h⟩

theorem bind_ok {x : Except ε α} {a : α} (h : x = .ok a) (f : α → Except ε β) :
    (x >>= f) = f a := by
  subst h
  rfl

/-- A step whose value is changed afterwards. -/
theorem ok_of_map {x : Except ε α} {f : α → β} {b : β} (h : x.map f = .ok b) :
    ∃ a, x = .ok a ∧ f a = b := by
  cases x with
  | error e => cases h
  | ok a => exact ⟨a, rfl, Except.ok.inj h⟩

/-- Where the first program returns, the second returns the same, and it satisfies `P`. -/
def Follows (P : α → Prop) (x y : Except ε α) : Prop := ∀ a, x = .ok a → y = .ok a ∧ P a

section
variable {P : α → Prop} {Q : β → Prop}

theorem Follows.ok {a : α} (h : P a) : Follows P (.ok a : Except ε α) (.ok a) := by
  intro b hb
  cases hb
  exact ⟨rfl, h⟩

theorem Follows.error (e : ε) (y : Except ε α) : Follows P (.error e) y := by
  intro b hb
  cases hb

theorem Follows.same (x : Except ε α) : Follows (fun _ => True) x x := fun _ h => ⟨h, trivial⟩

theorem Follows.bind {x y : Except ε α} {f g : α → Except ε β} (h : Follows P x y)
    (hf : ∀ a, P a → Follows Q (f a) (g a)) : Follows Q (x >>= f) (y >>= g) := by
  intro b hb
  obtain ⟨a, ha, hb⟩ := ok_of_bind hb
  obtain ⟨hy, hP⟩ := h a ha
  rw [bind_ok hy]
  exact hf a hP b hb

theorem Follows.map {x y : Except ε α} {f : α → β} (h : Follows P x y) (hf : ∀ a, P a → Q (f a)) :
    Follows Q (x.map f) (y.map f) := by
  intro b hb
  obtain ⟨a, ha, rfl⟩ := ok_of_map hb
  obtain ⟨hy, hP⟩ := h a ha
  rw [hy]
  exact ⟨rfl, hf a hP⟩

theorem Follows.ite {p : Prop} [Decidable p] {x y x' y' : Except ε α} (h : p → Follows P x y)
    (h' : ¬ p → Follows P x' y') : Follows P (if p then x else x') (if p then y else y') := by
  by_cases hp : p
  · rw [if_pos hp, if_pos hp]
    exact h hp
  · rw [if_neg hp, if_neg hp]
    exact h' hp

end

end Lib
