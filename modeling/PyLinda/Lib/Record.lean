import PyLinda.Lib.Effect

/-!
# Programs that record their steps

A program notes each step before it takes it. If the step raises exactly when it is not safe,
and this goes for all steps, then the program ends well exactly when all its steps are safe.
-/

namespace Lib.Eff

section
variable {σ ε α β S : Type} (log : σ → List S) (Safe : S → Prop) (unfinished : ε)

/-- From a state with safe steps only, the program returns and there are safe steps only, or it
raises and there is one that is not safe, or it does not finish. -/
def Judged (x : Eff σ ε α) : Prop := ∀ s, (∀ t ∈ log s, Safe t) →
  (∃ a s', x s = (.ok a, s') ∧ ∀ t ∈ log s', Safe t) ∨
    (∃ e s', x s = (.error e, s') ∧ ∃ t ∈ log s', ¬ Safe t) ∨ ∃ s', x s = (.error unfinished, s')

variable {log Safe unfinished}

theorem Judged.ret (a : α) : Judged log Safe unfinished (pure a : Eff σ ε α) :=
  fun s hs => .inl ⟨a, s, rfl, hs⟩

theorem Judged.raise : Judged log Safe unfinished (Eff.raise unfinished : Eff σ ε α) :=
  fun s _ => .inr (.inr ⟨s, rfl⟩)

theorem Judged.andThen {x : Eff σ ε α} {f : α → Eff σ ε β} (hx : Judged log Safe unfinished x)
    (hf : ∀ a, Judged log Safe unfinished (f a)) : Judged log Safe unfinished (x >>= f) := by
  intro s hs
  cases hx s hs with
  | inl hok =>
    obtain ⟨a, s', h, hs'⟩ := hok
    rw [andThen_ok h]
    exact hf a s' hs'
  | inr herr =>
    cases herr with
    | inl hbad =>
      obtain ⟨e, s', h, ht⟩ := hbad
      exact .inr (.inl ⟨e, s', andThen_error h f, ht⟩)
    | inr hun =>
      obtain ⟨s', h⟩ := hun
      exact .inr (.inr ⟨s', andThen_error h f⟩)

/-- Looking at the state is no step; it may not come to an end. -/
theorem Judged.look {f : σ → Except ε α} (hf : ∀ s e, f s = .error e → e = unfinished) :
    Judged log Safe unfinished (Eff.look f) := by
  intro s hs
  unfold Eff.look
  cases h : f s with
  | ok a => exact .inl ⟨a, s, rfl, hs⟩
  | error e =>
    rw [hf s e h]
    exact .inr (.inr ⟨s, rfl⟩)

/-- A change of the state that is no step. -/
theorem Judged.update {f : σ → σ} (hf : ∀ s, log (f s) = log s) :
    Judged log Safe unfinished (Eff.update f : Eff σ ε Unit) := by
  intro s hs
  refine .inl ⟨(), f s, rfl, ?_⟩
  rw [hf]
  exact hs

/-- A step: it is noted, then taken. -/
def take (note : σ → S → σ) (t : S) (x : Except ε α) : Eff σ ε α := fun s => (x, note s t)

theorem Judged.take {note : σ → S → σ} (hnote : ∀ s t, log (note s t) = log s ++ [t]) {t : S}
    {x : Except ε α} (hx : Safe t ↔ ∃ a, x = .ok a) :
    Judged log Safe unfinished (take note t x) := by
  intro s hs
  unfold Eff.take
  by_cases ht : Safe t
  · obtain ⟨a, ha⟩ := hx.1 ht
    refine .inl ⟨a, note s t, by rw [ha], ?_⟩
    rw [hnote]
    intro u hu
    cases List.mem_append.1 hu with
    | inl hu => exact hs u hu
    | inr hu => exact List.mem_singleton.1 hu ▸ ht
  · cases x with
    | ok a => exact absurd (hx.2 ⟨a, rfl⟩) ht
    | error e =>
      refine .inr (.inl ⟨e, note s t, rfl, t, ?_, ht⟩)
      rw [hnote]
      exact List.mem_append_right _ List.mem_cons_self

/-- A program that comes to an end ends well exactly if its steps were safe. -/
theorem Judged.returns_iff {x : Eff σ ε α} (hx : Judged log Safe unfinished x) {s : σ}
    (hs : log s = []) (hend : (x s).1 ≠ .error unfinished) :
    (∃ a, (x s).1 = .ok a) ↔ ∀ t ∈ log (x s).2, Safe t := by
  have hsafe : ∀ t ∈ log s, Safe t := by
    rw [hs]
    intro t ht
    cases ht
  cases hx s hsafe with
  | inl hok =>
    obtain ⟨a, s', h, hs'⟩ := hok
    rw [h]
    exact ⟨fun _ => hs', fun _ => ⟨a, rfl⟩⟩
  | inr herr =>
    cases herr with
    | inl hbad =>
      obtain ⟨e, s', h, t, ht, hnot⟩ := hbad
      rw [h]
      constructor
      · intro ⟨a, ha⟩
        cases ha
      · intro hall
        exact absurd (hall t ht) hnot
    | inr hun =>
      obtain ⟨s', h⟩ := hun
      rw [h] at hend
      exact absurd rfl hend

end

end Lib.Eff
