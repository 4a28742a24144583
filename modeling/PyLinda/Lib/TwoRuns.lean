import PyLinda.Lib.Record

/-!
# Two runs side by side

Two programs started in related states: they return the same or raise the same, and they leave
related states.
-/

namespace Lib.Eff

section
variable {σ ε α β S : Type}

/-- From related states the two programs end alike, with something that has `Q` if they return,
and leave related states. -/
def Meets (R : σ → σ → Prop) (Q : α → Prop) (x y : Eff σ ε α) : Prop := ∀ s1 s2, R s1 s2 →
  (x s1).1 = (y s2).1 ∧ (∀ a, (x s1).1 = .ok a → Q a) ∧ R (x s1).2 (y s2).2

variable {R R' : σ → σ → Prop} {Q : α → Prop} {P : β → Prop}

theorem Meets.ret {a : α} (ha : Q a) : Meets R Q (pure a : Eff σ ε α) (pure a) := by
  intro s1 s2 hs
  refine ⟨rfl, fun b hb => ?_, hs⟩
  cases hb
  exact ha

theorem Meets.raise (e : ε) : Meets R Q (Eff.raise e : Eff σ ε α) (Eff.raise e) :=
  fun _ _ hs => ⟨rfl, (fun _ hb => by cases hb), hs⟩

theorem Meets.look {f g : σ → Except ε α} (h : ∀ s1 s2, R s1 s2 → f s1 = g s2)
    (hq : ∀ s1 s2, R s1 s2 → ∀ a, f s1 = .ok a → Q a) : Meets R Q (Eff.look f) (Eff.look g) :=
  fun s1 s2 hs => ⟨h s1 s2 hs, hq s1 s2 hs, hs⟩

theorem Meets.update {f g : σ → σ} {Q : Unit → Prop} (hq : Q ())
    (h : ∀ s1 s2, R s1 s2 → R (f s1) (g s2)) :
    Meets R Q (Eff.update f : Eff σ ε Unit) (Eff.update g) :=
  fun s1 s2 hs => ⟨rfl, fun _ _ => hq, h s1 s2 hs⟩

/-- A step that both take with what they have found. -/
theorem Meets.take {note : σ → S → σ} (hnote : ∀ s1 s2 t u, R s1 s2 → R (note s1 t) (note s2 u))
    {t u : S} {x : Except ε α} (hq : ∀ a, x = .ok a → Q a) :
    Meets R Q (Eff.take note t x) (Eff.take note u x) :=
  fun s1 s2 hs => ⟨rfl, hq, hnote s1 s2 t u hs⟩

theorem Meets.andThen {x y : Eff σ ε α} {f g : α → Eff σ ε β} (hx : Meets R Q x y)
    (hf : ∀ a, Q a → Meets R P (f a) (g a)) : Meets R P (x >>= f) (y >>= g) := by
  intro s1 s2 hs
  have h := hx s1 s2 hs
  cases hr1 : x s1 with
  | mk r1 t1 =>
    cases hr2 : y s2 with
    | mk r2 t2 =>
      rw [hr1, hr2] at h
      obtain ⟨heq, hq, ht⟩ := h
      have he : r1 = r2 := heq
      subst he
      cases r1 with
      | error e =>
        rw [andThen_error hr1, andThen_error hr2]
        exact ⟨rfl, (fun b hb => by cases hb), ht⟩
      | ok a =>
        rw [andThen_ok hr1, andThen_ok hr2]
        exact hf a (hq a rfl) t1 t2 ht

/-- A part that only the first program has. -/
theorem Meets.left {x : Eff σ ε α} {a : α} {f : α → Eff σ ε β} {y : Eff σ ε β}
    (hx : ∀ s1 s2, R s1 s2 → (x s1).1 = .ok a ∧ R (x s1).2 s2) (hf : Meets R P (f a) y) :
    Meets R P (x >>= f) y := by
  intro s1 s2 hs
  obtain ⟨ha, ht⟩ := hx s1 s2 hs
  have hr : x s1 = (.ok a, (x s1).2) := by
    rw [← ha]
  rw [andThen_ok hr]
  exact hf _ _ ht

/-- Another relation that gives the first one, and that the two programs keep. -/
theorem Meets.under {x y : Eff σ ε α} (h : Meets R Q x y) (hR : ∀ s1 s2, R' s1 s2 → R s1 s2)
    (hkept : ∀ s1 s2, R' s1 s2 → R' (x s1).2 (y s2).2) : Meets R' Q x y := by
  intro s1 s2 hs
  have hm := h s1 s2 (hR s1 s2 hs)
  exact ⟨hm.1, hm.2.1, hkept s1 s2 hs⟩

end

end Lib.Eff
