import PyLinda.Lib.Run

/-!
# Simulation of what an observer sees

The steps of a specification are labelled with what they show, most of them nothing. A system whose
every step is answered by some steps of the specification that show the same shows nothing that the
specification does not.
-/

namespace Lib

variable {σ ρ ε κ : Type} {step : σ → ε → σ → Prop} {spec : ρ → Option κ → ρ → Prop}

/-- From `r` to `r'` while showing `l`. -/
def Shows (spec : ρ → Option κ → ρ → Prop) (r : ρ) (l : List κ) (r' : ρ) : Prop :=
  ∃ tr, Run spec r tr r' ∧ tr.filterMap Prod.snd = l

namespace Shows

variable {r r' r'' : ρ} {l l' : List κ} {x : κ}

theorem refl (r : ρ) : Shows spec r [] r := ⟨[], .nil r, rfl⟩

theorem silent (h : spec r none r') (hs : Shows spec r' l r'') : Shows spec r l r'' := by
  obtain ⟨tr, hrun, hl⟩ := hs
  exact ⟨_, .cons h hrun, hl⟩

theorem visible (h : spec r (some x) r') (hs : Shows spec r' l r'') : Shows spec r (x :: l) r'' := by
  obtain ⟨tr, hrun, hl⟩ := hs
  exact ⟨_, .cons h hrun, congrArg _ hl⟩

theorem trans (h : Shows spec r l r') (h' : Shows spec r' l' r'') : Shows spec r (l ++ l') r'' := by
  obtain ⟨tr, hrun, rfl⟩ := h
  obtain ⟨tr', hrun', rfl⟩ := h'
  exact ⟨tr ++ tr', hrun.append hrun', List.filterMap_append⟩

/-- What is kept of a state and of an account `b` of what was seen so far. -/
theorem fold {β : Type} {f : β → κ → β} {J : β → ρ → Prop} {C : κ → Prop}
    (hstep : ∀ b r x r', J b r → spec r x r' → (∀ y, x = some y → C y) → J (x.toList.foldl f b) r')
    {b : β} (h : Shows spec r l r') (h0 : J b r) (hC : ∀ y ∈ l, C y) : J (l.foldl f b) r' := by
  obtain ⟨tr, hrun, rfl⟩ := h
  induction hrun generalizing b with
  | nil => exact h0
  | @cons s t u x tr hs _ ih =>
    have hl : ((s, x) :: tr).filterMap Prod.snd = x.toList ++ tr.filterMap Prod.snd := by
      cases x <;> rfl
    rw [hl] at hC ⊢
    rw [List.foldl_append]
    refine ih (hstep _ _ _ _ h0 hs fun y hy => hC y ?_) fun y hy => hC y (List.mem_append_right _ hy)
    exact List.mem_append_left _ (by rw [hy]; exact List.mem_cons_self)

end Shows

/-- `R` relates a state to what it stands for, and `seen` is what a step shows. -/
theorem Run.simulates {R : σ → ρ → Prop} {seen : σ → ε → List κ}
    (hstep : ∀ s e s' r, R s r → step s e s' → ∃ r', Shows spec r (seen s e) r' ∧ R s' r')
    {s s' : σ} {tr : List (σ × ε)} (h : Run step s tr s') {r : ρ} (h0 : R s r) :
    ∃ r', Shows spec r (tr.flatMap fun x => seen x.1 x.2) r' ∧ R s' r' := by
  induction h generalizing r with
  | nil => exact ⟨r, .refl r, h0⟩
  | cons hs _ ih =>
    obtain ⟨r₁, hr₁, hR₁⟩ := hstep _ _ _ _ h0 hs
    obtain ⟨r₂, hr₂, hR₂⟩ := ih hR₁
    exact ⟨r₂, hr₁.trans hr₂, hR₂⟩

end Lib
