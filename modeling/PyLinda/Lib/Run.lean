/-!
# Runs of a labelled transition system

A run carries the pairs of a state and the event taken there, so a condition on
the steps of a run is a condition on the members of its trace.
-/

namespace Lib

variable {σ ε : Type} {step : σ → ε → σ → Prop}

/-- `Run step s tr s'`: from `s`, through the steps listed in `tr`, to `s'`. -/
inductive Run (step : σ → ε → σ → Prop) : σ → List (σ × ε) → σ → Prop where
  | nil (s : σ) : Run step s [] s
  | cons {s t u : σ} {e : ε} {tr : List (σ × ε)} :
      step s e t → Run step t tr u → Run step s ((s, e) :: tr) u

theorem Run.append {s t u : σ} {tr tr' : List (σ × ε)}
    (h : Run step s tr t) (h' : Run step t tr' u) : Run step s (tr ++ tr') u := by
  induction h with
  | nil => exact h'
  | cons hs _ ih => exact .cons hs (ih h')

theorem Run.snoc {s t u : σ} {e : ε} {tr : List (σ × ε)}
    (h : Run step s tr t) (hs : step t e u) : Run step s (tr ++ [(t, e)]) u :=
  h.append (.cons hs (.nil u))

theorem Run.imp {step' : σ → ε → σ → Prop} (hs : ∀ s e t, step s e t → step' s e t)
    {s t : σ} {tr : List (σ × ε)} (h : Run step s tr t) : Run step' s tr t := by
  induction h with
  | nil => exact .nil _
  | cons he _ ih => exact .cons (hs _ _ _ he) ih

theorem Run.split {s u : σ} {tr tr' : List (σ × ε)} (h : Run step s (tr ++ tr') u) :
    ∃ t, Run step s tr t ∧ Run step t tr' u := by
  induction tr generalizing s with
  | nil => exact ⟨s, .nil s, h⟩
  | cons x tr ih =>
    cases h with
    | cons hs h =>
      obtain ⟨t, h1, h2⟩ := ih h
      exact ⟨t, .cons hs h1, h2⟩

/-- A property that every step keeps, as long as the step meets `C`, holds
wherever a run of such steps ends. -/
theorem Run.inv {I : σ → Prop} {C : σ → ε → Prop}
    (hstep : ∀ s e s', I s → C s e → step s e s' → I s')
    {s s' : σ} {tr : List (σ × ε)} (h : Run step s tr s') (h0 : I s)
    (hC : ∀ x ∈ tr, C x.1 x.2) : I s' := by
  induction h with
  | nil => exact h0
  | cons hs _ ih =>
    exact ih (hstep _ _ _ h0 (hC _ List.mem_cons_self) hs) fun x hx => hC x (List.mem_cons_of_mem _ hx)

/-- `Run.inv` for every state the run passes through. -/
theorem Run.inv_mem {I : σ → Prop} {C : σ → ε → Prop}
    (hstep : ∀ s e s', I s → C s e → step s e s' → I s')
    {s s' : σ} {tr : List (σ × ε)} (h : Run step s tr s') (h0 : I s)
    (hC : ∀ x ∈ tr, C x.1 x.2) : ∀ x ∈ tr, I x.1 := by
  induction h with
  | nil => simp
  | @cons s t u e tr hs _ ih =>
    rw [List.forall_mem_cons] at hC ⊢
    exact ⟨h0, ih (hstep _ _ _ h0 hC.1 hs) hC.2⟩

/-- `P` holds in every state the run passes through, the last one included. -/
def Throughout (P : σ → Prop) (tr : List (σ × ε)) (last : σ) : Prop :=
  (∀ x ∈ tr, P x.1) ∧ P last

theorem throughout_cons {P : σ → Prop} {s u : σ} {e : ε} {tr : List (σ × ε)} :
    Throughout P ((s, e) :: tr) u ↔ P s ∧ Throughout P tr u := by
  simp only [Throughout, List.forall_mem_cons]
  exact and_assoc

theorem Run.throughout {I : σ → Prop} {C : σ → ε → Prop}
    (hstep : ∀ s e s', I s → C s e → step s e s' → I s')
    {s s' : σ} {tr : List (σ × ε)} (h : Run step s tr s') (h0 : I s)
    (hC : ∀ x ∈ tr, C x.1 x.2) : Throughout I tr s' :=
  ⟨h.inv_mem hstep h0 hC, h.inv hstep h0 hC⟩

/-- When one step keeps `P` exactly if it meets `C`, a run keeps `P` throughout
exactly if all of its steps meet `C`. `I` is what the step lemma may assume. -/
theorem Run.throughout_iff {I P : σ → Prop} {C : σ → ε → Prop}
    (hI : ∀ s e s', I s → P s → C s e → step s e s' → I s')
    (hstep : ∀ s e s', I s → P s → step s e s' → (P s' ↔ C s e))
    {s s' : σ} {tr : List (σ × ε)} (h : Run step s tr s') (hI0 : I s) (h0 : P s) :
    Throughout P tr s' ↔ ∀ x ∈ tr, C x.1 x.2 := by
  induction h with
  | nil => simp [Throughout, h0]
  | @cons s t u e tr hs _ ih =>
    rw [throughout_cons, List.forall_mem_cons]
    constructor
    · rintro ⟨-, h⟩
      have ht : P t := by
        rcases tr with _ | ⟨x, tr⟩
        · rename_i hr
          cases hr
          exact h.2
        · rename_i hr
          cases hr
          exact h.1 _ List.mem_cons_self
      have hc : C s e := (hstep _ _ _ hI0 h0 hs).1 ht
      exact ⟨hc, (ih (hI _ _ _ hI0 h0 hc hs) ht).1 h⟩
    · rintro ⟨hc, h⟩
      have ht : P t := (hstep _ _ _ hI0 h0 hs).2 hc
      exact ⟨h0, (ih (hI _ _ _ hI0 h0 hc hs) ht).2 h⟩

/-! ## Runs of a function -/

section
variable (next : σ → ε → σ)

/-- The events one after another. -/
def exec (s : σ) : List ε → σ
  | [] => s
  | e :: es => exec (next s e) es

/-- The states in which they are taken. -/
def trace (s : σ) : List ε → List (σ × ε)
  | [] => []
  | e :: es => (s, e) :: trace (next s e) es

end

theorem Run.of_exec {next : σ → ε → σ} {s : σ} {es : List ε}
    (h : ∀ x ∈ trace next s es, step x.1 x.2 (next x.1 x.2)) :
    Run step s (trace next s es) (exec next s es) := by
  induction es generalizing s with
  | nil => exact .nil s
  | cons e es ih =>
    rw [trace, List.forall_mem_cons] at h
    exact .cons h.1 (ih h.2)

/-! ## Runs of a partial function -/

section
variable (next : σ → ε → Option σ)

/-- The events one after another, `none` when one of them cannot happen. -/
def exec? (s : σ) : List ε → Option σ
  | [] => some s
  | e :: es => (next s e).bind fun t => exec? t es

/-- The states in which they are taken. -/
def trace? (s : σ) : List ε → List (σ × ε)
  | [] => []
  | e :: es => (s, e) :: match next s e with
    | none => []
    | some t => trace? t es

end

theorem Run.of_trace? {next : σ → ε → Option σ} {P : σ → ε → Prop} {s s' : σ} {es : List ε}
    (hok : ∀ x ∈ trace? next s es, P x.1 x.2) (h : exec? next s es = some s') :
    Run (fun s e t => P s e ∧ next s e = some t) s (trace? next s es) s' ∧
      (trace? next s es).map Prod.snd = es := by
  induction es generalizing s with
  | nil =>
    cases h
    exact ⟨.nil _, rfl⟩
  | cons e es ih =>
    obtain ⟨t, ht, h⟩ := Option.bind_eq_some_iff.1 h
    simp only [trace?, ht, List.forall_mem_cons] at hok
    obtain ⟨hr, htr⟩ := ih hok.2 h
    simp only [trace?, ht, List.map_cons, htr, and_true]
    exact .cons ⟨hok.1, ht⟩ hr

theorem mem_of_mem_trace? {next : σ → ε → Option σ} {s : σ} {es : List ε} {x : σ × ε}
    (hx : x ∈ trace? next s es) : x.2 ∈ es := by
  induction es generalizing s with
  | nil => cases hx
  | cons e es ih =>
    simp only [trace?] at hx
    rcases List.mem_cons.1 hx with rfl | hx
    · exact List.mem_cons_self
    · cases hn : next s e with
      | none =>
        rw [hn] at hx
        cases hx
      | some t =>
        rw [hn] at hx
        exact List.mem_cons_of_mem _ (ih hx)

theorem Run.of_exec? {next : σ → ε → Option σ} {P : σ → ε → Prop} {s s' : σ} {es : List ε}
    (hok : ∀ s, ∀ e ∈ es, P s e) (h : exec? next s es = some s') :
    Run (fun s e t => P s e ∧ next s e = some t) s (trace? next s es) s' ∧
      (trace? next s es).map Prod.snd = es :=
  Run.of_trace? (fun x hx => hok x.1 x.2 (mem_of_mem_trace? hx)) h

end Lib
