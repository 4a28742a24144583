import Mathlib.Logic.Function.Iterate
import Mathlib.Logic.Relation
import PyLinda.Server.Act

/-!
# A thread on its own

One thread of the server takes its steps while all the others wait.
-/

namespace PyLinda

/-- The tables, what the thread still has to do, and what it started and sent. -/
structure Alone where
  server : Server
  acts : List Act
  spawned : List (List Act) := []
  sent : List (Tid × Reply) := []

namespace Alone

/-- The next step, `none` when the thread has ended, dies or has to wait. -/
def step (c : Alone) : Option Alone :=
  match c.acts with
  | [] => none
  | a :: acts => (a.exec c.server).bind fun eff =>
    match eff.raised with
    | some _ => none
    | none => some ⟨eff.server, eff.next ++ acts, c.spawned ++ eff.spawned,
        c.sent ++ eff.sent.toList⟩

def Leads : Alone → Alone → Prop := Relation.ReflTransGen fun c c' => c.step = some c'

/-- The thread comes to a state with `P`. -/
def Eventually (P : Alone → Prop) (c : Alone) : Prop := ∃ e, c.Leads e ∧ P e

variable {P : Alone → Prop} {c d : Alone}

theorem Eventually.now (h : P c) : c.Eventually P := ⟨c, .refl, h⟩

theorem Eventually.of_step (h : c.step = some d) (hd : d.Eventually P) : c.Eventually P := by
  obtain ⟨e, he, hPe⟩ := hd
  exact ⟨e, .head h he, hPe⟩

theorem eventually_step (h : c.step = some d) (hP : ¬ P c) : c.Eventually P ↔ d.Eventually P := by
  constructor
  · rintro ⟨e, he, hPe⟩
    rcases Relation.ReflTransGen.cases_head he with rfl | ⟨d', hd, he⟩
    · exact absurd hPe hP
    · obtain rfl : d = d' := by simpa [h] using hd
      exact ⟨e, he, hPe⟩
  · exact Eventually.of_step h

theorem eventually_stuck (h : c.step = none) : c.Eventually P ↔ P c := by
  constructor
  · rintro ⟨e, he, hPe⟩
    rcases Relation.ReflTransGen.cases_head he with rfl | ⟨d, hd, -⟩
    · exact hPe
    · rw [h] at hd; cases hd
  · exact Eventually.now

/-- A thread comes to a single end. -/
theorem eventually_of_end (h : c.Leads d) (hd : d.step = none) (hP : ∀ c, P c → c.step = none) :
    c.Eventually P ↔ P d := by
  induction h using Relation.ReflTransGen.head_induction_on with
  | refl => exact eventually_stuck hd
  | head hs _ ih =>
    refine (eventually_step hs fun hp => ?_).trans ih
    rw [hP _ hp] at hs
    cases hs

theorem leads_iterate (n : Nat) (c : Alone) : c.Leads ((fun c => c.step.getD c)^[n] c) := by
  induction n generalizing c with
  | zero => exact .refl
  | succ n ih =>
    rw [Function.iterate_succ_apply]
    rcases hs : c.step with _ | d
    · simpa [hs] using ih c
    · exact .head hs (by simpa [hs, Leads] using ih d)

variable {s : Server} {a : Act} {acts : List Act} {sp : List (List Act)} {snt : List (Tid × Reply)}

/-- A step that only goes on. -/
theorem step_of_go (s' : Server) (next : List Act) (h : a.exec s = some (.go s' next)) :
    step ⟨s, a :: acts, sp, snt⟩ = some ⟨s', next ++ acts, sp, snt⟩ := by
  simp [step, h, Effect.go]

/-- A machine that takes the steps of a thread: at `cfg s acts` it has `acts` to do on the
tables `s`. What it does when the thread deletes a tuplespace is its own affair. -/
def Takes {C : Type} (step : C → Option C) (cfg : Server → List Act → C) : Prop :=
  ∀ s a acts s' next, a.exec s = some (.go s' next) → (∀ ts, a ≠ .dropTs ts) →
    step (cfg s (a :: acts)) = some (cfg s' (next ++ acts))

theorem takes (sp : List (List Act)) (snt : List (Tid × Reply)) :
    Takes step fun s acts => ⟨s, acts, sp, snt⟩ :=
  fun _ _ _ s' next h _ => step_of_go s' next h

theorem step_of_raise (s' : Server) (e : PyExc) (h : a.exec s = some (.raise s' e)) :
    step ⟨s, a :: acts, sp, snt⟩ = none := by
  simp [step, h, Effect.raise]

end Alone

end PyLinda
