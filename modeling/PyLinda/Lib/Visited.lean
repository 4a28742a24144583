import Mathlib.Data.List.Basic

/-!
# Searches with a table of what was visited

A search that enters every question in a table before it asks further ones, and that never
leaves a finite set of questions, goes no deeper than there are questions.
-/

namespace Lib

variable {α : Type}

/-- How many of the questions are not in the table. -/
def unvisited (questions : List α) (seen : α → Bool) : Nat := questions.countP fun q => !seen q

theorem unvisited_mono {questions : List α} {seen seen' : α → Bool}
    (h : ∀ q, seen q = true → seen' q = true) :
    unvisited questions seen' ≤ unvisited questions seen := by
  apply List.countP_mono_left
  intro q _ hq
  cases hs : seen q with
  | false => rfl
  | true =>
    rw [h q hs] at hq
    cases hq

/-- Entering a question leaves fewer of them. -/
theorem unvisited_lt {questions : List α} {seen seen' : α → Bool}
    (h : ∀ q, seen q = true → seen' q = true) {q : α} (hq : q ∈ questions) (hno : seen q = false)
    (hyes : seen' q = true) : unvisited questions seen' < unvisited questions seen := by
  induction questions with
  | nil => cases hq
  | cons q' qs ih =>
    have hrest : unvisited qs seen' ≤ unvisited qs seen := unvisited_mono h
    unfold unvisited at ih hrest ⊢
    rw [List.countP_cons, List.countP_cons]
    rcases List.mem_cons.1 hq with rfl | hq
    · rw [hno, hyes]
      show _ + 0 < _ + 1
      omega
    · have hlt := ih hq
      cases hs : seen q' with
      | true =>
        rw [h q' hs]
        exact hlt
      | false =>
        show _ < _ + 1
        split <;> omega

/-- Finitely many bounds have a common one. -/
theorem exists_common_bound (questions : List α) {P : α → Nat → Prop}
    (hmono : ∀ q n m, n ≤ m → P q n → P q m) (h : ∀ q ∈ questions, ∃ n, P q n) :
    ∃ n, ∀ q ∈ questions, P q n := by
  induction questions with
  | nil => exact ⟨0, fun q hq => by cases hq⟩
  | cons q qs ih =>
    obtain ⟨n, hn⟩ := h q List.mem_cons_self
    obtain ⟨m, hm⟩ := ih fun u hu => h u (List.mem_cons_of_mem _ hu)
    refine ⟨max n m, fun u hu => ?_⟩
    rcases List.mem_cons.1 hu with rfl | hu
    · exact hmono u n _ (by omega) hn
    · exact hmono u m _ (by omega) (hm u hu)

end Lib
