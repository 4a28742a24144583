import Mathlib.Algebra.BigOperators.Group.List.Basic
import Mathlib.Algebra.Order.BigOperators.Group.List
import Mathlib.Algebra.Order.Group.Nat

/-!
# Sums over a pool of threads

A thread is the list of its remaining steps. A quantity that every step carries
adds up over a thread and over a pool; taking a step replaces what one step
carried by what the steps it leaves behind carry.
-/

namespace Lib

variable {α β M : Type} [AddCommMonoid M]

/-- The sum over the steps of a thread. -/
def weight (w : α → M) (acts : List α) : M := (acts.map w).sum

/-- The sum over the threads of a pool. -/
def poolWeight (w : α → M) (pool : List (List α)) : M := (pool.map (weight w)).sum

variable {w : α → M}

@[simp] theorem weight_nil : weight w [] = 0 := rfl

@[simp] theorem weight_cons (a : α) (acts : List α) : weight w (a :: acts) = w a + weight w acts := by
  simp [weight]

@[simp] theorem weight_append (acts acts' : List α) :
    weight w (acts ++ acts') = weight w acts + weight w acts' := by
  simp [weight]

@[simp] theorem poolWeight_nil : poolWeight w [] = 0 := rfl

@[simp] theorem poolWeight_cons (acts : List α) (pool : List (List α)) :
    poolWeight w (acts :: pool) = weight w acts + poolWeight w pool := by
  simp [poolWeight]

@[simp] theorem poolWeight_append (pool pool' : List (List α)) :
    poolWeight w (pool ++ pool') = poolWeight w pool + poolWeight w pool' := by
  simp [poolWeight]

theorem weight_congr {v : α → M} {acts : List α} (h : ∀ a ∈ acts, w a = v a) :
    weight w acts = weight v acts := by
  unfold weight
  rw [List.map_congr_left h]

theorem weight_eq_zero {acts : List α} (h : ∀ a ∈ acts, w a = 0) : weight w acts = 0 := by
  induction acts with
  | nil => rfl
  | cons a acts ih =>
    rw [List.forall_mem_cons] at h
    rw [weight_cons, h.1, ih h.2, add_zero]

theorem poolWeight_eq_zero {pool : List (List α)} (h : ∀ acts ∈ pool, weight w acts = 0) :
    poolWeight w pool = 0 := by
  induction pool with
  | nil => rfl
  | cons acts pool ih =>
    rw [List.forall_mem_cons] at h
    rw [poolWeight_cons, h.1, ih h.2, add_zero]

theorem le_weight {f : β → Nat} {l : List β} {x : β} (h : x ∈ l) : f x ≤ weight f l :=
  List.single_le_sum (fun _ _ => Nat.zero_le _) _ (List.mem_map_of_mem h)

theorem weight_erase [DecidableEq β] (f : β → M) {l : List β} {x : β} (h : x ∈ l) :
    weight f (l.erase x) + f x = weight f l := by
  rw [add_comm, ← weight_cons]
  exact ((List.perm_cons_erase h).map f).sum_eq.symm

/-- Replacing the `i`-th summand `x` by `y`. -/
theorem weight_set (f : β → M) {l : List β} {i : Nat} {x : β} (h : l[i]? = some x) (y : β) :
    weight f (l.set i y) + f x = weight f l + f y := by
  induction l generalizing i with
  | nil => simp at h
  | cons a l ih =>
    rcases i with _ | i
    · obtain rfl : a = x := by simpa using h
      simp only [List.set_cons_zero, weight_cons]
      rw [add_right_comm, add_comm (f y), add_right_comm]
    · simp only [List.set_cons_succ, weight_cons, add_assoc]
      rw [ih (by simpa using h)]

theorem add_le_weight (f : β → Nat) {l : List β} {i j : Nat} {x y : β} (hij : i ≠ j)
    (hi : l[i]? = some x) (hj : l[j]? = some y) : f x + f y ≤ weight f l := by
  have hmem : ∀ {l : List β} {k : Nat} {z : β}, l[k]? = some z → f z ≤ weight f l :=
    fun h => List.single_le_sum (fun _ _ => Nat.zero_le _) _
      (List.mem_map_of_mem (List.mem_of_getElem? h))
  induction l generalizing i j with
  | nil => simp at hi
  | cons a l ih =>
    rw [weight_cons]
    rcases i with _ | i <;> rcases j with _ | j
    · exact absurd rfl hij
    · obtain rfl : a = x := by simpa using hi
      exact Nat.add_le_add_left (hmem (by simpa using hj)) _
    · obtain rfl : a = y := by simpa using hj
      rw [Nat.add_comm (f x)]
      exact Nat.add_le_add_left (hmem (by simpa using hi)) _
    · exact Nat.le_trans (@ih i j (by omega) (by simpa using hi) (by simpa using hj))
        (Nat.le_add_left _ _)

/-- Thread `i` takes its first step, goes on with `next` and starts `spawned`. -/
theorem poolWeight_step {M : Type} [AddCancelCommMonoid M] {w : α → M} {pool : List (List α)}
    {i : Nat} {a : α} {acts : List α} (h : pool[i]? = some (a :: acts)) (next : List α)
    (spawned : List (List α)) :
    poolWeight w (pool.set i (next ++ acts) ++ spawned) + w a =
      poolWeight w pool + (weight w next + poolWeight w spawned) := by
  have h1 : poolWeight w (pool.set i (next ++ acts)) + (w a + weight w acts) =
      poolWeight w pool + (weight w next + weight w acts) := by
    have h0 := weight_set (weight w) h (next ++ acts)
    simp only [weight_cons, weight_append] at h0
    exact h0
  have h2 : poolWeight w (pool.set i (next ++ acts)) + w a =
      poolWeight w pool + weight w next := by
    rw [← add_assoc, ← add_assoc] at h1
    exact add_right_cancel h1
  rw [poolWeight_append, add_right_comm, h2, add_assoc]

/-- Thread `i` takes its first step and dies. -/
theorem poolWeight_died {pool : List (List α)} {i : Nat} {a : α} {acts : List α}
    (h : pool[i]? = some (a :: acts)) (spawned : List (List α)) :
    poolWeight w (pool.set i [] ++ spawned) + (w a + weight w acts) =
      poolWeight w pool + poolWeight w spawned := by
  have h1 : poolWeight w (pool.set i []) + (w a + weight w acts) = poolWeight w pool := by
    have h0 := weight_set (weight w) h []
    simp only [weight_cons, weight_nil, add_zero] at h0
    exact h0
  rw [poolWeight_append, add_right_comm, h1]

theorem le_poolWeight {w : α → Nat} {pool : List (List α)} {acts : List α} {a : α}
    (hp : acts ∈ pool) (ha : a ∈ acts) : w a ≤ poolWeight w pool := by
  have h1 : w a ≤ weight w acts :=
    List.single_le_sum (fun _ _ => Nat.zero_le _) _ (List.mem_map_of_mem ha)
  have h2 : weight w acts ≤ poolWeight w pool :=
    List.single_le_sum (fun _ _ => Nat.zero_le _) _ (List.mem_map_of_mem hp)
  exact Nat.le_trans h1 h2

/-- A step in the pool that weighs more under `v` makes the pool weigh more. -/
theorem poolWeight_lt {w v : α → Nat} (hle : ∀ a, w a ≤ v a) {pool : List (List α)}
    {acts : List α} {a : α} (hp : acts ∈ pool) (ha : a ∈ acts) (hlt : w a < v a) :
    poolWeight w pool < poolWeight v pool := by
  have hacts : ∀ l : List α, weight w l ≤ weight v l := fun l =>
    List.sum_le_sum fun a _ => hle a
  exact List.sum_lt_sum (weight w) (weight v) (fun l _ => hacts l)
    ⟨acts, hp, List.sum_lt_sum w v (fun a _ => hle a) ⟨a, ha, hlt⟩⟩

end Lib
