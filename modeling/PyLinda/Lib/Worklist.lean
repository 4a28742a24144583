import Mathlib.Data.List.Perm.Subperm
import Mathlib.Data.List.Chain
import Mathlib.Data.Nat.Find
import Mathlib.Logic.Relation

/-!
# A worklist without memory

A queue of nodes of a graph: the first one is looked at, its successors go to the
back. Nothing remembers which nodes were there before, so the queue runs through
the levels of the graph: the roots, their successors, and so on. It ends at the
first node that stops it, or with the first level that is empty; on a finite
graph there is one exactly when no cycle can be reached.
-/

namespace Lib

variable {α ρ : Type}

/-- What a node does to the queue: end it, or put its successors there. -/
inductive Visit (α ρ : Type) where
  | stop (r : ρ)
  | expand (succ : List α)

def Visit.succ : Visit α ρ → List α
  | stop _ => []
  | expand l => l

/-- The queue worked off in at most `n` turns. `some none` when it gets empty. -/
def fifo (visit : α → Visit α ρ) : Nat → List α → Option (Option ρ)
  | 0, _ => none
  | _ + 1, [] => some none
  | n + 1, x :: xs =>
    match visit x with
    | .stop r => some (some r)
    | .expand l => fifo visit n (xs ++ l)

section
variable (visit : α → Visit α ρ)

/-- The queue ends this way. -/
def Ends (xs : List α) (r : Option ρ) : Prop := ∃ n, fifo visit n xs = some r

/-- The nodes `n` edges away, as often and in the order the queue meets them. -/
def level : Nat → List α → List α
  | 0, xs => xs
  | n + 1, xs => level n (xs.flatMap fun x => (visit x).succ)

/-- Nobody in the list ends the queue. -/
def Passes (xs : List α) : Prop := ∀ x ∈ xs, ∃ l, visit x = .expand l

/-- The first node in the list that ends the queue does it with `r`. -/
def StopsWith (xs : List α) (r : ρ) : Prop :=
  ∃ pre x post, xs = pre ++ x :: post ∧ Passes visit pre ∧ visit x = .stop r

def Edge (x y : α) : Prop := y ∈ (visit x).succ

/-- `y` is a root or can be reached from one. -/
def Reachable (xs : List α) (y : α) : Prop := ∃ x ∈ xs, Relation.ReflTransGen (Edge visit) x y

end

variable {visit : α → Visit α ρ} {n k : Nat} {xs ys : List α}

theorem fifo_add {v : Option ρ} (h : fifo visit n xs = some v) (k : Nat) :
    fifo visit (n + k) xs = some v := by
  induction n generalizing xs with
  | zero => cases h
  | succ n ih =>
    rw [Nat.add_right_comm]
    cases xs with
    | nil => exact h
    | cons x xs =>
      simp only [fifo] at h ⊢
      split at h
      · exact h
      · exact ih h

theorem Ends.unique {r r' : Option ρ} (h : Ends visit xs r) (h' : Ends visit xs r') : r = r' := by
  obtain ⟨n, hn⟩ := h
  obtain ⟨m, hm⟩ := h'
  have h1 := fifo_add hn m
  have h2 := fifo_add hm n
  rw [Nat.add_comm, h1] at h2
  exact Option.some.inj h2

/-! ## Level by level -/

theorem fifo_passes (h : Passes visit xs) (n : Nat) (ys : List α) :
    fifo visit (xs.length + n) (xs ++ ys) =
      fifo visit n (ys ++ xs.flatMap fun x => (visit x).succ) := by
  induction xs generalizing ys with
  | nil => simp
  | cons x xs ih =>
    obtain ⟨l, hl⟩ := h x List.mem_cons_self
    have hxs : Passes visit xs := fun y hy => h y (List.mem_cons_of_mem _ hy)
    rw [List.length_cons, Nat.add_right_comm, List.cons_append]
    simp only [fifo, hl, List.append_assoc]
    rw [ih hxs]
    simp [Visit.succ, hl]

/-- The levels passed, the queue holds the next one; each took a turn at least,
unless it was empty. -/
theorem fifo_level (h : ∀ m < n, Passes visit (level visit m xs)) :
    ∃ t, ((∀ m < n, level visit m xs ≠ []) → n ≤ t) ∧
      ∀ k, fifo visit (t + k) xs = fifo visit k (level visit n xs) := by
  induction n generalizing xs with
  | zero => exact ⟨0, fun _ => Nat.le_refl 0, fun k => by simp [level]⟩
  | succ n ih =>
    obtain ⟨t, ht, hk⟩ := @ih (xs.flatMap fun x => (visit x).succ)
      fun m hm => h (m + 1) (by omega)
    have h0 := fifo_passes (h 0 (by omega))
    simp only [level] at h0
    refine ⟨xs.length + t, fun hne => ?_, fun k => ?_⟩
    · have h1 : n ≤ t := ht fun m hm => hne (m + 1) (by omega)
      have h2 : xs.length ≠ 0 := by
        simpa [level] using hne 0 (by omega)
      omega
    · have := h0 (t + k) []
      rw [List.append_nil, List.nil_append] at this
      rw [Nat.add_assoc, this, hk k]
      rfl

theorem StopsWith.fifo {r : ρ} (h : StopsWith visit xs r) :
    fifo visit (xs.length + 1) xs = some (some r) := by
  obtain ⟨pre, x, post, rfl, hpre, hx⟩ := h
  have h1 := fifo_passes hpre (post.length + 2) (x :: post)
  rw [List.length_append, List.length_cons, show pre.length + (post.length + 1) + 1 =
    pre.length + (post.length + 2) by omega, h1]
  simp [Lib.fifo, hx]

theorem passes_or_stopsWith (xs : List α) :
    Passes visit xs ∨ ∃ r, StopsWith visit xs r := by
  induction xs with
  | nil => exact .inl (by simp [Passes])
  | cons x xs ih =>
    cases hx : visit x with
    | stop r => exact .inr ⟨r, [], x, xs, rfl, by simp [Passes], hx⟩
    | expand l =>
      rcases ih with h | ⟨r, pre, y, post, rfl, hpre, hy⟩
      · exact .inl (List.forall_mem_cons.2 ⟨⟨l, hx⟩, h⟩)
      · exact .inr ⟨r, x :: pre, y, post, rfl, List.forall_mem_cons.2 ⟨⟨l, hx⟩, hpre⟩, hy⟩

theorem StopsWith.not_passes {r : ρ} (h : StopsWith visit xs r) : ¬ Passes visit xs := by
  obtain ⟨pre, x, post, rfl, -, hx⟩ := h
  intro hp
  obtain ⟨l, hl⟩ := hp x (by simp)
  rw [hx] at hl
  cases hl

/-- The first level at which something happens. -/
def FirstStop (visit : α → Visit α ρ) (xs : List α) (r : ρ) : Prop :=
  ∃ n, (∀ m < n, Passes visit (level visit m xs)) ∧ StopsWith visit (level visit n xs) r

theorem FirstStop.ends {r : ρ} (h : FirstStop visit xs r) : Ends visit xs (some r) := by
  obtain ⟨n, hp, hs⟩ := h
  obtain ⟨t, -, hk⟩ := fifo_level hp
  exact ⟨_, (hk _).trans hs.fifo⟩

theorem firstStop_of_not_passes (h : ¬ ∀ n, Passes visit (level visit n xs)) :
    ∃ r, FirstStop visit xs r := by
  classical
  have hex : ∃ n, ¬ Passes visit (level visit n xs) := not_forall.1 h
  rcases passes_or_stopsWith (level visit (Nat.find hex) xs) with hp | ⟨r, hr⟩
  · exact absurd hp (Nat.find_spec hex)
  · exact ⟨r, Nat.find hex, fun m hm => not_not.1 (Nat.find_min hex hm), hr⟩

theorem ends_none_of_level_nil (hp : ∀ n, Passes visit (level visit n xs))
    (h : level visit n xs = []) : Ends visit xs none := by
  obtain ⟨t, -, hk⟩ := fifo_level (n := n) fun m _ => hp m
  exact ⟨t + 1, by rw [hk 1, h]; rfl⟩

/-- Where every level passes and none is empty the queue never ends. -/
theorem not_ends (hp : ∀ n, Passes visit (level visit n xs)) (h : ∀ n, level visit n xs ≠ [])
    (r : Option ρ) : ¬ Ends visit xs r := by
  rintro ⟨n, hn⟩
  obtain ⟨t, hle, hk⟩ := fifo_level (n := n) fun m _ => hp m
  have hnt : n ≤ t := hle fun m _ => h m
  have h1 := fifo_add hn (t - n)
  have h2 := hk 0
  rw [Nat.add_zero, ← Nat.add_sub_cancel' hnt, h1] at h2
  cases h2

theorem ends_some_iff {r : ρ} : Ends visit xs (some r) ↔ FirstStop visit xs r := by
  constructor
  · intro h
    by_cases hp : ∀ n, Passes visit (level visit n xs)
    · by_cases hl : ∃ n, level visit n xs = []
      · obtain ⟨n, hn⟩ := hl
        cases h.unique (ends_none_of_level_nil hp hn)
      · exact absurd h (not_ends hp (not_exists.1 hl) _)
    · obtain ⟨r', hr'⟩ := firstStop_of_not_passes hp
      cases h.unique hr'.ends
      exact hr'
  · exact FirstStop.ends

theorem ends_none_iff_level : Ends visit xs none ↔
    (∀ n, Passes visit (level visit n xs)) ∧ ∃ n, level visit n xs = [] := by
  constructor
  · intro h
    have hp : ∀ n, Passes visit (level visit n xs) := by
      refine Classical.byContradiction fun hn => ?_
      obtain ⟨r, hr⟩ := firstStop_of_not_passes hn
      cases h.unique hr.ends
    refine ⟨hp, Classical.byContradiction fun hn => ?_⟩
    exact not_ends hp (not_exists.1 hn) _ h
  · rintro ⟨hp, n, hn⟩
    exact ends_none_of_level_nil hp hn

/-! ## Levels and the graph -/

theorem level_add (m n : Nat) (xs : List α) :
    level visit (m + n) xs = level visit n (level visit m xs) := by
  induction m generalizing xs with
  | zero => simp [level]
  | succ m ih =>
    rw [Nat.add_right_comm]
    exact ih _

@[simp] theorem level_nil (n : Nat) : level visit n [] = [] := by
  induction n with
  | zero => rfl
  | succ n ih => exact ih

theorem mem_level_succ {y : α} :
    y ∈ level visit (n + 1) xs ↔ ∃ x ∈ level visit n xs, Edge visit x y := by
  rw [level_add n 1]
  simp [level, Edge]

theorem exists_mem_level_iff {y : α} :
    (∃ n, y ∈ level visit n xs) ↔ Reachable visit xs y := by
  constructor
  · rintro ⟨n, hn⟩
    induction n generalizing y with
    | zero => exact ⟨y, hn, .refl⟩
    | succ n ih =>
      obtain ⟨x, hx, he⟩ := mem_level_succ.1 hn
      obtain ⟨z, hz, hzx⟩ := ih hx
      exact ⟨z, hz, hzx.tail he⟩
  · rintro ⟨x, hx, h⟩
    induction h with
    | refl => exact ⟨0, hx⟩
    | tail _ he ih =>
      obtain ⟨n, hn⟩ := ih
      exact ⟨n + 1, mem_level_succ.2 ⟨_, hn, he⟩⟩

theorem passes_level_iff : (∀ n, Passes visit (level visit n xs)) ↔
    ∀ y, Reachable visit xs y → ∃ l, visit y = .expand l := by
  constructor
  · intro h y hy
    obtain ⟨n, hn⟩ := exists_mem_level_iff.2 hy
    exact h n y hn
  · intro h n y hy
    exact h y (exists_mem_level_iff.1 ⟨n, hy⟩)

/-- From a node on a cycle the next one on it is reached, and so on. -/
theorem level_ne_nil_of_cycle {x : α} (hx : x ∈ xs) (hc : Relation.TransGen (Edge visit) x x)
    (n : Nat) : level visit n xs ≠ [] := by
  induction n generalizing x xs with
  | zero => exact List.ne_nil_of_mem hx
  | succ n ih =>
    obtain ⟨y, hxy, hyx⟩ := Relation.TransGen.head'_iff.1 hc
    have hy : y ∈ xs.flatMap fun x => (visit x).succ := List.mem_flatMap.2 ⟨x, hx, hxy⟩
    exact ih hy (Relation.TransGen.tail' hyx hxy)

/-- A level that is not empty lies at the end of a path. -/
theorem exists_path (h : level visit n xs ≠ []) :
    ∃ x ∈ xs, ∃ p : List α, p.length = n ∧ List.IsChain (Edge visit) (x :: p) := by
  induction n generalizing xs with
  | zero =>
    obtain ⟨x, hx⟩ := List.exists_mem_of_ne_nil _ h
    exact ⟨x, hx, [], rfl, by simp⟩
  | succ n ih =>
    obtain ⟨y, hy, p, hp, hc⟩ := ih h
    obtain ⟨x, hx, hxy⟩ := List.mem_flatMap.1 hy
    exact ⟨x, hx, y :: p, by simp [hp], List.isChain_cons_cons.2 ⟨hxy, hc⟩⟩

/-- All but the last node of a path have a successor. -/
theorem succ_ne_nil_of_chain {l : List α} (hc : List.IsChain (Edge visit) l) {y : α}
    (hy : y ∈ l.dropLast) : (visit y).succ ≠ [] := by
  induction l with
  | nil => simp at hy
  | cons a l ih =>
    cases l with
    | nil => simp at hy
    | cons b l =>
      rw [List.isChain_cons_cons] at hc
      rw [List.dropLast_cons_of_ne_nil (by simp), List.mem_cons] at hy
      rcases hy with rfl | hy
      · exact List.ne_nil_of_mem hc.1
      · exact ih hc.2 hy

theorem cycle_of_not_nodup {l : List α} (hc : List.IsChain (Edge visit) l) (hn : ¬ l.Nodup) :
    ∃ x ∈ l, Relation.TransGen (Edge visit) x x := by
  refine Classical.byContradiction fun h => hn ?_
  have hp : l.Pairwise (Relation.TransGen (Edge visit)) :=
    List.isChain_iff_pairwise.1 (hc.imp fun _ _ he => .single he)
  refine hp.imp_of_mem fun {a b} ha _ hab heq => h ⟨a, ha, ?_⟩
  rw [← heq] at hab
  exact hab

/-- Only nodes of `support` have successors: some level is empty exactly when no
cycle can be reached. -/
theorem exists_level_nil_iff {support : List α}
    (hsup : ∀ x, (visit x).succ ≠ [] → x ∈ support) :
    (∃ n, level visit n xs = []) ↔
      ¬ ∃ y, Reachable visit xs y ∧ Relation.TransGen (Edge visit) y y := by
  constructor
  · rintro ⟨n, hn⟩ ⟨y, hy, hc⟩
    obtain ⟨m, hm⟩ := exists_mem_level_iff.2 hy
    have h1 := level_ne_nil_of_cycle hm hc n
    rw [← level_add, Nat.add_comm, level_add, hn, level_nil] at h1
    exact h1 rfl
  · intro hac
    refine Classical.byContradiction fun hne => hac ?_
    obtain ⟨x, hx, p, hp, hc⟩ :=
      exists_path (n := support.length + 1) (not_exists.1 hne (support.length + 1))
    -- the path visits more nodes with a successor than there are
    have hsub : ∀ y ∈ (x :: p).dropLast, y ∈ support := fun y hy =>
      hsup y (succ_ne_nil_of_chain hc hy)
    have hdup : ¬ (x :: p).dropLast.Nodup := by
      intro hnd
      have hle := (List.subperm_of_subset hnd hsub).length_le
      rw [List.length_dropLast, List.length_cons, hp] at hle
      omega
    have hpre : (x :: p).dropLast <+: x :: p := List.dropLast_prefix _
    have hchain := hc.prefix hpre
    obtain ⟨y, hy, hcyc⟩ := cycle_of_not_nodup hchain hdup
    have hpw : (x :: p).Pairwise (Relation.ReflTransGen (Edge visit)) :=
      List.isChain_iff_pairwise.1 (hc.imp fun _ _ he => .single he)
    refine ⟨y, ⟨x, hx, ?_⟩, hcyc⟩
    rcases List.mem_cons.1 (hpre.subset hy) with rfl | hy
    · exact .refl
    · exact (List.pairwise_cons.1 hpw).1 y hy

/-- The queue gets empty exactly when nothing that stops it and no cycle can be
reached. -/
theorem ends_none_iff {support : List α} (hsup : ∀ x, (visit x).succ ≠ [] → x ∈ support) :
    Ends visit xs none ↔ (∀ y, Reachable visit xs y → ∃ l, visit y = .expand l) ∧
      ¬ ∃ y, Reachable visit xs y ∧ Relation.TransGen (Edge visit) y y := by
  rw [ends_none_iff_level, passes_level_iff, exists_level_nil_iff hsup]

end Lib
