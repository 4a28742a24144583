import PyLinda.Lib.Worklist

/-!
# A worklist with memory

The queue of `Worklist`, but a node that was there before is passed over. It always
ends on a finite graph, and gets empty exactly when no node that stops it can be
reached.
-/

namespace Lib

variable {α ρ : Type}

/-- Who is in the memory passes, and its successors are there or still to come. -/
def Marked (visit : α → Visit α ρ) (memo xs : List α) : Prop :=
  ∀ x ∈ memo, ∃ l, visit x = .expand l ∧ ∀ y ∈ l, y ∈ memo ∨ y ∈ xs

variable {visit : α → Visit α ρ} {memo xs l : List α} {x : α}

theorem Marked.skip (h : Marked visit memo (x :: xs)) (hx : x ∈ memo) : Marked visit memo xs := by
  intro y hy
  obtain ⟨l, hl, hs⟩ := h y hy
  refine ⟨l, hl, fun z hz => ?_⟩
  rcases hs z hz with h' | h'
  · exact .inl h'
  · rcases List.mem_cons.1 h' with rfl | h'
    · exact .inl hx
    · exact .inr h'

theorem Marked.expand (h : Marked visit memo (x :: xs)) (hx : visit x = .expand l) :
    Marked visit (memo ++ [x]) (xs ++ l) := by
  intro y hy
  rcases List.mem_append.1 hy with hy | hy
  · obtain ⟨l', hl', hs⟩ := h y hy
    refine ⟨l', hl', fun z hz => ?_⟩
    rcases hs z hz with h' | h'
    · exact .inl (List.mem_append_left _ h')
    · rcases List.mem_cons.1 h' with rfl | h'
      · exact .inl (by simp)
      · exact .inr (List.mem_append_left _ h')
  · obtain rfl := List.mem_singleton.1 hy
    exact ⟨l, hx, fun z hz => .inr (List.mem_append_right _ hz)⟩

/-- With an empty queue the memory is closed. -/
theorem Marked.closed (h : Marked visit memo []) {y : α} (hx : x ∈ memo)
    (hxy : Relation.ReflTransGen (Edge visit) x y) : y ∈ memo := by
  induction hxy with
  | refl => exact hx
  | tail _ he ih =>
    obtain ⟨l, hl, hs⟩ := h _ ih
    have hmem := hs _ (by simpa [Edge, hl, Visit.succ] using he)
    simpa using hmem

variable [DecidableEq α]

/-- The queue worked off in at most `n` turns, with `memo` the nodes that were there.
`some none` when it gets empty. -/
def marking (visit : α → Visit α ρ) : Nat → List α → List α → Option (Option ρ)
  | 0, _, _ => none
  | _ + 1, _, [] => some none
  | n + 1, memo, x :: xs =>
    if x ∈ memo then marking visit n memo xs
    else match visit x with
      | .stop r => some (some r)
      | .expand l => marking visit n (memo ++ [x]) (xs ++ l)

/-- What the queue met was a root or can be reached from one. -/
theorem marking_some {n : Nat} {r : ρ} (h : marking visit n memo xs = some (some r)) :
    ∃ y, Reachable visit xs y ∧ visit y = .stop r := by
  induction n generalizing memo xs with
  | zero => cases h
  | succ n ih =>
    cases xs with
    | nil => cases h
    | cons x xs =>
      simp only [marking] at h
      split at h
      · obtain ⟨y, ⟨z, hz, hzy⟩, hy⟩ := ih h
        exact ⟨y, ⟨z, List.mem_cons_of_mem x hz, hzy⟩, hy⟩
      · cases hx : visit x with
        | stop r' =>
          rw [hx] at h
          cases h
          exact ⟨x, ⟨x, List.mem_cons_self, .refl⟩, hx⟩
        | expand l =>
          rw [hx] at h
          obtain ⟨y, ⟨z, hz, hzy⟩, hy⟩ := ih h
          rcases List.mem_append.1 hz with hz | hz
          · exact ⟨y, ⟨z, List.mem_cons_of_mem x hz, hzy⟩, hy⟩
          · have he : Edge visit x z := by simpa [Edge, hx, Visit.succ] using hz
            exact ⟨y, ⟨x, List.mem_cons_self, .head he hzy⟩, hy⟩

/-- A queue that got empty met everything that can be reached. -/
theorem marking_none {n : Nat} (h : marking visit n memo xs = some none)
    (hm : Marked visit memo xs) : ∃ memo', memo ⊆ memo' ∧ xs ⊆ memo' ∧ Marked visit memo' [] := by
  induction n generalizing memo xs with
  | zero => cases h
  | succ n ih =>
    cases xs with
    | nil => exact ⟨memo, List.Subset.refl _, List.nil_subset _, hm⟩
    | cons x xs =>
      simp only [marking] at h
      split at h
      · rename_i hx
        obtain ⟨memo', h1, h2, h3⟩ := ih h (hm.skip hx)
        exact ⟨memo', h1, List.cons_subset.2 ⟨h1 hx, h2⟩, h3⟩
      · cases hx : visit x with
        | stop r =>
          rw [hx] at h
          cases h
        | expand l =>
          rw [hx] at h
          obtain ⟨memo', h1, h2, h3⟩ := ih h (hm.expand hx)
          exact ⟨memo', (List.append_subset.1 h1).1,
            List.cons_subset.2 ⟨h1 (by simp), (List.append_subset.1 h2).1⟩, h3⟩

/-- Only nodes of `support` have successors: the queue ends. -/
theorem marking_ends {support : List α} (hsup : ∀ x, (visit x).succ ≠ [] → x ∈ support)
    (memo xs : List α) : ∃ n r, marking visit n memo xs = some r := by
  match xs with
  | [] => exact ⟨1, none, rfl⟩
  | x :: xs =>
    by_cases hm : x ∈ memo
    · obtain ⟨n, r, hn⟩ := marking_ends hsup memo xs
      exact ⟨n + 1, r, by simp [marking, hm, hn]⟩
    · cases hx : visit x with
      | stop r => exact ⟨1, some r, by simp [marking, hm, hx]⟩
      | expand l =>
        have hle : (support.filter (· ∉ memo ++ [x])).length < (support.filter (· ∉ memo)).length ∨
            (support.filter (· ∉ memo ++ [x])).length ≤ (support.filter (· ∉ memo)).length ∧
              l = [] := by
          have heq : support.filter (· ∉ memo ++ [x]) =
              (support.filter (· ∉ memo)).filter (· ≠ x) := by
            simp [List.filter_filter, and_comm]
          rw [heq]
          cases l with
          | nil => exact .inr ⟨List.length_filter_le _ _, rfl⟩
          | cons y l =>
            have hmem : x ∈ support := hsup x (by simp [hx, Visit.succ])
            exact .inl (List.length_filter_lt_length_iff_exists.2 ⟨x, by simp [hmem, hm], by simp⟩)
        obtain ⟨n, r, hn⟩ := marking_ends hsup (memo ++ [x]) (xs ++ l)
        exact ⟨n + 1, r, by simp [marking, hm, hx, hn]⟩
termination_by ((support.filter (· ∉ memo)).length, xs.length)
decreasing_by
  · exact Prod.Lex.right _ (by simp)
  · rcases hle with hlt | ⟨hle, rfl⟩
    · exact Prod.Lex.left _ _ hlt
    · rcases Nat.lt_or_eq_of_le hle with hlt | heq
      · exact Prod.Lex.left _ _ hlt
      · rw [heq]
        exact Prod.Lex.right _ (by simp)

/-- The queue ends; it gets empty exactly when no node that stops it can be reached. -/
theorem marking_iff {support : List α} (hsup : ∀ x, (visit x).succ ≠ [] → x ∈ support)
    (hm : Marked visit memo xs) : ∃ n r, marking visit n memo xs = some r ∧
      (r = none ↔ ∀ y, Reachable visit xs y → ∃ l, visit y = .expand l) := by
  obtain ⟨n, r, hn⟩ := marking_ends hsup memo xs
  refine ⟨n, r, hn, ?_⟩
  cases r with
  | none =>
    obtain ⟨memo', -, hxs, hclosed⟩ := marking_none hn hm
    refine iff_of_true rfl fun y ⟨x, hx, hxy⟩ => ?_
    obtain ⟨l, hl, -⟩ := hclosed y (hclosed.closed (hxs hx) hxy)
    exact ⟨l, hl⟩
  | some r =>
    obtain ⟨y, hy, hstop⟩ := marking_some hn
    refine iff_of_false (by simp) fun h => ?_
    obtain ⟨l, hl⟩ := h y hy
    rw [hstop] at hl
    cases hl

end Lib
