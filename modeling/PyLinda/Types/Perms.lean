import Mathlib.Data.List.Permutation
import PyLinda.Types.Compare

/-!
# The orders that the comparison of sums tries

`all_perms` puts the first element in every place of every order of the others.
-/

namespace PyLinda.Types

section
variable {α : Type}

/-- The places of one order, first to last. -/
theorem insertions_eq (x : α) (perm : List α) :
    ((List.range (perm.length + 1)).map fun i => perm.take i ++ x :: perm.drop i) =
      List.permutations'Aux x perm := by
  induction perm with
  | nil => rfl
  | cons y perm ih =>
    rw [List.length_cons, List.range_succ_eq_map, List.map_cons, List.map_map]
    show (x :: y :: perm) :: _ = (x :: y :: perm) :: (List.permutations'Aux x perm).map (y :: ·)
    rw [← ih, List.map_map]
    rfl

/-- The generator follows the recursion of the library's enumeration; the list of one element is
a case of its own in the source only. -/
theorem allPerms_eq (l : List α) : allPerms l = l.permutations' := by
  induction l with
  | nil => rfl
  | cons x l ih =>
    cases l with
    | nil => rfl
    | cons y ys =>
      unfold allPerms
      rw [ih, List.permutations']
      exact congrArg (fun f => (y :: ys).permutations'.flatMap f) (funext (insertions_eq x))

theorem mem_allPerms {l perm : List α} : perm ∈ allPerms l ↔ perm.Perm l := by
  rw [allPerms_eq]
  exact List.mem_permutations'

/-- Nothing comes twice when the elements are distinct. -/
theorem nodup_allPerms {l : List α} (h : l.Nodup) : (allPerms l).Nodup := by
  rw [allPerms_eq, ← (List.permutations_perm_permutations' l).nodup_iff]
  exact List.nodup_permutations l h

/-- `all_perms` yields every order of distinct elements, each of them once, and nothing else. -/
theorem allPerms_enumerates (l : List α) (h : l.Nodup) :
    (allPerms l).Nodup ∧ ∀ perm : List α, perm ∈ allPerms l ↔ perm.Perm l :=
  ⟨nodup_allPerms h, fun _ => mem_allPerms⟩

theorem allPerms_range_enumerated :
    (allPerms (List.range 3)).Nodup ∧
      ∀ perm : List Nat, perm ∈ allPerms (List.range 3) ↔ perm.Perm (List.range 3) :=
  allPerms_enumerates (List.range 3) (List.nodup_range)

example : allPerms [0, 1, 2] =
    [[0, 1, 2], [1, 0, 2], [1, 2, 0], [0, 2, 1], [2, 0, 1], [2, 1, 0]] := by decide

end

end PyLinda.Types
