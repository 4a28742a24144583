import Mathlib.Data.List.Forall2

/-!
# Graphs up to renaming

A graph gives a node its label and the nodes it points at. Two nodes are the same up to
renaming when a one-to-one relation holds of them and is kept along the edges.
-/

namespace Lib

variable {A B L : Type}

/-- `R` is one to one, and related nodes agree. -/
structure Renaming (g : A → Option (L × List A)) (g' : B → Option (L × List B))
    (R : A → B → Prop) : Prop where
  right_unique : ∀ a b b', R a b → R a b' → b = b'
  left_unique : ∀ a a' b, R a b → R a' b → a = a'
  node : ∀ a b, R a b → ∃ l xs ys, g a = some (l, xs) ∧ g' b = some (l, ys) ∧ List.Forall₂ R xs ys

/-- What can be reached of `a` and of `b` is the same up to the names of the nodes. -/
def Iso (g : A → Option (L × List A)) (a : A) (g' : B → Option (L × List B)) (b : B) : Prop :=
  ∃ R, Renaming g g' R ∧ R a b

variable {g : A → Option (L × List A)} {g' : B → Option (L × List B)} {R : A → B → Prop}

/-- Where both nodes are known. -/
theorem Renaming.agree (h : Renaming g g' R) {a : A} {b : B} (hr : R a b) {l l' : L} {xs : List A}
    {ys : List B} (ha : g a = some (l, xs)) (hb : g' b = some (l', ys)) :
    l = l' ∧ List.Forall₂ R xs ys := by
  obtain ⟨m, us, vs, hau, hbv, huv⟩ := h.node a b hr
  rw [ha] at hau
  rw [hb] at hbv
  cases hau
  cases hbv
  exact ⟨rfl, huv⟩

end Lib
