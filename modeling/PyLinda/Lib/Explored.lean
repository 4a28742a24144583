import Mathlib.Logic.Relation
import PyLinda.Lib.Visited

/-!
# Searches that list what they meet

A search that enters a thing in its list before it goes on from it, and that does not go on
from what is in the list. When it comes back, what it added is closed.
-/

namespace Lib

open Relation

variable {α : Type} {R : α → α → Prop} {P : α → Prop} {l l' l'' : List α}

/-- The search added to `l` and has `l'` now: nothing twice, only what satisfies `P`, and with
everything what it leads to. -/
structure Explored (R : α → α → Prop) (P : α → Prop) (l l' : List α) : Prop where
  grown : l ⊆ l'
  nodup : l.Nodup → l'.Nodup
  origin : ∀ x ∈ l', x ∉ l → P x
  closed : ∀ x ∈ l', x ∉ l → ∀ y, R x y → y ∈ l'

theorem Explored.refl (l : List α) : Explored R P l l where
  grown := List.Subset.refl l
  nodup := id
  origin _ hx hn := absurd hx hn
  closed _ hx hn := absurd hx hn

theorem Explored.trans (h : Explored R P l l') (h' : Explored R P l' l'') :
    Explored R P l l'' where
  grown := List.Subset.trans h.grown h'.grown
  nodup hn := h'.nodup (h.nodup hn)
  origin x hx hn := by
    by_cases hx' : x ∈ l'
    · exact h.origin x hx' hn
    · exact h'.origin x hx hx'
  closed x hx hn y hy := by
    by_cases hx' : x ∈ l'
    · exact h'.grown (h.closed x hx' hn y hy)
    · exact h'.closed x hx hx' y hy

theorem Explored.mono {Q : α → Prop} (h : Explored R P l l') (hPQ : ∀ x, P x → Q x) :
    Explored R Q l l' :=
  ⟨h.grown, h.nodup, fun x hx hn => hPQ x (h.origin x hx hn), h.closed⟩

/-- A thing is entered, and the search goes on until all that it leads to is there. -/
theorem Explored.enter {v : α} (hv : v ∉ l) (hP : P v) (h : Explored R P (l ++ [v]) l')
    (hsucc : ∀ y, R v y → y ∈ l') : Explored R P l l' where
  grown := fun _ hx => h.grown (List.mem_append_left _ hx)
  nodup hn := h.nodup (List.nodup_append.2 ⟨hn, List.pairwise_singleton _ v, fun a ha b hb => by
    obtain rfl := List.mem_singleton.1 hb
    exact fun he => hv (he ▸ ha)⟩)
  origin x hx hn := by
    by_cases he : x = v
    · exact he ▸ hP
    · exact h.origin x hx fun hm => (List.mem_append.1 hm).elim hn fun hm =>
        he (List.mem_singleton.1 hm)
  closed x hx hn y hy := by
    by_cases he : x = v
    · exact hsucc y (he ▸ hy)
    · exact h.closed x hx (fun hm => (List.mem_append.1 hm).elim hn fun hm =>
        he (List.mem_singleton.1 hm)) y hy

/-- A search from `v` with an empty list finds what `v` leads to. -/
theorem Explored.mem_iff {v : α} (h : Explored R (ReflTransGen R v) [] l) (hv : v ∈ l) (y : α) :
    y ∈ l ↔ ReflTransGen R v y := by
  refine ⟨fun hy => h.origin y hy List.not_mem_nil, fun hy => ?_⟩
  induction hy with
  | refl => exact hv
  | tail _ hyz ih => exact h.closed _ ih List.not_mem_nil _ hyz

section
variable [DecidableEq α]

/-- How much of `U` is not in the list. -/
def outside (U l : List α) : Nat := unvisited U fun x => decide (x ∈ l)

theorem outside_mono {U : List α} (h : l ⊆ l') : outside U l' ≤ outside U l :=
  unvisited_mono fun _ hx => decide_eq_true (h (of_decide_eq_true hx))

theorem outside_enter {U : List α} {v : α} (hU : v ∈ U) (hv : v ∉ l) :
    outside U (l ++ [v]) < outside U l :=
  unvisited_lt (fun _ hx => decide_eq_true (List.mem_append_left _ (of_decide_eq_true hx))) hU
    (decide_eq_false hv) (decide_eq_true (List.mem_append_right _ (List.mem_singleton.2 rfl)))

theorem outside_le_length (U l : List α) : outside U l ≤ U.length := List.countP_le_length

end

end Lib
