import Mathlib.Data.Fintype.EquivFin
import Mathlib.Data.Set.Finite.Basic
import Mathlib.Logic.Relation

/-!
# Relations without cycles

Among finitely many things, a relation without cycles goes on from each of them for a bounded
number of steps only; and a relation along which a number falls has no cycles.
-/

namespace Lib

open Relation

variable {α : Type} {R : α → α → Prop}

theorem acc_of_acyclic {a : α} (hfin : Set.Finite {x | ReflTransGen R a x})
    (h : ∀ x, ReflTransGen R a x → ¬ TransGen R x x) : Acc (flip R) a := by
  have : Finite {x // ReflTransGen R a x} := hfin.to_subtype
  have : IsTrans {x // ReflTransGen R a x} fun x y => TransGen R y.1 x.1 :=
    ⟨fun _ _ _ hxy hyz => hyz.trans hxy⟩
  have : Std.Irrefl fun x y : {x // ReflTransGen R a x} => TransGen R y.1 x.1 :=
    ⟨fun x hx => h x.1 x.2 hx⟩
  have hwf := Finite.wellFounded_of_trans_of_irrefl
    fun x y : {x // ReflTransGen R a x} => TransGen R y.1 x.1
  -- what is reached from `x` is reached from `a`, so the order on what `a` reaches is enough
  have hacc : ∀ x : {x // ReflTransGen R a x}, Acc (flip R) x.1 := by
    intro x
    induction x using hwf.induction with
    | _ x ih => exact Acc.intro x.1 fun y hxy => ih ⟨y, x.2.tail hxy⟩ (.single hxy)
  exact hacc ⟨a, .refl⟩

/-- `P` says how far a thing is from the end; every step brings it nearer. -/
theorem not_cycle_of_falls {P : Nat → α → Prop}
    (h : ∀ n a b, P n a → R a b → ∃ m < n, P m b) (n : Nat) :
    ∀ a, P n a → ¬ TransGen R a a := by
  have hfar : ∀ a b, TransGen R a b → ∀ n, P n a → ∃ m < n, P m b := by
    intro a b hab
    induction hab with
    | single hab => exact fun n ha => h n _ _ ha hab
    | tail _ hbc ih =>
      intro n ha
      obtain ⟨m, hm, hb⟩ := ih n ha
      obtain ⟨k, hk, hc⟩ := h m _ _ hb hbc
      exact ⟨k, by omega, hc⟩
  induction n using Nat.strong_induction_on with
  | _ n ih =>
    intro a ha hcyc
    obtain ⟨m, hm, ha'⟩ := hfar a a hcyc n ha
    exact ih m hm a ha' hcyc

end Lib
