import Mathlib.Algebra.Order.Group.Multiset
import PyLinda.Lib.Run

/-!
# A bag that can be waited on

Items are put into a bag, and taken or looked at by pattern. A request that no item meets may wait
for one. Each act here is atomic; what an implementation does in one operation may be several acts.
-/

namespace Lib

/-- What is asked for, and whether the item is to be taken out. -/
structure Ask (π : Type) where
  pattern : π
  takes : Bool

/-- The items, and who waits for what. -/
structure Bag (κ π τ : Type) where
  items : Multiset τ
  waiting : Multiset (κ × Ask π)

namespace Bag

variable {κ π τ : Type}

def empty : Bag κ π τ := ⟨0, 0⟩

inductive Act (κ π τ : Type) where
  | put (t : τ)
  /-- Met at once. -/
  | answer (k : κ) (a : Ask π) (t : τ)
  | wait (k : κ) (a : Ask π)
  /-- Met after it has waited. -/
  | wake (k : κ) (a : Ask π) (t : τ)
  /-- Given up. -/
  | release (k : κ) (a : Ask π)
  | collect (p : π) (ts : Multiset τ)
  | copy (p : π) (ts : Multiset τ)

/-- What is left of `t` and the other items when `t` has met `a`. -/
def rest (a : Ask π) (t : τ) (items : Multiset τ) : Multiset τ := if a.takes then items else t ::ₘ items

/-- `Meets p t`: the item `t` is one that `p` asks for. -/
inductive Step (Meets : π → τ → Prop) : Bag κ π τ → Act κ π τ → Bag κ π τ → Prop where
  | put {t : τ} {items : Multiset τ} {w : Multiset (κ × Ask π)} :
      Step Meets ⟨items, w⟩ (.put t) ⟨t ::ₘ items, w⟩
  | answer {k : κ} {a : Ask π} {t : τ} {items : Multiset τ} {w : Multiset (κ × Ask π)} :
      Meets a.pattern t → Step Meets ⟨t ::ₘ items, w⟩ (.answer k a t) ⟨rest a t items, w⟩
  | wait {k : κ} {a : Ask π} {items : Multiset τ} {w : Multiset (κ × Ask π)} :
      (∀ t ∈ items, ¬ Meets a.pattern t) → Step Meets ⟨items, w⟩ (.wait k a) ⟨items, (k, a) ::ₘ w⟩
  | wake {k : κ} {a : Ask π} {t : τ} {items : Multiset τ} {w : Multiset (κ × Ask π)} :
      Meets a.pattern t → Step Meets ⟨t ::ₘ items, (k, a) ::ₘ w⟩ (.wake k a t) ⟨rest a t items, w⟩
  | release {k : κ} {a : Ask π} {items : Multiset τ} {w : Multiset (κ × Ask π)} :
      Step Meets ⟨items, (k, a) ::ₘ w⟩ (.release k a) ⟨items, w⟩
  | collect {p : π} {ts items : Multiset τ} {w : Multiset (κ × Ask π)} :
      (∀ t ∈ ts, Meets p t) → (∀ t ∈ items, ¬ Meets p t) →
      Step Meets ⟨ts + items, w⟩ (.collect p ts) ⟨items, w⟩
  | copy {p : π} {ts items : Multiset τ} {w : Multiset (κ × Ask π)} :
      (∀ t ∈ ts, Meets p t) → (∀ t ∈ items, ¬ Meets p t) →
      Step Meets ⟨ts + items, w⟩ (.copy p ts) ⟨ts + items, w⟩

namespace Act

/-- The items put in. -/
def puts : Act κ π τ → Multiset τ
  | put t => {t}
  | _ => 0

/-- The items handed out for good. -/
def taken : Act κ π τ → Multiset τ
  | answer _ a t | wake _ a t => if a.takes then {t} else 0
  | collect _ ts => ts
  | _ => 0

end Act

variable {Meets : π → τ → Prop} {s s' : Bag κ π τ} {act : Act κ π τ}
  {tr : List (Bag κ π τ × Act κ π τ)}

/-! ## One act -/

theorem rest_add (a : Ask π) (t : τ) (items : Multiset τ) :
    rest a t items + (if a.takes then {t} else 0) = t ::ₘ items := by
  unfold rest
  split
  · rw [add_comm, Multiset.singleton_add]
  · rw [add_zero]

theorem Step.items (h : Step Meets s act s') : s.items + act.puts = s'.items + act.taken := by
  cases h with
  | put => rw [add_comm]; exact (Multiset.singleton_add _ _).trans (add_zero _).symm
  | answer | wake => exact (add_zero _).trans (rest_add _ _ _).symm
  | wait | release | copy => rfl
  | collect => exact (add_zero _).trans (add_comm _ _)

theorem Step.collect_le {p : π} {ts : Multiset τ} (h : Step Meets s (.collect p ts) s') : ts ≤ s.items := by
  cases h
  exact Multiset.le_add_right _ _

theorem Step.copy_le {p : π} {ts : Multiset τ} (h : Step Meets s (.copy p ts) s') : ts ≤ s.items := by
  cases h
  exact Multiset.le_add_right _ _

/-- A further request that waits is not in the way. -/
theorem Step.frame (h : Step Meets s act s') (x : κ × Ask π) :
    Step Meets ⟨s.items, x ::ₘ s.waiting⟩ act ⟨s'.items, x ::ₘ s'.waiting⟩ := by
  cases h with
  | put => exact .put
  | answer hm => exact .answer hm
  | wait hno =>
    rw [Multiset.cons_swap]
    exact .wait hno
  | wake hm =>
    rw [Multiset.cons_swap]
    exact .wake hm
  | release =>
    rw [Multiset.cons_swap]
    exact .release
  | collect hts hno => exact .collect hts hno
  | copy hts hno => exact .copy hts hno

/-! ## Runs -/

theorem run_frame (h : Run (Step Meets) s tr s') (x : κ × Ask π) :
    ∃ tr', Run (Step Meets) ⟨s.items, x ::ₘ s.waiting⟩ tr' ⟨s'.items, x ::ₘ s'.waiting⟩ ∧
      tr'.map Prod.snd = tr.map Prod.snd := by
  induction h with
  | nil => exact ⟨[], .nil _, rfl⟩
  | cons hs _ ih =>
    obtain ⟨tr', hrun, hacts⟩ := ih
    exact ⟨_, .cons (hs.frame x) hrun, by rw [List.map_cons, List.map_cons, hacts]⟩

/-! ## Refinement -/

/-- A system whose every step is a run of the bag, as `g` sees it, runs as the bag does. -/
theorem refines {σ ε : Type} {step : σ → ε → σ → Prop} {I : σ → Prop} {g : σ → Bag κ π τ}
    {f : σ → ε → List (Act κ π τ)}
    (hI : ∀ s e s', I s → step s e s' → I s')
    (hstep : ∀ s e s', I s → step s e s' →
      ∃ tr, Run (Step Meets) (g s) tr (g s') ∧ tr.map Prod.snd = f s e)
    {s s' : σ} {tr : List (σ × ε)} (h : Run step s tr s') (h0 : I s) :
    ∃ btr, Run (Step Meets) (g s) btr (g s') ∧ btr.map Prod.snd = tr.flatMap fun x => f x.1 x.2 := by
  induction h with
  | nil => exact ⟨[], .nil _, rfl⟩
  | cons hs _ ih =>
    obtain ⟨btr, hrun, hacts⟩ := hstep _ _ _ h0 hs
    obtain ⟨btr', hrun', hacts'⟩ := ih (hI _ _ _ h0 hs)
    exact ⟨btr ++ btr', hrun.append hrun', by rw [List.map_append, hacts, hacts']; rfl⟩

end Bag

end Lib
