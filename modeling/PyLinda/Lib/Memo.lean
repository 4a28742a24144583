import Mathlib.Data.List.Basic

/-!
# Tables of what was made of what

A list of pairs that only grows. When each thing is given the next number there is, the table
is a numbering.
-/

namespace Lib.Memo

section
variable {α β : Type} {m m' : List (α × β)} {v : α}

def keys (m : List (α × β)) : List α := m.map Prod.fst

theorem keys_append : keys (m ++ m') = keys m ++ keys m' := List.map_append

theorem keys_grown (hgrown : m <+: m') (h : v ∈ keys m) : v ∈ keys m' := by
  obtain ⟨more, rfl⟩ := hgrown
  rw [keys_append]
  exact List.mem_append_left _ h

variable [BEq α]

/-- What was made of `v`. -/
def place [Inhabited β] (m : List (α × β)) (v : α) : β := (m.lookup v).getD default

variable [LawfulBEq α]

theorem lookup_none : m.lookup v = none ↔ v ∉ keys m := by
  rw [List.lookup_eq_none_iff]
  constructor
  · intro h hv
    obtain ⟨e, he, rfl⟩ := List.mem_map.1 hv
    exact bne_iff_ne.1 (h e he) rfl
  · intro h e he
    refine bne_iff_ne.2 fun heq => h ?_
    rw [heq]
    exact List.mem_map_of_mem he

theorem lookup_some {a : β} (h : m.lookup v = some a) : v ∈ keys m := by
  refine Classical.byContradiction fun hv => ?_
  rw [lookup_none.2 hv] at h
  cases h

variable [Inhabited β]

theorem lookup_place (h : v ∈ keys m) : m.lookup v = some (place m v) := by
  unfold place
  cases hl : m.lookup v with
  | none => exact absurd h (lookup_none.1 hl)
  | some a => rfl

theorem place_append (h : v ∈ keys m) : place (m ++ m') v = place m v := by
  unfold place
  rw [List.lookup_append, lookup_place h]
  rfl

theorem place_grown (hgrown : m <+: m') (h : v ∈ keys m) : place m' v = place m v := by
  obtain ⟨more, rfl⟩ := hgrown
  exact place_append h

theorem place_snoc (h : v ∉ keys m) (a : β) : place (m ++ [(v, a)]) v = a := by
  unfold place
  rw [List.lookup_append, lookup_none.2 h, List.lookup_cons_self]
  rfl

end

section
variable {α : Type} [BEq α]

/-- The numbers from `base` up to `next` have been given to the things in the table. -/
structure Numbers (m : List (α × Nat)) (base next : Nat) : Prop where
  nodup : (keys m).Nodup
  injective : ∀ v ∈ keys m, ∀ w ∈ keys m, place m v = place m w → v = w
  onto : ∀ a, base ≤ a ∧ a < next ↔ ∃ v ∈ keys m, place m v = a

theorem Numbers.empty (base : Nat) : Numbers ([] : List (α × Nat)) base base where
  nodup := List.nodup_nil
  injective _ hv := by cases hv
  onto a := by
    constructor
    · intro ⟨h1, h2⟩
      omega
    · intro ⟨v, hv, _⟩
      cases hv

variable {m : List (α × Nat)} {base next : Nat} {v : α}

theorem Numbers.range (h : Numbers m base next) (hv : v ∈ keys m) :
    base ≤ place m v ∧ place m v < next := (h.onto _).2 ⟨v, hv, rfl⟩

variable [LawfulBEq α]

/-- The next number is given to something new. -/
theorem Numbers.snoc (h : Numbers m base next) (hle : base ≤ next) (hv : v ∉ keys m) :
    Numbers (m ++ [(v, next)]) base (next + 1) := by
  have hkeys : keys (m ++ [(v, next)]) = keys m ++ [v] := keys_append
  have hold : ∀ w ∈ keys m, place (m ++ [(v, next)]) w = place m w := fun w hw => place_append hw
  have hnew : place (m ++ [(v, next)]) v = next := place_snoc hv next
  have hcases : ∀ w ∈ keys (m ++ [(v, next)]), w ∈ keys m ∨ w = v := by
    intro w hw
    rw [hkeys] at hw
    exact (List.mem_append.1 hw).imp id List.mem_singleton.1
  refine ⟨?_, ?_, fun a => ⟨fun ha => ?_, fun ⟨w, hw, he⟩ => ?_⟩⟩
  · rw [hkeys]
    exact List.nodup_append.2 ⟨h.nodup, List.nodup_cons.2 ⟨List.not_mem_nil, List.nodup_nil⟩, fun w hw u hu he =>
      hv (List.mem_singleton.1 hu ▸ he ▸ hw)⟩
  · intro w hw u hu he
    cases hcases w hw with
    | inl hw =>
      rw [hold w hw] at he
      have hrange := h.range hw
      cases hcases u hu with
      | inl hu => exact h.injective w hw u hu (he.trans (hold u hu))
      | inr hu =>
        subst hu
        rw [hnew] at he
        omega
    | inr hw =>
      subst hw
      rw [hnew] at he
      cases hcases u hu with
      | inl hu =>
        rw [hold u hu] at he
        have hrange := h.range hu
        omega
      | inr hu => exact hu.symm
  · by_cases hlast : a = next
    · exact ⟨v, by rw [hkeys]; exact List.mem_append_right _ List.mem_cons_self, hlast ▸ hnew⟩
    · obtain ⟨w, hw, he⟩ := (h.onto a).1 ⟨ha.1, by omega⟩
      exact ⟨w, by rw [hkeys]; exact List.mem_append_left _ hw, (hold w hw).trans he⟩
  · cases hcases w hw with
    | inl hw =>
      rw [hold w hw] at he
      have hrange := h.range hw
      omega
    | inr hw =>
      subst hw
      rw [hnew] at he
      omega

end

end Lib.Memo
