import Mathlib.Algebra.BigOperators.Group.Finset.Basic
import Mathlib.Data.Multiset.Filter
import Mathlib.Logic.Relation

/-!
# Objects that are held by references

Objects refer to each other, with multiplicities, and are referred to from outside. An object
is held if a reference from outside leads to it.
-/

namespace Lib

section
variable {α : Type} (refs : α → List α)

/-- There is a way along references. -/
def Leads : α → α → Prop := Relation.ReflTransGen fun a b => b ∈ refs a

/-- The objects of `L` refer to objects of `L`, and those are the ones that the references
`ext` from outside hold. -/
structure Held (L : Finset α) (ext : Multiset α) : Prop where
  closed : ∀ q ∈ L, ∀ r ∈ refs q, r ∈ L
  inside : ∀ q ∈ ext, q ∈ L
  held : ∀ q ∈ L, ∃ r ∈ ext, Leads refs r q

variable {refs}

theorem Leads.refl (a : α) : Leads refs a a := Relation.ReflTransGen.refl

theorem Leads.trans {a b c : α} (h : Leads refs a b) (h' : Leads refs b c) : Leads refs a c :=
  Relation.ReflTransGen.trans h h'

theorem Leads.tail {a b c : α} (h : Leads refs a b) (h' : c ∈ refs b) : Leads refs a c :=
  Relation.ReflTransGen.tail h h'

theorem Leads.head {a b c : α} (h : b ∈ refs a) (h' : Leads refs b c) : Leads refs a c :=
  Relation.ReflTransGen.head h h'

theorem Leads.mem {L : Finset α} (hL : ∀ q ∈ L, ∀ r ∈ refs q, r ∈ L) {a b : α}
    (h : Leads refs a b) (ha : a ∈ L) : b ∈ L := by
  induction h with
  | refl => exact ha
  | tail _ hr ih => exact hL _ ih _ hr

section
variable {L : Finset α} {ext : Multiset α}

/-- The objects of `L` are the ones that `ext` leads to. -/
theorem Held.mem_iff (h : Held refs L ext) (q : α) : q ∈ L ↔ ∃ r ∈ ext, Leads refs r q := by
  constructor
  · exact h.held q
  · rintro ⟨r, hr, hrq⟩
    exact hrq.mem h.closed (h.inside r hr)

theorem Leads.congr {refs' : α → List α} (hL : ∀ q ∈ L, ∀ r ∈ refs q, r ∈ L)
    (h : ∀ q ∈ L, refs' q = refs q) {a b : α} (ha : a ∈ L) (hab : Leads refs a b) :
    Leads refs' a b := by
  induction hab with
  | refl => exact .refl a
  | tail hav hb ih => exact ih.tail (h _ (Leads.mem hL hav ha) ▸ hb)

/-- Only the references of the objects matter. -/
theorem Held.congr {refs' : α → List α} (hh : Held refs L ext)
    (h : ∀ q ∈ L, refs' q = refs q) : Held refs' L ext where
  closed q hq r hr := hh.closed q hq r (h q hq ▸ hr)
  inside := hh.inside
  held q hq := by
    obtain ⟨r, hr, hrq⟩ := hh.held q hq
    exact ⟨r, hr, hrq.congr hh.closed h (hh.inside r hr)⟩

/-- A reference to `p` is dropped, and another one still leads to `p`. -/
theorem Held.drop {p : α} (h : Held refs L (p ::ₘ ext)) (hp : ∃ r ∈ ext, Leads refs r p) :
    Held refs L ext where
  closed := h.closed
  inside q hq := h.inside q (Multiset.mem_cons_of_mem hq)
  held q hq := by
    obtain ⟨r, hr, hrq⟩ := h.held q hq
    cases Multiset.mem_cons.1 hr with
    | inl hr =>
      obtain ⟨r', hr', hr'p⟩ := hp
      exact ⟨r', hr', hr'p.trans (hr ▸ hrq)⟩
    | inr hr => exact ⟨r, hr, hrq⟩

/-- An object that leads to `p` and is referred to from where `p` does not lead. -/
theorem Held.drop_of_outside {p q : α} (h : Held refs L (p ::ₘ ext)) (hq : Leads refs q p)
    (hout : q ∈ ext ∨ ∃ x ∈ L, ¬ Leads refs p x ∧ q ∈ refs x) : Held refs L ext := by
  apply h.drop
  cases hout with
  | inl hext => exact ⟨q, hext, hq⟩
  | inr hx =>
    obtain ⟨x, hx, hpx, hqx⟩ := hx
    obtain ⟨r, hr, hrx⟩ := h.held x hx
    cases Multiset.mem_cons.1 hr with
    | inl hr => exact absurd (hr ▸ hrx) hpx
    | inr hr => exact ⟨r, hr, hrx.trans (Leads.head hqx hq)⟩

end

/-! ## Counting -/

section
variable [DecidableEq α]

variable (refs) in
/-- How many references to `q` the objects of `L` have. -/
def inRefs (L : Finset α) (q : α) : Nat := ∑ x ∈ L, (refs x).count q

theorem inRefs_sdiff {L C : Finset α} (hC : C ⊆ L) (q : α) :
    inRefs refs (L \ C) q + inRefs refs C q = inRefs refs L q := Finset.sum_sdiff hC

theorem inRefs_mono {L R : Finset α} (hR : R ⊆ L) (q : α) : inRefs refs R q ≤ inRefs refs L q := by
  have h := @inRefs_sdiff _ refs _ L R hR q
  omega

theorem inRefs_eq_zero_iff {L : Finset α} {q : α} :
    inRefs refs L q = 0 ↔ ∀ x ∈ L, q ∉ refs x := by
  unfold inRefs
  rw [Finset.sum_eq_zero_iff]
  exact forall₂_congr fun x _ => List.count_eq_zero

theorem inRefs_congr {refs' : α → List α} {L : Finset α} (h : ∀ q ∈ L, refs' q = refs q) (q : α) :
    inRefs refs' L q = inRefs refs L q :=
  Finset.sum_congr rfl fun x hx => by rw [h x hx]

/-- The references of distinct objects one after another. -/
theorem count_flatMap (q : α) : ∀ ms : List α, ms.Nodup →
    (ms.flatMap refs).count q = inRefs refs ms.toFinset q := by
  intro ms
  induction ms with
  | nil =>
    intro _
    rfl
  | cons m ms ih =>
    intro h
    obtain ⟨hm, hms⟩ := List.nodup_cons.1 h
    rw [List.flatMap_cons, List.count_append, ih hms, List.toFinset_cons]
    unfold inRefs
    rw [Finset.sum_insert fun hmem => hm (List.mem_toFinset.1 hmem)]

section
variable {L : Finset α} {ext : Multiset α}

/-- More references to `q` are counted than the objects have that `p` leads to: there is one
from elsewhere. -/
theorem outside_of_lt {R : Finset α} (hR : R ⊆ L) {q : α}
    (h : inRefs refs R q < inRefs refs L q + ext.count q) :
    q ∈ ext ∨ ∃ x ∈ L, x ∉ R ∧ q ∈ refs x := by
  by_cases hq : q ∈ ext
  · exact .inl hq
  · rw [Multiset.count_eq_zero.2 hq] at h
    have hs := @inRefs_sdiff _ refs _ L R hR q
    have hne : ¬ inRefs refs (L \ R) q = 0 := by omega
    rw [inRefs_eq_zero_iff] at hne
    push Not at hne
    obtain ⟨x, hx, hqx⟩ := hne
    obtain ⟨hxL, hxR⟩ := Finset.mem_sdiff.1 hx
    exact .inr ⟨x, hxL, hxR, hqx⟩

/-- The references that the objects of `ms` have to others. -/
def outRefs (refs : α → List α) (ms : List α) : List α :=
  (ms.flatMap refs).filter fun r => r ∉ ms

/-- Along a way, the last object of `ms` leaves them by one of its references. -/
theorem leaves {ms : List α} {r q : α} (hr : r ∈ ms ∨ r ∈ ext) (h : Leads refs r q) :
    q ∈ ms ∨ ∃ s, (s ∈ (↑(outRefs refs ms) : Multiset α) ∨ s ∈ ext) ∧ Leads refs s q := by
  induction h with
  | refl => exact hr.imp_right fun hr => ⟨r, .inr hr, .refl r⟩
  | @tail v w _ hw ih =>
    by_cases hwm : w ∈ ms
    · exact .inl hwm
    · right
      cases ih with
      | inl hv =>
        refine ⟨w, .inl (Multiset.mem_coe.2 ?_), .refl w⟩
        exact List.mem_filter.2 ⟨List.mem_flatMap.2 ⟨v, hv, hw⟩, decide_eq_true hwm⟩
      | inr hs =>
        obtain ⟨s, hs, hsv⟩ := hs
        exact ⟨s, hs, hsv.tail hw⟩

/-- Objects that only they themselves refer to are taken out; what they refer to is then
referred to from outside. -/
theorem Held.detach {p : α} {ms : List α} (h : Held refs L (p ::ₘ ext)) (hp : p ∈ ms)
    (hext : ∀ q ∈ ms, q ∉ ext) (hin : ∀ x ∈ L, ∀ r ∈ refs x, r ∈ ms → x ∈ ms)
    (hms : ∀ q ∈ ms, q ∈ L) :
    Held refs (L \ ms.toFinset) (↑(outRefs refs ms) + ext) where
  closed q hq r hr := by
    obtain ⟨hq, hqm⟩ := Finset.mem_sdiff.1 hq
    refine Finset.mem_sdiff.2 ⟨h.closed q hq r hr, fun hrm => hqm ?_⟩
    exact List.mem_toFinset.2 (hin q hq r hr (List.mem_toFinset.1 hrm))
  inside q hq := by
    cases Multiset.mem_add.1 hq with
    | inl hq =>
      obtain ⟨hq, hqm⟩ := List.mem_filter.1 (Multiset.mem_coe.1 hq)
      obtain ⟨m, hm, hqm'⟩ := List.mem_flatMap.1 hq
      refine Finset.mem_sdiff.2 ⟨h.closed m (hms m hm) q hqm', fun hmem => ?_⟩
      exact of_decide_eq_true hqm (List.mem_toFinset.1 hmem)
    | inr hq =>
      refine Finset.mem_sdiff.2 ⟨h.inside q (Multiset.mem_cons_of_mem hq), fun hmem => ?_⟩
      exact hext q (List.mem_toFinset.1 hmem) hq
  held q hq := by
    obtain ⟨hq, hqm⟩ := Finset.mem_sdiff.1 hq
    obtain ⟨r, hr, hrq⟩ := h.held q hq
    have hway : q ∈ ms ∨ ∃ s ∈ ((↑(outRefs refs ms) : Multiset α) + ext), Leads refs s q := by
      cases Multiset.mem_cons.1 hr with
      | inl hr => exact (leaves (.inl (hr ▸ hp)) hrq).imp_right fun ⟨s, hs, hsq⟩ =>
          ⟨s, Multiset.mem_add.2 hs, hsq⟩
      | inr hr => exact (leaves (.inr hr) hrq).imp_right fun ⟨s, hs, hsq⟩ =>
          ⟨s, Multiset.mem_add.2 hs, hsq⟩
    exact hway.resolve_left fun hmem => hqm (List.mem_toFinset.2 hmem)

/-- The references to what is left are as many as before. -/
theorem detach_count {ms : List α} (hnodup : ms.Nodup) (hms : ∀ q ∈ ms, q ∈ L) {q : α}
    (hq : q ∉ ms) :
    inRefs refs (L \ ms.toFinset) q + ((↑(outRefs refs ms) : Multiset α) + ext).count q =
      inRefs refs L q + ext.count q := by
  have hsub : ms.toFinset ⊆ L := fun x hx => hms x (List.mem_toFinset.1 hx)
  have hs := @inRefs_sdiff _ refs _ L ms.toFinset hsub q
  have hout : (outRefs refs ms).count q = inRefs refs ms.toFinset q := by
    rw [← count_flatMap q ms hnodup]
    exact List.count_filter (decide_eq_true hq)
  rw [Multiset.count_add, Multiset.coe_count, hout]
  omega

end

end

end

end Lib
