import PyLinda.Lib.RefGraph

/-!
# References that are moved

Objects stay held when one is made out of references, when one refers to others than before,
and when those that lead to an object are set apart from those that do not.
-/

namespace Lib

section
variable {α : Type}

/-- A reference from outside leads to `q`. -/
def Reaches (refs : α → List α) (ext : Multiset α) (q : α) : Prop := ∃ r ∈ ext, Leads refs r q

section
variable {refs refs' : α → List α} {L : Finset α} {ext : Multiset α} {A B : List α} {p q r v : α}

theorem Reaches.of_mem (h : q ∈ ext) : Reaches refs ext q := ⟨q, h, .refl q⟩

theorem Reaches.tail (h : Reaches refs ext q) (hr : r ∈ refs q) : Reaches refs ext r := by
  obtain ⟨s, hs, hsq⟩ := h
  exact ⟨s, hs, hsq.tail hr⟩

theorem Reaches.trans (h : Reaches refs ext q) (hr : Leads refs q r) : Reaches refs ext r := by
  obtain ⟨s, hs, hsq⟩ := h
  exact ⟨s, hs, hsq.trans hr⟩

theorem Reaches.mono {ext' : Multiset α} (h : Reaches refs ext q) (hsub : ∀ r ∈ ext, r ∈ ext') :
    Reaches refs ext' q := by
  obtain ⟨r, hr, hrq⟩ := h
  exact ⟨r, hsub r hr, hrq⟩

/-- One more reference from outside. -/
theorem Held.add (h : Held refs L ext) (hp : p ∈ L) : Held refs L (p ::ₘ ext) where
  closed := h.closed
  inside q hq := by
    cases Multiset.mem_cons.1 hq with
    | inl hq => exact hq ▸ hp
    | inr hq => exact h.inside q hq
  held q hq := Reaches.mono (h.held q hq) fun _ => Multiset.mem_cons_of_mem

/-! ## An object is made -/

section
variable [DecidableEq α]

/-- A new object takes over references from outside. -/
theorem Held.make (h : Held refs L (↑B + ext)) (hp : p ∉ L) (hnew : (refs' p).Perm B)
    (hsame : ∀ q ∈ L, refs' q = refs q) : Held refs' (insert p L) (p ::ₘ ext) where
  closed q hq r hr := by
    refine Finset.mem_insert_of_mem ?_
    cases Finset.mem_insert.1 hq with
    | inl hq =>
      rw [hq] at hr
      exact h.inside r (Multiset.mem_add.2 (.inl (hnew.mem_iff.1 hr)))
    | inr hq => exact h.closed q hq r (hsame q hq ▸ hr)
  inside q hq := by
    cases Multiset.mem_cons.1 hq with
    | inl hq => exact hq ▸ Finset.mem_insert_self p L
    | inr hq => exact Finset.mem_insert_of_mem (h.inside q (Multiset.mem_add.2 (.inr hq)))
  held q hq := by
    have hroot : Reaches refs' (p ::ₘ ext) p := .of_mem (Multiset.mem_cons_self p ext)
    cases Finset.mem_insert.1 hq with
    | inl hq => exact hq ▸ hroot
    | inr hq =>
      obtain ⟨r, hr, hrq⟩ := h.held q hq
      have hway : Leads refs' r q := hrq.congr h.closed hsame (h.inside r hr)
      refine Reaches.trans ?_ hway
      cases Multiset.mem_add.1 hr with
      | inl hr => exact hroot.tail (hnew.mem_iff.2 hr)
      | inr hr => exact .of_mem (Multiset.mem_cons_of_mem hr)

end

/-! ## An object refers to others -/

section
variable (hsame : ∀ q, q ≠ v → refs' q = refs q)
include hsame

/-- Up to where it comes to `v` for the first time, a way is as before. -/
theorem Leads.upTo (h : Leads refs r q) : Leads refs' r q ∨ Leads refs' r v := by
  induction h with
  | refl => exact .inl (.refl r)
  | @tail u w _ hw ih =>
    cases ih with
    | inr h => exact .inr h
    | inl h =>
      by_cases hu : u = v
      · exact .inr (hu ▸ h)
      · exact .inl (h.tail (hsame u hu ▸ hw))

/-- `v` has lost the references `A` and taken over the references `B`. -/
theorem Reaches.rewire (hv : Reaches refs ext v) (hlost : ∀ w ∈ refs v, w ∈ refs' v ∨ w ∈ A)
    (htaken : ∀ w ∈ B, w ∈ refs' v) (h : Reaches refs (↑B + ext) q) :
    Reaches refs' (↑A + ext) q := by
  have hold {q : α} (h : Reaches refs' ext q) : Reaches refs' (↑A + ext) q :=
    h.mono fun _ hr => Multiset.mem_add.2 (.inr hr)
  have hv' : Reaches refs' ext v := by
    obtain ⟨r, hr, hrv⟩ := hv
    exact ⟨r, hr, (hrv.upTo hsame).elim id id⟩
  obtain ⟨r, hr, hrq⟩ := h
  induction hrq with
  | refl =>
    cases Multiset.mem_add.1 hr with
    | inl hr => exact hold (hv'.tail (htaken r (Multiset.mem_coe.1 hr)))
    | inr hr => exact hold (.of_mem hr)
  | @tail u w _ hw ih =>
    by_cases hu : u = v
    · subst hu
      cases hlost w hw with
      | inl h => exact ih.tail h
      | inr h => exact .of_mem (Multiset.mem_add.2 (.inl (Multiset.mem_coe.2 h)))
    · exact ih.tail (hsame u hu ▸ hw)

/-- What leads to `v` is not held by a reference that `v` has lost, if that does not lead back. -/
theorem Reaches.rewire_back {old : α} (hv : Reaches refs ext v)
    (hlost : ∀ w ∈ refs v, w ∈ refs' v ∨ w = old) (htaken : ∀ w ∈ B, w ∈ refs' v)
    (hback : ¬ Leads refs old v) (hqv : Leads refs q v) (h : Reaches refs (↑B + ext) q) :
    Reaches refs' ext q := by
  obtain ⟨r, hr, hrq⟩ := hv.rewire hsame (fun w hw => (hlost w hw).imp_right List.mem_singleton.2)
    htaken h
  cases Multiset.mem_add.1 hr with
  | inl hr =>
    rw [List.mem_singleton.1 (Multiset.mem_coe.1 hr)] at hrq
    cases hrq.upTo fun q hq => (hsame q hq).symm with
    | inl h => exact absurd (h.trans hqv) hback
    | inr h => exact absurd h hback
  | inr hr => exact ⟨r, hr, hrq⟩

/-- The references that `v` has lost are then from outside. -/
theorem Held.rewire {rest : List α} (h : Held refs L (↑B + ext)) (hv : v ∈ L)
    (hreach : Reaches refs ext v) (hold : (refs v).Perm (A ++ rest))
    (hnew : (refs' v).Perm (B ++ rest)) : Held refs' L (↑A + ext) where
  closed q hq r hr := by
    by_cases hqv : q = v
    · subst hqv
      cases List.mem_append.1 (hnew.mem_iff.1 hr) with
      | inl hr => exact h.inside r (Multiset.mem_add.2 (.inl hr))
      | inr hr => exact h.closed q hv r (hold.mem_iff.2 (List.mem_append_right A hr))
    · exact h.closed q hq r (hsame q hqv ▸ hr)
  inside q hq := by
    cases Multiset.mem_add.1 hq with
    | inl hq => exact h.closed v hv q (hold.mem_iff.2 (List.mem_append_left rest hq))
    | inr hq => exact h.inside q (Multiset.mem_add.2 (.inr hq))
  held q hq := by
    refine hreach.rewire hsame (fun w hw => ?_) (fun w hw => ?_) (h.held q hq)
    · exact (List.mem_append.1 (hold.mem_iff.1 hw)).symm.imp_left fun hw =>
        hnew.mem_iff.2 (List.mem_append_right B hw)
    · exact hnew.mem_iff.2 (List.mem_append_left rest hw)

theorem inRefs_rewire [DecidableEq α] (hv : v ∈ L) (q : α) :
    inRefs refs' L q + (refs v).count q = inRefs refs L q + (refs' v).count q := by
  have h := Finset.add_sum_erase L (fun x => (refs x).count q) hv
  have h' := Finset.add_sum_erase L (fun x => (refs' x).count q) hv
  have heq : ∑ x ∈ L.erase v, (refs' x).count q = ∑ x ∈ L.erase v, (refs x).count q :=
    Finset.sum_congr rfl fun x hx => by rw [hsame x (Finset.ne_of_mem_erase hx)]
  unfold inRefs
  omega

end

/-! ## Objects are set apart -/

section
variable [DecidableEq α] {U : Finset α}

/-- What the objects of `U` refer to is then referred to from outside, if nothing else refers
to `U`. -/
theorem Held.apart (h : Held refs L ext) (hU : U ⊆ L)
    (hpred : ∀ x ∈ L, ∀ r ∈ refs x, r ∈ U → x ∈ U) :
    Held refs (L \ U) (↑(outRefs refs U.toList) + ext.filter fun r => r ∉ U) where
  closed q hq r hr := by
    obtain ⟨hq, hqU⟩ := Finset.mem_sdiff.1 hq
    exact Finset.mem_sdiff.2 ⟨h.closed q hq r hr, fun hrU => hqU (hpred q hq r hr hrU)⟩
  inside q hq := by
    cases Multiset.mem_add.1 hq with
    | inl hq =>
      obtain ⟨hq, hqU⟩ := List.mem_filter.1 (Multiset.mem_coe.1 hq)
      obtain ⟨x, hx, hqx⟩ := List.mem_flatMap.1 hq
      refine Finset.mem_sdiff.2 ⟨h.closed x (hU (Finset.mem_toList.1 hx)) q hqx, fun hmem => ?_⟩
      exact of_decide_eq_true hqU (Finset.mem_toList.2 hmem)
    | inr hq =>
      obtain ⟨hq, hqU⟩ := Multiset.mem_filter.1 hq
      exact Finset.mem_sdiff.2 ⟨h.inside q hq, hqU⟩
  held q hq := by
    obtain ⟨hq, hqU⟩ := Finset.mem_sdiff.1 hq
    obtain ⟨r, hr, hrq⟩ := h.held q hq
    have hstart : r ∈ U.toList ∨ r ∈ ext.filter fun r => r ∉ U := by
      by_cases hrU : r ∈ U
      · exact .inl (Finset.mem_toList.2 hrU)
      · exact .inr (Multiset.mem_filter.2 ⟨hr, hrU⟩)
    cases leaves hstart hrq with
    | inl hmem => exact absurd (Finset.mem_toList.1 hmem) hqU
    | inr hs =>
      obtain ⟨s, hs, hsq⟩ := hs
      exact ⟨s, Multiset.mem_add.2 hs, hsq⟩

theorem apart_count (hU : U ⊆ L) (hq : q ∉ U) :
    inRefs refs (L \ U) q +
        ((↑(outRefs refs U.toList) : Multiset α) + ext.filter fun r => r ∉ U).count q =
      inRefs refs L q + ext.count q := by
  have h := @detach_count _ refs _ L (ext.filter fun r => r ∉ U) U.toList U.nodup_toList
    (fun x hx => hU (Finset.mem_toList.1 hx)) q fun h => hq (Finset.mem_toList.1 h)
  rw [Finset.toList_toFinset] at h
  rw [h, @Multiset.count_filter_of_pos _ _ (fun r => r ∉ U) _ _ _ hq]

/-- What was set apart is put together again: outside of `U` the references `X` are those of
the objects of `U` and those from outside. -/
theorem Held.join {D : Finset α} {X : Multiset α} (hD : Held refs D X) (hdisj : Disjoint U D)
    (hX : ∀ q, q ∉ U → X.count q = inRefs refs U q + ext.count q)
    (hU : ∀ q ∈ U, Reaches refs ext q) : Held refs (U ∪ D) ext := by
  have hinX {q : α} (hq : q ∉ U) (h : q ∈ ext ∨ ∃ x ∈ U, q ∈ refs x) : q ∈ X := by
    refine Multiset.count_pos.1 ?_
    rw [hX q hq]
    cases h with
    | inl h => exact Nat.add_pos_right _ (Multiset.count_pos.2 h)
    | inr h =>
      obtain ⟨x, hx, hqx⟩ := h
      exact Nat.add_pos_left (Nat.pos_of_ne_zero fun h0 => inRefs_eq_zero_iff.1 h0 x hx hqx) _
  have hmem {q : α} (h : q ∈ ext ∨ ∃ x ∈ U, q ∈ refs x) : q ∈ U ∪ D := by
    by_cases hq : q ∈ U
    · exact Finset.mem_union_left D hq
    · exact Finset.mem_union_right U (hD.inside q (hinX hq h))
  refine ⟨fun q hq r hr => ?_, fun q hq => hmem (.inl hq), fun q hq => ?_⟩
  · cases Finset.mem_union.1 hq with
    | inl hq => exact hmem (.inr ⟨q, hq, hr⟩)
    | inr hq => exact Finset.mem_union_right U (hD.closed q hq r hr)
  · cases Finset.mem_union.1 hq with
    | inl hq => exact hU q hq
    | inr hq =>
      obtain ⟨r, hr, hrq⟩ := hD.held q hq
      have hrU : r ∉ U := fun h => Finset.disjoint_left.1 hdisj h (hD.inside r hr)
      have hpos := Multiset.count_pos.2 hr
      rw [hX r hrU] at hpos
      refine Reaches.trans ?_ hrq
      by_cases hext : r ∈ ext
      · exact .of_mem hext
      · rw [Multiset.count_eq_zero.2 hext] at hpos
        have hne : ¬ ∀ x ∈ U, r ∉ refs x := fun h0 => by
          rw [inRefs_eq_zero_iff.2 h0] at hpos
          exact absurd hpos (Nat.lt_irrefl 0)
        push Not at hne
        obtain ⟨x, hx, hrx⟩ := hne
        exact (hU x hx).tail hrx

end

end

end

end Lib
