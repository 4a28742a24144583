import PyLinda.Lib.RefMoves
import PyLinda.Minimal.CyclicExact

/-!
# Counts when references are moved

The counts stay exact when an object is made, when a reference is added, and when an object
refers to others than before; there the old reference may be dropped after the new one is
written, or before, if it does not lead back to the object.
-/

namespace PyLinda.RefCount

open Lib

section
variable {refs drops : Addr → List Addr} {h : Heap} {L : Finset Addr} {ext : Multiset Addr}
  {p v old : Addr} {A B rest rs ds : List Addr} {c : Int}

/-- The object at `v` has other references. -/
def rewired (refs : Addr → List Addr) (v : Addr) (rs : List Addr) (q : Addr) : List Addr :=
  if q = v then rs else refs q

theorem rewired_same : rewired refs v rs v = rs := if_pos rfl

theorem rewired_other : ∀ q, q ≠ v → rewired refs v rs q = refs q := fun _ hq => if_neg hq

theorem Counts.add (hc : Counts refs drops h L ext) (ho : h.objs p = some ⟨c, rs, ds⟩)
    (hp : p ∈ L) : Counts refs drops (h.set p (some ⟨c + 1, rs, ds⟩)) L (p ::ₘ ext) where
  objs q hq := by
    have hobj := hc.objs q hq
    by_cases hqp : q = p
    · subst hqp
      rw [ho] at hobj
      cases hobj
      rw [h.set_same, Multiset.count_cons_self]
      rfl
    · rw [h.set_other hqp, hobj, Multiset.count_cons_of_ne hqp]
  held := hc.held.add hp

/-- A new object takes over the references `B`. -/
theorem Counts.make (hc : Counts refs drops h L (↑B + ext)) (hp : p ∉ L) (hrs : rs.Perm B) :
    Counts (rewired refs p rs) (rewired drops p ds) (h.set p (some ⟨1, rs, ds⟩)) (insert p L)
      (p ::ₘ ext) := by
  have hsame : ∀ q ∈ L, q ≠ p := fun q hq hqp => hp (hqp ▸ hq)
  have hrefs : ∀ q ∈ L, rewired refs p rs q = refs q := fun q hq => rewired_other q (hsame q hq)
  have hext {q : Addr} (hq : q ∈ ↑B + ext) : q ≠ p := hsame q (hc.held.inside q hq)
  have hcount (q : Addr) : inRefs (rewired refs p rs) (insert p L) q =
      B.count q + inRefs refs L q := by
    unfold inRefs
    rw [Finset.sum_insert hp, rewired_same, hrs.count_eq]
    exact congrArg _ (Finset.sum_congr rfl fun x hx => by rw [hrefs x hx])
  refine ⟨fun q hq => ?_, hc.held.make hp (by rw [rewired_same]; exact hrs) hrefs⟩
  rw [hcount]
  cases Finset.mem_insert.1 hq with
  | inl hq =>
    subst hq
    have hB : B.count q = 0 := List.count_eq_zero.2 fun hq =>
      hext (Multiset.mem_add.2 (.inl (Multiset.mem_coe.2 hq))) rfl
    have hout : ext.count q = 0 := Multiset.count_eq_zero.2 fun hq =>
      hext (Multiset.mem_add.2 (.inr hq)) rfl
    have hin : inRefs refs L q = 0 := inRefs_eq_zero_iff.2 fun x hx hqx =>
      hp (hc.held.closed x hx q hqx)
    rw [h.set_same, hB, hin, Multiset.count_cons_self, hout, rewired_same, rewired_same]
    rfl
  | inr hq =>
    have hqp := hsame q hq
    rw [h.set_other hqp, hc.objs q hq, Multiset.count_cons_of_ne hqp, rewired_other q hqp,
      rewired_other q hqp, Multiset.count_add, Multiset.coe_count]
    congr 2
    omega

/-- The object at `v` has taken over the references `B`; those that it had there are then from
outside. -/
theorem Counts.rewire (hc : Counts refs drops h L (↑B + ext)) (hv : v ∈ L)
    (hreach : Reaches refs ext v) (hold : (refs v).Perm (A ++ rest)) (hnew : rs.Perm (B ++ rest))
    {rs' ds' : List Addr} (ho : h.objs v = some ⟨c, rs', ds'⟩) :
    Counts (rewired refs v rs) (rewired drops v ds) (h.set v (some ⟨c, rs, ds⟩)) L (↑A + ext) := by
  refine ⟨fun q hq => ?_, hc.held.rewire rewired_other hv hreach hold (by rw [rewired_same]; exact hnew)⟩
  have hcount := inRefs_rewire (@rewired_other refs v rs) hv q
  have h1 := hold.count_eq q
  have h2 := hnew.count_eq q
  rw [rewired_same] at hcount
  rw [List.count_append] at h1 h2
  have hsum : inRefs (rewired refs v rs) L q + (↑A + ext : Multiset Addr).count q =
      inRefs refs L q + (↑B + ext : Multiset Addr).count q := by
    rw [Multiset.count_add, Multiset.count_add, Multiset.coe_count, Multiset.coe_count]
    omega
  rw [hsum]
  have hobj := hc.objs q hq
  by_cases hqv : q = v
  · subst hqv
    rw [ho] at hobj
    cases hobj
    rw [h.set_same, rewired_same, rewired_same]
  · rw [h.set_other hqv, hobj, rewired_other q hqv, rewired_other q hqv]

/-! ## The old reference is dropped first -/

/-- What leads to `v`. -/
noncomputable def leadsTo (refs : Addr → List Addr) (L : Finset Addr) (v : Addr) : Finset Addr :=
  open Classical in L.filter fun q => Leads refs q v

theorem mem_leadsTo {q : Addr} : q ∈ leadsTo refs L v ↔ q ∈ L ∧ Leads refs q v := by
  simp only [leadsTo, Finset.mem_filter]

/-- The counts of what does not lead to `v`: what the others refer to is referred to from
outside. -/
theorem Counts.apart (hc : Counts refs drops h L ext) :
    Counts refs drops h (L \ leadsTo refs L v)
      (↑(outRefs refs (leadsTo refs L v).toList) + ext.filter fun r => r ∉ leadsTo refs L v) where
  objs q hq := by
    obtain ⟨hqL, hqU⟩ := Finset.mem_sdiff.1 hq
    rw [apart_count (fun x hx => (mem_leadsTo.1 hx).1) hqU]
    exact hc.objs q hqL
  held := hc.held.apart (fun x hx => (mem_leadsTo.1 hx).1) fun x hx r hr hrU =>
    mem_leadsTo.2 ⟨hx, .head hr (mem_leadsTo.1 hrU).2⟩

theorem Counts.congr {refs' drops' : Addr → List Addr} {h' : Heap} (hc : Counts refs drops h L ext)
    (hobjs : ∀ q ∈ L, h'.objs q = h.objs q) (hrefs : ∀ q ∈ L, refs' q = refs q)
    (hdrops : ∀ q ∈ L, drops' q = drops q) : Counts refs' drops' h' L ext where
  objs q hq := by rw [hobjs q hq, hc.objs q hq, hrefs q hq, hdrops q hq, inRefs_congr hrefs]
  held := hc.held.congr hrefs

/-- What was set apart is put together again. -/
theorem Counts.join {U D : Finset Addr} {X : Multiset Addr} (hD : Counts refs drops h D X)
    (hdisj : Disjoint U D) (hX : ∀ q, q ∉ U → X.count q = inRefs refs U q + ext.count q)
    (hreach : ∀ q ∈ U, Reaches refs ext q)
    (hU : ∀ q ∈ U, h.objs q = some ⟨(inRefs refs U q + ext.count q : Nat), refs q, drops q⟩) :
    Counts refs drops h (U ∪ D) ext := by
  have hsum (q : Addr) : inRefs refs (U ∪ D) q = inRefs refs U q + inRefs refs D q :=
    Finset.sum_union hdisj
  refine ⟨fun q hq => ?_, hD.held.join hdisj hX hreach⟩
  rw [hsum]
  cases Finset.mem_union.1 hq with
  | inl hq =>
    have hnone : inRefs refs D q = 0 := inRefs_eq_zero_iff.2 fun x hx hqx =>
      Finset.disjoint_left.1 hdisj hq (hD.held.closed x hx q hqx)
    rw [hU q hq, hnone, Nat.add_zero]
  | inr hq =>
    rw [hD.objs q hq, hX q fun hqU => Finset.disjoint_left.1 hdisj hqU hq]
    congr 2
    omega

/-- What was freed while `U` was set apart. -/
theorem Freed.union {h' : Heap} {U D : Finset Addr} (hf : Freed h (L \ U) h' D) (hU : U ⊆ L) :
    Freed h L h' (U ∪ D) where
  sub := Finset.union_subset hU (hf.sub.trans Finset.sdiff_subset)
  frame q hq := hf.frame q fun hq' => hq (Finset.mem_sdiff.1 hq').1
  gone q hq hq' := by
    rw [Finset.mem_union, not_or] at hq'
    exact hf.gone q (Finset.mem_sdiff.2 ⟨hq, hq'.1⟩) hq'.2
  freed := by
    obtain ⟨l, hl, hn, hm⟩ := hf.freed
    refine ⟨l, hl, hn, fun q => ?_⟩
    rw [hm, Finset.mem_sdiff, Finset.mem_union, not_or, and_assoc]

/-- The object at `v` refers to `old`, which does not lead back. The reference is dropped, and
then the object takes over the references `B` instead. -/
theorem Counts.replace (hc : Counts refs drops h L (↑B + ext)) (hperm : ∀ q, (drops q).Perm (refs q))
    (hv : v ∈ L) (hreach : Reaches refs ext v) (hold : (refs v).Perm (old :: rest))
    (hnew : rs.Perm (B ++ rest)) (hback : ¬ Leads refs old v) {rs' ds' : List Addr}
    (ho : h.objs v = some ⟨c, rs', ds'⟩) {depth : Nat} (hdepth : L.card + 2 ≤ depth) :
    ∃ h' L', delReference depth old h = some h' ∧ h'.objs v = h.objs v ∧ Freed h L h' L' ∧ v ∈ L' ∧
      Counts (rewired refs v rs) (rewired drops v ds) (h'.set v (some ⟨c, rs, ds⟩)) L' ext := by
  generalize hU : leadsTo refs L v = U
  have hapart := @Counts.apart _ _ _ _ _ v hc
  rw [hU] at hapart
  have hmemU {q : Addr} : q ∈ U ↔ q ∈ L ∧ Leads refs q v := hU ▸ mem_leadsTo
  have hUL : U ⊆ L := fun q hq => (hmemU.1 hq).1
  have hvU : v ∈ U := hmemU.2 ⟨hv, .refl v⟩
  have hpred : ∀ x ∈ L, ∀ r ∈ refs x, r ∈ U → x ∈ U := fun x hx r hr hrU =>
    hmemU.2 ⟨hx, .head hr (hmemU.1 hrU).2⟩
  have holdv : old ∈ refs v := hold.mem_iff.2 List.mem_cons_self
  have holdU : old ∉ U := fun hmem => hback (hmemU.1 hmem).2
  -- the reference to `old` is one of those that are from outside, once `U` is set apart
  have hmem : old ∈ (↑(outRefs refs U.toList) + (↑B + ext).filter fun r => r ∉ U : Multiset Addr) := by
    refine Multiset.mem_add.2 (.inl (Multiset.mem_coe.2 (List.mem_filter.2 ⟨?_, ?_⟩)))
    · exact List.mem_flatMap.2 ⟨v, Finset.mem_toList.2 hvU, holdv⟩
    · exact decide_eq_true fun h => holdU (Finset.mem_toList.1 h)
  obtain ⟨X, hX⟩ := Multiset.exists_cons_of_mem hmem
  have hin (q : Addr) (hq : q ∉ U) : (old ::ₘ X).count q =
      inRefs refs U q + (↑B + ext : Multiset Addr).count q := by
    have h1 := @apart_count _ refs L (↑B + ext) q _ U hUL hq
    have h2 := @inRefs_sdiff _ refs _ L U hUL q
    rw [hX] at h1
    omega
  rw [hX] at hapart
  have hcard : (L \ U).card ≤ L.card := Finset.card_le_card Finset.sdiff_subset
  obtain ⟨d, rfl⟩ : ∃ d, depth = d + 1 := ⟨depth - 1, by omega⟩
  obtain ⟨h', D, hrun, hcD, hf⟩ := delReference_deletes hperm (L \ U).card d (by omega) h (L \ U) old X
    (Nat.le_refl _) hapart
  have hvD : h'.objs v = h.objs v := hf.frame v fun hmem => (Finset.mem_sdiff.1 hmem).2 hvU
  refine ⟨h', U ∪ D, hrun, hvD, hf.union hUL, Finset.mem_union_left D hvU, ?_⟩
  have hDL : D ⊆ L \ U := hf.sub
  have hdisj : Disjoint U D := Finset.disjoint_left.2 fun q hq hqD => (Finset.mem_sdiff.1 (hDL hqD)).2 hq
  have hne : ∀ q ∈ D, q ≠ v := fun q hq hqv => Finset.disjoint_left.1 hdisj hvU (hqv ▸ hq)
  have hcount (q : Addr) : inRefs (rewired refs v rs) U q + [old].count q =
      inRefs refs U q + B.count q := by
    have h1 := inRefs_rewire (@rewired_other refs v rs) hvU q
    rw [rewired_same, hold.count_eq, hnew.count_eq, List.count_append] at h1
    have h2 := @List.count_append _ _ q [old] rest
    rw [List.singleton_append] at h2
    omega
  refine Counts.join (hcD.congr (fun q hq => h'.set_other (hne q hq) _)
    (fun q hq => rewired_other q (hne q hq)) fun q hq => rewired_other q (hne q hq)) hdisj
    (fun q hq => ?_) (fun q hq => ?_) fun q hq => ?_
  · have h1 := hin q hq
    have h2 := hcount q
    rw [← Multiset.singleton_add, Multiset.count_add, Multiset.count_add, Multiset.coe_count] at h1
    rw [← Multiset.coe_count, Multiset.coe_singleton] at h2
    omega
  · refine Reaches.rewire_back rewired_other hreach (fun w hw => ?_) (fun w hw => ?_) hback
      (hmemU.1 hq).2 (hc.held.held q (hUL hq))
    · rw [rewired_same]
      exact (List.mem_cons.1 (hold.mem_iff.1 hw)).symm.imp_left fun hw =>
        hnew.mem_iff.2 (List.mem_append_right B hw)
    · rw [rewired_same]
      exact hnew.mem_iff.2 (List.mem_append_left rest hw)
  · have hnone : inRefs refs (L \ U) q = 0 := inRefs_eq_zero_iff.2 fun x hx hqx =>
      (Finset.mem_sdiff.1 hx).2 (hpred x (Finset.mem_sdiff.1 hx).1 q hqx hq)
    have hsplit := @inRefs_sdiff _ refs _ L U hUL q
    have h1 := hcount q
    rw [List.count_singleton, if_neg fun h => holdU (by rw [beq_iff_eq.1 h]; exact hq)] at h1
    have hsum : inRefs (rewired refs v rs) U q + ext.count q =
        inRefs refs L q + (↑B + ext : Multiset Addr).count q := by
      rw [Multiset.count_add, Multiset.coe_count]
      omega
    rw [hsum]
    have hobj := hc.objs q (hUL hq)
    by_cases hqv : q = v
    · subst hqv
      rw [ho] at hobj
      cases hobj
      rw [h'.set_same, rewired_same, rewired_same]
    · rw [h'.set_other hqv, rewired_other q hqv, rewired_other q hqv, ← hobj]
      exact hf.frame q fun hmem => (Finset.mem_sdiff.1 hmem).2 hq

end

end PyLinda.RefCount
