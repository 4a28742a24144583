import PyLinda.Minimal.CyclicSearch

/-!
# Deleting a reference

`Minimal_delReference` frees what is not held any more, each object once, and leaves exact
counts. The objects that are being torn down are not among those that the counts are kept of;
the references they still have count as references from outside.
-/

namespace PyLinda.RefCount

open Lib

/-- The objects of `L` are as they should be, `ext` being the references to them from outside
of `L`. -/
structure Counts (refs drops : Addr → List Addr) (h : Heap) (L : Finset Addr)
    (ext : Multiset Addr) : Prop where
  objs : ∀ q ∈ L, h.objs q = some ⟨(inRefs refs L q + ext.count q : Nat), refs q, drops q⟩
  held : Held refs L ext

/-- From `h` to `h'` nothing but objects of `L` that are not in `L'` was freed, and what is not
in `L` was not touched. -/
structure Freed (h : Heap) (L : Finset Addr) (h' : Heap) (L' : Finset Addr) : Prop where
  sub : L' ⊆ L
  frame : ∀ q, q ∉ L → h'.objs q = h.objs q
  gone : ∀ q ∈ L, q ∉ L' → h'.objs q = none
  freed : ∃ l, h'.freed = h.freed ++ l ∧ l.Nodup ∧ ∀ q, q ∈ l ↔ q ∈ L ∧ q ∉ L'

theorem Freed.refl {h : Heap} {L : Finset Addr} {h' : Heap} (hfreed : h'.freed = h.freed)
    (hframe : ∀ q, q ∉ L → h'.objs q = h.objs q) : Freed h L h' L where
  sub := Finset.Subset.refl L
  frame := hframe
  gone _ hq hq' := absurd hq hq'
  freed := ⟨[], by rw [hfreed, List.append_nil], List.nodup_nil, fun q =>
    ⟨fun hq => (List.not_mem_nil hq).elim, fun hq => absurd hq.1 hq.2⟩⟩

theorem Freed.trans {h h' h'' : Heap} {L L' L'' : Finset Addr} (h1 : Freed h L h' L')
    (h2 : Freed h' L' h'' L'') : Freed h L h'' L'' where
  sub := h2.sub.trans h1.sub
  frame q hq := (h2.frame q fun hq' => hq (h1.sub hq')).trans (h1.frame q hq)
  gone q hq hq'' := by
    by_cases hq' : q ∈ L'
    · exact h2.gone q hq' hq''
    · rw [h2.frame q hq', h1.gone q hq hq']
  freed := by
    obtain ⟨l1, hl1, hn1, hm1⟩ := h1.freed
    obtain ⟨l2, hl2, hn2, hm2⟩ := h2.freed
    refine ⟨l1 ++ l2, by rw [hl2, hl1, List.append_assoc], ?_, fun q => ?_⟩
    · exact List.nodup_append.2 ⟨hn1, hn2, fun a ha b hb hab =>
        ((hm1 a).1 ha).2 (hab ▸ ((hm2 b).1 hb).1)⟩
    · rw [List.mem_append, hm1, hm2]
      constructor
      · rintro (⟨hq, hq'⟩ | ⟨hq, hq'⟩)
        · exact ⟨hq, fun hq'' => hq' (h2.sub hq'')⟩
        · exact ⟨h1.sub hq, hq'⟩
      · rintro ⟨hq, hq''⟩
        by_cases hq' : q ∈ L'
        · exact .inr ⟨hq', hq''⟩
        · exact .inl ⟨hq, hq'⟩

section
variable {refs drops : Addr → List Addr}

/-- What `delReference` does, as long as at most `n` objects are alive: a reference from
outside is dropped. -/
def Deletes (refs drops : Addr → List Addr) (n : Nat) (del : Addr → Heap → Option Heap) : Prop :=
  ∀ (h : Heap) (L : Finset Addr) (p : Addr) (ext : Multiset Addr), L.card ≤ n →
    Counts refs drops h L (p ::ₘ ext) →
    ∃ h' L', del p h = some h' ∧ Counts refs drops h' L' ext ∧ Freed h L h' L'

/-- The objects that are being destroyed are passed over. -/
def Skips (del : Addr → Heap → Option Heap) : Prop :=
  ∀ h p o, h.objs p = some o → o.refCount < 0 → del p h = some h

section
variable {n : Nat} {del : Addr → Heap → Option Heap}

/-- References are dropped one after the other; those in `dead` lead to objects that are being
destroyed. -/
theorem Deletes.each (hdel : Deletes refs drops n del) (hskip : Skips del) {dead : List Addr}
    (rs : List Addr) : ∀ (h : Heap) (L : Finset Addr) (ext : Multiset Addr), L.card ≤ n →
      (∀ d ∈ dead, d ∉ L ∧ ∃ o, h.objs d = some o ∧ o.refCount < 0) →
      Counts refs drops h L (↑(rs.filter fun r => r ∉ dead) + ext) →
      ∃ h' L', RefCount.each del rs h = some h' ∧ Counts refs drops h' L' ext ∧
        Freed h L h' L' := by
  induction rs with
  | nil =>
    intro h L ext _ _ hc
    rw [List.filter_nil, Multiset.coe_nil, Multiset.zero_add] at hc
    exact ⟨h, L, rfl, hc, .refl rfl fun _ _ => rfl⟩
  | cons r rs ih =>
    intro h L ext hn hdead hc
    by_cases hr : r ∈ dead
    · obtain ⟨_, o, ho, hneg⟩ := hdead r hr
      rw [List.filter_cons_of_neg (by simpa using hr)] at hc
      obtain ⟨h', L', he, hc', hf⟩ := ih h L ext hn hdead hc
      refine ⟨h', L', ?_, hc', hf⟩
      show (del r h >>= _) = _
      rw [hskip h r o ho hneg]
      exact he
    · rw [List.filter_cons_of_pos (by simpa using hr), ← Multiset.cons_coe,
        Multiset.cons_add] at hc
      obtain ⟨h1, L1, hd, hc1, hf1⟩ := hdel h L r _ hn hc
      have hdead1 : ∀ d ∈ dead, d ∉ L1 ∧ ∃ o, h1.objs d = some o ∧ o.refCount < 0 := by
        intro d hd
        obtain ⟨hdL, o, ho, hneg⟩ := hdead d hd
        refine ⟨fun hd1 => hdL (hf1.sub hd1), o, ?_, hneg⟩
        rw [hf1.frame d hdL, ho]
      obtain ⟨h', L', he, hc', hf⟩ := ih h1 L1 ext ((Finset.card_le_card hf1.sub).trans hn) hdead1 hc1
      refine ⟨h', L', ?_, hc', hf1.trans hf⟩
      show (del r h >>= _) = _
      rw [hd]
      exact he

/-- The objects of `todo` drop what they refer to; those of `ms` are being destroyed. -/
theorem Deletes.eachObject (hdel : Deletes refs drops n del) (hskip : Skips del)
    (hperm : ∀ q, (drops q).Perm (refs q)) {ms : List Addr} (todo : List Addr) :
    ∀ (h : Heap) (L : Finset Addr) (ext : Multiset Addr), L.card ≤ n → (∀ m ∈ todo, m ∈ ms) →
      (∀ d ∈ ms, d ∉ L ∧ h.objs d = some ⟨-1, refs d, drops d⟩) →
      Counts refs drops h L (↑((todo.flatMap refs).filter fun r => r ∉ ms) + ext) →
      ∃ h' L', RefCount.each (delObject del false) todo h = some h' ∧ Counts refs drops h' L' ext ∧
        Freed h L h' L' := by
  induction todo with
  | nil =>
    intro h L ext _ _ _ hc
    rw [List.flatMap_nil, List.filter_nil, Multiset.coe_nil, Multiset.zero_add] at hc
    exact ⟨h, L, rfl, hc, .refl rfl fun _ _ => rfl⟩
  | cons m todo ih =>
    intro h L ext hn hsub hms hc
    have hm := hms m (hsub m List.mem_cons_self)
    have hdead : ∀ d ∈ ms, d ∉ L ∧ ∃ o, h.objs d = some o ∧ o.refCount < 0 := by
      intro d hd
      exact ⟨(hms d hd).1, _, (hms d hd).2, (by decide : (-1 : Int) < 0)⟩
    have hcoe : (↑((refs m).filter fun r => r ∉ ms) : Multiset Addr) =
        ↑((drops m).filter fun r => r ∉ ms) :=
      Multiset.coe_eq_coe.2 ((hperm m).symm.filter _)
    rw [List.flatMap_cons, List.filter_append, ← Multiset.coe_add, Multiset.add_assoc, hcoe] at hc
    obtain ⟨h1, L1, he1, hc1, hf1⟩ := hdel.each hskip (drops m) h L _ hn hdead hc
    have hms1 : ∀ d ∈ ms, d ∉ L1 ∧ h1.objs d = some ⟨-1, refs d, drops d⟩ := by
      intro d hd
      refine ⟨fun hd1 => (hms d hd).1 (hf1.sub hd1), ?_⟩
      rw [hf1.frame d (hms d hd).1, (hms d hd).2]
    obtain ⟨h2, L2, he2, hc2, hf2⟩ := ih h1 L1 ext ((Finset.card_le_card hf1.sub).trans hn)
      (fun x hx => hsub x (List.mem_cons_of_mem _ hx)) hms1 hc1
    refine ⟨h2, L2, ?_, hc2, hf1.trans hf2⟩
    have hobj : delObject del false m h = some h1 := by
      unfold delObject
      rw [hm.2]
      show (RefCount.each del (drops m) h >>= _) = _
      rw [he1]
      rfl
    show (delObject del false m h >>= _) = _
    rw [hobj]
    exact he2

end

/-! ## Marking and freeing -/

theorem each_setReferenceCount (i : Int) (ms : List Addr) : ∀ h : Heap,
    (∀ q ∈ ms, (h.objs q).isSome) →
    ∃ h', RefCount.each (fun ptr h => h.setReferenceCount ptr i) ms h = some h' ∧
      h'.freed = h.freed ∧ (∀ q, q ∉ ms → h'.objs q = h.objs q) ∧
      ∀ q ∈ ms, h'.objs q = (h.objs q).map fun o => { o with refCount := i } := by
  induction ms with
  | nil =>
    intro h _
    exact ⟨h, rfl, rfl, fun _ _ => rfl, fun q hq => (List.not_mem_nil hq).elim⟩
  | cons m ms ih =>
    intro h hms
    obtain ⟨o, ho⟩ := Option.isSome_iff_exists.1 (hms m List.mem_cons_self)
    obtain ⟨h', he, hfreed, hout, hin⟩ := ih (h.set m (some { o with refCount := i })) fun q hq => by
      by_cases hqm : q = m
      · rw [hqm, h.set_same]
        rfl
      · rw [h.set_other hqm]
        exact hms q (List.mem_cons_of_mem _ hq)
    refine ⟨h', ?_, hfreed, fun q hq => ?_, fun q hq => ?_⟩
    · show (h.setReferenceCount m i >>= _) = _
      rw [Heap.setReferenceCount_some ho]
      exact he
    · rw [hout q (List.not_mem_of_not_mem_cons hq), h.set_other (List.ne_of_not_mem_cons hq)]
    · by_cases hqs : q ∈ ms
      · rw [hin q hqs]
        by_cases hqm : q = m
        · rw [hqm, h.set_same, ho]
          rfl
        · rw [h.set_other hqm]
      · have hqm : q = m := (List.mem_cons.1 hq).resolve_right hqs
        rw [hout q hqs, hqm, h.set_same, ho]
        rfl

theorem each_free (ms : List Addr) : ∀ h : Heap, ms.Nodup → (∀ q ∈ ms, (h.objs q).isSome) →
    ∃ h', RefCount.each (fun ptr h => h.free ptr) ms h = some h' ∧
      h'.freed = h.freed ++ ms ∧ (∀ q, q ∉ ms → h'.objs q = h.objs q) ∧
      ∀ q ∈ ms, h'.objs q = none := by
  induction ms with
  | nil =>
    intro h _ _
    exact ⟨h, rfl, (List.append_nil _).symm, fun _ _ => rfl, fun q hq => (List.not_mem_nil hq).elim⟩
  | cons m ms ih =>
    intro h hn hms
    obtain ⟨hm, hn⟩ := List.nodup_cons.1 hn
    obtain ⟨o, ho⟩ := Option.isSome_iff_exists.1 (hms m List.mem_cons_self)
    obtain ⟨h', he, hfreed, hout, hin⟩ := ih { h.set m none with freed := h.freed ++ [m] } hn
      fun q hq => by
        have hqm : q ≠ m := fun hqm => hm (hqm ▸ hq)
        show ((h.set m none).objs q).isSome = true
        rw [h.set_other hqm]
        exact hms q (List.mem_cons_of_mem _ hq)
    refine ⟨h', ?_, ?_, fun q hq => ?_, fun q hq => ?_⟩
    · show (h.free m >>= _) = _
      rw [Heap.free_some ho]
      exact he
    · rw [hfreed, List.append_assoc]
      rfl
    · rw [hout q (List.not_mem_of_not_mem_cons hq)]
      exact h.set_other (List.ne_of_not_mem_cons hq) none
    · cases List.mem_cons.1 hq with
      | inl hq =>
        rw [hq, hout m hm]
        exact h.set_same m none
      | inr hq => exact hin q hq

/-- The objects of `ms` are torn down: they are marked, what they refer to is dropped, and they
are freed. -/
theorem Freed.release {h h1 h2 h3 : Heap} {L L2 : Finset Addr} {ms : List Addr} (hn : ms.Nodup)
    (hms : ∀ q ∈ ms, q ∈ L) (hfreed1 : h1.freed = h.freed)
    (hsame : ∀ q, q ∉ ms → h1.objs q = h.objs q) (hf : Freed h1 (L \ ms.toFinset) h2 L2)
    (hfreed3 : h3.freed = h2.freed ++ ms) (hout : ∀ q, q ∉ ms → h3.objs q = h2.objs q)
    (hin : ∀ q ∈ ms, h3.objs q = none) : Freed h L h3 L2 where
  sub := hf.sub.trans Finset.sdiff_subset
  frame q hq := by
    have hqm : q ∉ ms := fun hqm => hq (hms q hqm)
    rw [hout q hqm, hf.frame q fun h => hq (Finset.mem_sdiff.1 h).1, hsame q hqm]
  gone q hq hq2 := by
    by_cases hqm : q ∈ ms
    · exact hin q hqm
    · rw [hout q hqm]
      exact hf.gone q (Finset.mem_sdiff.2 ⟨hq, fun h => hqm (List.mem_toFinset.1 h)⟩) hq2
  freed := by
    obtain ⟨l, hl, hln, hlm⟩ := hf.freed
    refine ⟨l ++ ms, by rw [hfreed3, hl, hfreed1, List.append_assoc], ?_, fun q => ?_⟩
    · refine List.nodup_append.2 ⟨hln, hn, fun a ha b hb hab => ?_⟩
      exact (Finset.mem_sdiff.1 ((hlm a).1 ha).1).2 (List.mem_toFinset.2 (hab ▸ hb))
    · rw [List.mem_append, hlm]
      constructor
      · rintro (⟨hq, hq2⟩ | hq)
        · exact ⟨(Finset.mem_sdiff.1 hq).1, hq2⟩
        · exact ⟨hms q hq, fun hq2 => (Finset.mem_sdiff.1 (hf.sub hq2)).2 (List.mem_toFinset.2 hq)⟩
      · rintro ⟨hq, hq2⟩
        by_cases hqm : q ∈ ms
        · exact .inr hqm
        · exact .inl ⟨Finset.mem_sdiff.2 ⟨hq, fun h => hqm (List.mem_toFinset.1 h)⟩, hq2⟩

/-- What is left when objects that only they themselves refer to are taken out of the counts. -/
theorem Counts.detach {h h1 : Heap} {L : Finset Addr} {p : Addr} {ext : Multiset Addr}
    {ms : List Addr} (hheld : Held refs L (p ::ₘ ext))
    (hobjs : ∀ q ∈ L, h.objs q = some ⟨(inRefs refs L q + ext.count q : Nat), refs q, drops q⟩)
    (hn : ms.Nodup) (hp : p ∈ ms) (hms : ∀ q ∈ ms, q ∈ L) (hext : ∀ q ∈ ms, q ∉ ext)
    (hin : ∀ x ∈ L, ∀ r ∈ refs x, r ∈ ms → x ∈ ms) (hsame : ∀ q, q ∉ ms → h1.objs q = h.objs q) :
    Counts refs drops h1 (L \ ms.toFinset) (↑(outRefs refs ms) + ext) where
  objs q hq := by
    obtain ⟨hqL, hqm⟩ := Finset.mem_sdiff.1 hq
    have hqm' : q ∉ ms := fun h => hqm (List.mem_toFinset.2 h)
    rw [hsame q hqm', hobjs q hqL, detach_count hn hms hqm']
  held := hheld.detach hp hext hin hms

section
variable {n : Nat} {del : Addr → Heap → Option Heap} {h : Heap} {L : Finset Addr} {p : Addr}
  {ext : Multiset Addr}

theorem card_detach {ms : List Addr} (hp : p ∈ ms) (hms : ∀ q ∈ ms, q ∈ L) (hL : L.card ≤ n + 1) :
    (L \ ms.toFinset).card ≤ n := by
  have hlt : (L \ ms.toFinset).card < L.card := by
    refine Finset.card_lt_card (Finset.ssubset_iff_subset_ne.2 ⟨Finset.sdiff_subset, fun h => ?_⟩)
    have hpL : p ∈ L \ ms.toFinset := by
      rw [h]
      exact hms p hp
    exact (Finset.mem_sdiff.1 hpL).2 (List.mem_toFinset.2 hp)
  omega

/-- The clique is destroyed. -/
theorem Deletes.destroy (hdel : Deletes refs drops n del) (hskip : Skips del)
    (hperm : ∀ q, (drops q).Perm (refs q)) (hL : L.card ≤ n + 1) (hheld : Held refs L (p ::ₘ ext))
    (hobjs : ∀ q ∈ L, h.objs q = some ⟨(inRefs refs L q + ext.count q : Nat), refs q, drops q⟩)
    {ms : List Addr} (hn : ms.Nodup) (hp : p ∈ ms) (hms : ∀ q ∈ ms, q ∈ L)
    (hext : ∀ q ∈ ms, q ∉ ext) (hin : ∀ x ∈ L, ∀ r ∈ refs x, r ∈ ms → x ∈ ms) :
    ∃ h' L', destroy del ms h = some h' ∧ Counts refs drops h' L' ext ∧ Freed h L h' L' := by
  obtain ⟨h1, he1, hfreed1, hout1, hin1⟩ := each_setReferenceCount (-1) ms h fun q hq => by
    rw [hobjs q (hms q hq)]
    rfl
  have hmarked : ∀ d ∈ ms, d ∉ L \ ms.toFinset ∧ h1.objs d = some ⟨-1, refs d, drops d⟩ := by
    intro d hd
    refine ⟨fun h => (Finset.mem_sdiff.1 h).2 (List.mem_toFinset.2 hd), ?_⟩
    rw [hin1 d hd, hobjs d (hms d hd)]
    rfl
  obtain ⟨h2, L2, he2, hc2, hf2⟩ := hdel.eachObject hskip hperm ms h1 (L \ ms.toFinset) ext
    (card_detach hp hms hL) (fun m hm => hm) hmarked
    (.detach hheld hobjs hn hp hms hext hin hout1)
  obtain ⟨h3, he3, hfreed3, hout3, hin3⟩ := each_free ms h2 hn fun q hq => by
    rw [hf2.frame q (hmarked q hq).1, (hmarked q hq).2]
    rfl
  have hf := hf2.release hn hms hfreed1 hout1 hfreed3 hout3 hin3
  refine ⟨h3, L2, ?_, ⟨fun q hq => ?_, hc2.held⟩, hf⟩
  · unfold RefCount.destroy
    rw [he1]
    show (RefCount.each (delObject del false) ms h1 >>= _) = _
    rw [he2]
    exact he3
  · rw [hout3 q fun hqm => (Finset.mem_sdiff.1 (hf2.sub hq)).2 (List.mem_toFinset.2 hqm)]
    exact hc2.objs q hq

/-- An object that nothing refers to is deleted. -/
theorem Deletes.object (hdel : Deletes refs drops n del) (hskip : Skips del)
    (hperm : ∀ q, (drops q).Perm (refs q)) (hL : L.card ≤ n + 1) (hheld : Held refs L (p ::ₘ ext))
    (hobjs : ∀ q ∈ L, h.objs q = some ⟨(inRefs refs L q + ext.count q : Nat), refs q, drops q⟩)
    (hzero : inRefs refs L p + ext.count p = 0) :
    ∃ h' L', delObject del true p h = some h' ∧ Counts refs drops h' L' ext ∧ Freed h L h' L' := by
  have hpL : p ∈ L := hheld.inside p (Multiset.mem_cons_self p ext)
  have hno : ∀ x ∈ L, p ∉ refs x := inRefs_eq_zero_iff.1 (by omega)
  have hone : ∀ q ∈ [p], q ∈ L := fun q hq => List.mem_singleton.1 hq ▸ hpL
  have hc1 : Counts refs drops h (L \ [p].toFinset) (↑(outRefs refs [p]) + ext) := by
    refine .detach hheld hobjs (List.nodup_singleton p) List.mem_cons_self hone
      (fun q hq => ?_) (fun x hx r hr hrp => ?_) fun q _ => rfl
    · rw [List.mem_singleton.1 hq]
      exact Multiset.count_eq_zero.1 (by omega)
    · exact absurd (List.mem_singleton.1 hrp ▸ hr) (hno x hx)
  have hout : outRefs refs [p] = refs p := by
    unfold outRefs
    rw [List.flatMap_singleton]
    refine List.filter_eq_self.2 fun r hr => decide_eq_true fun hrp => ?_
    exact hno p hpL (List.mem_singleton.1 hrp ▸ hr)
  have hpend : (↑(outRefs refs [p]) : Multiset Addr) = ↑((drops p).filter fun r => r ∉ []) := by
    rw [hout, List.filter_eq_self.2 fun r _ => decide_eq_true List.not_mem_nil]
    exact Multiset.coe_eq_coe.2 (hperm p).symm
  rw [hpend] at hc1
  obtain ⟨h2, L2, he2, hc2, hf2⟩ := hdel.each hskip (drops p) h (L \ [p].toFinset) ext
    (card_detach List.mem_cons_self hone hL) (fun d hd => (List.not_mem_nil hd).elim) hc1
  have hp2 : p ∉ L \ [p].toFinset := fun h =>
    (Finset.mem_sdiff.1 h).2 (List.mem_toFinset.2 List.mem_cons_self)
  have ho2 := (hf2.frame p hp2).trans (hobjs p hpL)
  refine ⟨{ h2.set p none with freed := h2.freed ++ [p] }, L2, ?_, ⟨fun q hq => ?_, hc2.held⟩, ?_⟩
  · unfold delObject
    rw [hobjs p hpL]
    show (RefCount.each del (drops p) h >>= _) = _
    rw [he2]
    exact Heap.free_some ho2
  · have hqp : q ≠ p := fun hqp => hp2 (hqp ▸ hf2.sub hq)
    exact (h2.set_other hqp none).trans (hc2.objs q hq)
  · refine hf2.release (List.nodup_singleton p) hone rfl (fun _ _ => rfl) rfl (fun q hq => ?_)
      fun q hq => ?_
    · exact h2.set_other (fun hqp => hq (List.mem_singleton.2 hqp)) none
    · rw [List.mem_singleton.1 hq]
      exact h2.set_same p none

/-- The collection, after a reference to `p` was taken off its count. -/
theorem Deletes.collection (hdel : Deletes refs drops n del) (hskip : Skips del)
    (hperm : ∀ q, (drops q).Perm (refs q)) (hL : L.card ≤ n + 1) (hheld : Held refs L (p ::ₘ ext))
    (hobjs : ∀ q ∈ L, h.objs q = some ⟨(inRefs refs L q + ext.count q : Nat), refs q, drops q⟩)
    {loops : Nat} (hloops : L.card + 1 ≤ loops) :
    ∃ h' L', performCyclicCollection del loops p h = some h' ∧ Counts refs drops h' L' ext ∧
      Freed h L h' L' := by
  have hpL : p ∈ L := hheld.inside p (Multiset.mem_cons_self p ext)
  obtain ⟨R, hR, hleads, hcase⟩ := performCyclicCollection_finds hobjs hheld.closed
    (fun q _ => by omega) hpL hloops del
  cases hcase with
  | inl hkept =>
    obtain ⟨hrun, q, hq, hqp, hlt⟩ := hkept
    refine ⟨h, L, hrun, ⟨hobjs, ?_⟩, .refl rfl fun _ _ => rfl⟩
    apply hheld.drop_of_outside hqp
    have hout := outside_of_lt hR (by omega : inRefs refs R q < inRefs refs L q + ext.count q)
    exact hout.imp_right fun ⟨x, hx, hxR, hqx⟩ => ⟨x, hx, fun hpx => hxR (hleads x hpx), hqx⟩
  | inr hclique =>
    obtain ⟨ms, hrun, hn, hp, hms, hclosed⟩ := hclique
    rw [hrun]
    -- all references to the clique come from what `p` leads to, none from outside
    have hcount : ∀ q ∈ ms, ext.count q = 0 ∧ inRefs refs (L \ R) q = 0 := by
      intro q hq
      have h1 := (hms q hq).2
      have h2 := @inRefs_sdiff _ refs _ L R hR q
      omega
    refine hdel.destroy hskip hperm hL hheld hobjs hn hp (fun q hq => (hms q hq).1)
      (fun q hq => Multiset.count_eq_zero.1 (hcount q hq).1) fun x hx r hr hrm => ?_
    by_cases hxR : x ∈ R
    · exact hclosed x hxR r hr hrm
    · exact absurd hr (inRefs_eq_zero_iff.1 (hcount r hrm).2 x (Finset.mem_sdiff.2 ⟨hx, hxR⟩))

end

theorem delReference_skips {depth : Nat} : Skips (delReference (depth + 1)) := by
  intro h p o ho hneg
  unfold delReference
  rw [ho]
  exact if_pos hneg

/-- The count goes down by one. -/
theorem delReference_counted {depth k : Nat} {p : Addr} {h : Heap} {rs ds : List Addr}
    (ho : h.objs p = some ⟨(k + 1 : Nat), rs, ds⟩) : delReference (depth + 1) p h =
      if k = 0 then delObject (delReference depth) true p (h.set p (some ⟨k, rs, ds⟩))
      else performCyclicCollection (delReference depth) depth p (h.set p (some ⟨k, rs, ds⟩)) := by
  have hk : ((k + 1 : Nat) : Int) - 1 = k := by omega
  have hset : h.setReferenceCount p (((k + 1 : Nat) : Int) - 1) =
      some (h.set p (some ⟨k, rs, ds⟩)) := by
    rw [hk]
    exact Heap.setReferenceCount_some ho k
  rw [delReference, ho]
  show (if ((k + 1 : Nat) : Int) < 0 then some h
    else h.setReferenceCount p (((k + 1 : Nat) : Int) - 1) >>= fun h =>
      if ((k + 1 : Nat) : Int) - 1 = 0 then delObject (delReference depth) true p h
      else performCyclicCollection (delReference depth) depth p h) = _
  rw [if_neg (by omega), hset, hk]
  show (if (k : Int) = 0 then delObject (delReference depth) true p _
    else performCyclicCollection (delReference depth) depth p _) = _
  by_cases hzero : k = 0
  · rw [if_pos hzero, if_pos (by omega)]
  · rw [if_neg hzero, if_neg (by omega)]

/-- A call that may go as deep as there are objects drops the reference and what it held. -/
theorem delReference_deletes (hperm : ∀ q, (drops q).Perm (refs q)) (n : Nat) :
    ∀ depth, n + 1 ≤ depth → Deletes refs drops n (delReference (depth + 1)) := by
  induction n with
  | zero =>
    intro depth _ h L p ext hL hc
    have hpL := hc.held.inside p (Multiset.mem_cons_self p ext)
    rw [Finset.card_eq_zero.1 (Nat.le_zero.1 hL)] at hpL
    exact absurd hpL (Finset.notMem_empty p)
  | succ n ih =>
    intro depth hdepth h L p ext hL hc
    obtain ⟨depth, rfl⟩ : ∃ d, depth = d + 1 := ⟨depth - 1, by omega⟩
    have hdel := ih depth (by omega)
    have hpL := hc.held.inside p (Multiset.mem_cons_self p ext)
    have ho := hc.objs p hpL
    rw [Multiset.count_cons_self, ← Nat.add_assoc] at ho
    rw [delReference_counted ho]
    generalize hh1 : h.set p _ = h1
    have hobjs : ∀ q ∈ L, h1.objs q =
        some ⟨(inRefs refs L q + ext.count q : Nat), refs q, drops q⟩ := by
      intro q hq
      rw [← hh1]
      by_cases hqp : q = p
      · rw [hqp, h.set_same]
      · rw [h.set_other hqp, hc.objs q hq, Multiset.count_cons_of_ne hqp]
    have hf1 : Freed h L h1 L := .refl (by rw [← hh1]; rfl) fun q hq => by
      have hqp : q ≠ p := fun hqp => hq (hqp ▸ hpL)
      rw [← hh1, h.set_other hqp]
    by_cases hzero : inRefs refs L p + ext.count p = 0
    · rw [if_pos hzero]
      obtain ⟨h', L', hrun, hc', hf⟩ :=
        hdel.object delReference_skips hperm hL hc.held hobjs hzero
      exact ⟨h', L', hrun, hc', hf1.trans hf⟩
    · rw [if_neg hzero]
      obtain ⟨h', L', hrun, hc', hf⟩ :=
        hdel.collection delReference_skips hperm hL hc.held hobjs (by omega : L.card + 1 ≤ depth + 1)
      exact ⟨h', L', hrun, hc', hf1.trans hf⟩

end

/-! ## The heap as a whole -/

/-- The references that `Minimal_getReferences` enumerates. -/
def Heap.refs (h : Heap) (q : Addr) : List Addr := ((h.objs q).map Obj.refs).getD []

def Heap.drops (h : Heap) (q : Addr) : List Addr := ((h.objs q).map Obj.drops).getD []

/-- The objects at `L` are all there are, they have the counts of the references to them,
`roots` included, they drop what they enumerate, and they are all held. -/
structure Heap.WellCounted (h : Heap) (L : Finset Addr) (roots : Multiset Addr) : Prop where
  allocated : ∀ q, q ∈ L ↔ (h.objs q).isSome = true
  counts : ∀ q o, h.objs q = some o → o.refCount = (inRefs h.refs L q + roots.count q : Nat)
  drops : ∀ q o, h.objs q = some o → o.drops.Perm o.refs
  held : Held h.refs L roots

/-- `h'` is what is left of `h` when the objects that `roots` does not lead to are freed. -/
structure Heap.Collected (h : Heap) (L : Finset Addr) (roots : Multiset Addr) (h' : Heap) :
    Prop where
  freed : ∃ l, h'.freed = h.freed ++ l ∧ l.Nodup ∧
    ∀ q, q ∈ l ↔ q ∈ L ∧ ¬ ∃ r ∈ roots, Leads h.refs r q
  left : ∃ L', (∀ q, q ∈ L' ↔ ∃ r ∈ roots, Leads h.refs r q) ∧ h'.WellCounted L' roots ∧
    ∀ q ∈ L', h'.refs q = h.refs q ∧ h'.drops q = h.drops q

section
variable {h h' : Heap} {L : Finset Addr} {roots : Multiset Addr}

theorem Heap.refs_some {q : Addr} {c : Int} {rs ds : List Addr}
    (ho : h.objs q = some ⟨c, rs, ds⟩) : h.refs q = rs ∧ h.drops q = ds := by
  unfold refs drops
  rw [ho]
  exact ⟨rfl, rfl⟩

theorem Heap.WellCounted.toCounts (hwf : h.WellCounted L roots) :
    Counts h.refs h.drops h L roots where
  objs q hq := by
    obtain ⟨⟨c, rs, ds⟩, ho⟩ := Option.isSome_iff_exists.1 ((hwf.allocated q).1 hq)
    obtain ⟨hrs, hds⟩ := refs_some ho
    rw [hrs, hds, ho, ← hwf.counts q _ ho]
  held := hwf.held

theorem Heap.WellCounted.perm (hwf : h.WellCounted L roots) (q : Addr) :
    (h.drops q).Perm (h.refs q) := by
  cases ho : h.objs q with
  | none =>
    unfold Heap.drops Heap.refs
    rw [ho]
    exact .nil
  | some o =>
    obtain ⟨hrs, hds⟩ := refs_some ho
    rw [hrs, hds]
    exact hwf.drops q o ho

/-- Exact counts of the objects that are left are exact counts of the heap. -/
theorem Counts.collected {L' : Finset Addr} {ext : Multiset Addr} (hwf : h.WellCounted L ext)
    (hc : Counts h.refs h.drops h' L' roots) (hf : Freed h L h' L') :
    h.Collected L roots h' := by
  have hsame : ∀ q ∈ L', h'.refs q = h.refs q ∧ h'.drops q = h.drops q :=
    fun q hq => Heap.refs_some (hc.objs q hq)
  have hrefs : ∀ q ∈ L', h'.refs q = h.refs q := fun q hq => (hsame q hq).1
  have hthere (q : Addr) (o : Obj) (ho : h'.objs q = some o) : q ∈ L' := by
    refine Decidable.byContradiction fun hq' => ?_
    by_cases hq : q ∈ L
    · rw [hf.gone q hq hq'] at ho
      cases ho
    · rw [hf.frame q hq] at ho
      exact hq ((hwf.allocated q).2 (by rw [ho]; rfl))
  obtain ⟨l, hl, hn, hmem⟩ := hf.freed
  refine ⟨⟨l, hl, hn, fun q => ?_⟩, L', hc.held.mem_iff, ⟨fun q => ?_, fun q o ho => ?_,
    fun q o ho => ?_, hc.held.congr hrefs⟩, hsame⟩
  · rw [hmem, hc.held.mem_iff]
  · constructor
    · intro hq
      rw [hc.objs q hq]
      rfl
    · intro hq
      obtain ⟨o, ho⟩ := Option.isSome_iff_exists.1 hq
      exact hthere q o ho
  · have hobj := hc.objs q (hthere q o ho)
    rw [inRefs_congr hrefs]
    rw [ho] at hobj
    cases hobj
    rfl
  · have hobj := hc.objs q (hthere q o ho)
    rw [ho] at hobj
    cases hobj
    exact hwf.perm q

end

/-- Dropping a reference from a root frees the objects that are not held any more, each once,
and leaves the others with exact counts. The calls go no deeper than there are objects. -/
theorem delReference_exact {h : Heap} {L : Finset Addr} {p : Addr} {roots : Multiset Addr}
    (hwf : h.WellCounted L (p ::ₘ roots)) {depth : Nat} (hdepth : L.card + 2 ≤ depth) :
    ∃ h', delReference depth p h = some h' ∧ h.Collected L roots h' := by
  obtain ⟨d, rfl⟩ : ∃ d, depth = d + 1 := ⟨depth - 1, by omega⟩
  obtain ⟨h', L', hrun, hc, hf⟩ := delReference_deletes hwf.perm L.card d (by omega) h L p roots
    (Nat.le_refl _) hwf.toCounts
  exact ⟨h', hrun, hc.collected hwf hf⟩

/-- Two objects that refer to each other, and a third that one of them and a root refer to. -/
def cycleHeap : Heap where
  objs q := if q = 1 then some ⟨2, [2], [2]⟩ else if q = 2 then some ⟨1, [1, 3], [3, 1]⟩
    else if q = 3 then some ⟨2, [], []⟩ else none
  freed := []

theorem cycleHeap_some {q : Addr} {o : Obj} (ho : cycleHeap.objs q = some o) :
    q = 1 ∨ q = 2 ∨ q = 3 := by
  unfold cycleHeap at ho
  grind

theorem cycleHeap_wellCounted : cycleHeap.WellCounted {1, 2, 3} (1 ::ₘ {3}) where
  allocated q := by
    unfold cycleHeap
    by_cases h1 : q = 1
    · simp [h1]
    · by_cases h2 : q = 2
      · simp [h2]
      · by_cases h3 : q = 3
        · simp [h3]
        · simp [h1, h2, h3]
  counts q o ho := by
    obtain rfl | rfl | rfl := cycleHeap_some ho
    · cases ho
      decide
    · cases ho
      decide
    · cases ho
      decide
  drops q o ho := by
    obtain rfl | rfl | rfl := cycleHeap_some ho
    · cases ho
      decide
    · cases ho
      decide
    · cases ho
      decide
  held := by
    have h12 : Leads cycleHeap.refs 1 2 := Leads.head (by decide) (.refl 2)
    refine ⟨by decide, by decide, fun q hq => ?_⟩
    have hq : q = 1 ∨ q = 2 ∨ q = 3 := by simpa using hq
    obtain rfl | rfl | rfl := hq
    · exact ⟨1, by decide, .refl 1⟩
    · exact ⟨1, by decide, h12⟩
    · exact ⟨3, by decide, .refl 3⟩

theorem delReference_exact_cycle :
    ∃ h', delReference 5 1 cycleHeap = some h' ∧ cycleHeap.Collected {1, 2, 3} {3} h' :=
  delReference_exact cycleHeap_wellCounted (by decide)

end PyLinda.RefCount
