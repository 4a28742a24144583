import PyLinda.Lib.Forest
import PyLinda.Minimal.CyclicExact

/-!
# Dropping trees

What `Minimal_delReference` does where no object is referred to twice, and to objects that only
lose a second reference.
-/

namespace PyLinda.RefCount

open Lib

section
variable {h h' h'' : Heap} {refs : Addr → List Addr} {vs ns : List Addr} {p q : Addr} {depth : Nat}
  {rs ds : List Addr}

theorem each_some {f : Addr → Heap → Option Heap} (hp : f p h = some h') :
    each f (p :: vs) h = each f vs h' := by
  show (f p h >>= fun h => each f vs h) = _
  rw [hp]
  rfl

/-- The last reference to an object is dropped. -/
theorem delReference_last (ho : h.objs p = some ⟨1, rs, ds⟩)
    (hdrops : each (delReference depth) ds (h.set p (some ⟨0, rs, ds⟩)) = some h')
    (hp : (h'.objs p).isSome = true) :
    ∃ h'', delReference (depth + 1) p h = some h'' ∧
      ∀ q, h''.objs q = if q = p then none else h'.objs q := by
  obtain ⟨o, ho'⟩ := Option.isSome_iff_exists.1 hp
  refine ⟨{ h'.set p none with freed := h'.freed ++ [p] }, ?_, fun q => ?_⟩
  · have hcount : h.objs p = some ⟨(0 + 1 : Nat), rs, ds⟩ := ho
    rw [delReference_counted hcount, if_pos rfl]
    unfold delObject
    rw [show ((0 : Nat) : Int) = 0 from rfl, Heap.set_same]
    show (each (delReference depth) ds _ >>= fun h => h.free p) = _
    rw [hdrops]
    exact Heap.free_some ho'
  · by_cases hq : q = p
    · rw [if_pos hq, hq]
      exact Heap.set_same _ _ _
    · rw [if_neg hq]
      exact Heap.set_other _ hq _

/-- Trees are freed with all that is in them. -/
theorem each_delReference_forest (hf : Forest refs vs ns) (hnodup : ns.Nodup)
    (hsole : ∀ a ∈ ns, h.objs a = some ⟨1, refs a, refs a⟩) (hdepth : ns.length ≤ depth) :
    ∃ h', each (delReference depth) vs h = some h' ∧
      ∀ q, h'.objs q = if q ∈ ns then none else h.objs q := by
  induction hf generalizing h depth with
  | nil => exact ⟨h, rfl, fun q => (if_neg List.not_mem_nil).symm⟩
  | @cons v vs n1 n2 _ _ ihk ih =>
    obtain ⟨hfirst, hn2, hapart⟩ := List.nodup_append.1 hnodup
    obtain ⟨hv, hn1⟩ := List.nodup_cons.1 hfirst
    rw [List.length_append, List.length_cons] at hdepth
    obtain ⟨d, rfl⟩ : ∃ d, depth = d + 1 := ⟨depth - 1, by omega⟩
    have hov := hsole v (List.mem_append_left _ List.mem_cons_self)
    obtain ⟨h1, hrun1, hobjs1⟩ := @ihk (h.set v (some ⟨0, refs v, refs v⟩)) d hn1
      (fun a ha => by
        have hav : a ≠ v := fun hav => hv (hav ▸ ha)
        rw [Heap.set_other _ hav]
        exact hsole a (List.mem_append_left _ (List.mem_cons_of_mem _ ha))) (by omega)
    have hv1 : (h1.objs v).isSome = true := by
      rw [hobjs1, if_neg hv, Heap.set_same]
      rfl
    obtain ⟨h2, hrun2, hobjs2⟩ := delReference_last hov hrun1 hv1
    have hsame : ∀ q, q ∉ v :: n1 → h2.objs q = h.objs q := by
      intro q hq
      have hqv : q ≠ v := fun hqv => hq (hqv ▸ List.mem_cons_self)
      rw [hobjs2, if_neg hqv, hobjs1, if_neg fun hq1 => hq (List.mem_cons_of_mem _ hq1),
        Heap.set_other _ hqv]
    obtain ⟨h3, hrun3, hobjs3⟩ := @ih h2 (d + 1) hn2 (fun a ha => by
      rw [hsame a fun ha' => hapart a ha' a ha rfl]
      exact hsole a (List.mem_append_right _ ha)) (by omega)
    refine ⟨h3, (each_some hrun2).trans hrun3, fun q => ?_⟩
    rw [hobjs3]
    by_cases hq2 : q ∈ n2
    · rw [if_pos hq2, if_pos (List.mem_append_right _ hq2)]
    · rw [if_neg hq2]
      by_cases hq : q ∈ v :: n1
      · rw [if_pos (List.mem_append_left _ hq), hobjs2]
        cases List.mem_cons.1 hq with
        | inl hqv => exact if_pos hqv
        | inr hq1 =>
          have hqv : q ≠ v := fun hqv => hv (hqv ▸ hq1)
          rw [if_neg hqv, hobjs1, if_pos hq1]
      · rw [if_neg fun hq' => (List.mem_append.1 hq').elim hq hq2]
        exact hsame q hq

/-- An object drops what it refers to, or also what is never there. -/
def DropsAtLeast (refs drops : Addr → List Addr) (nowhere a : Addr) : Prop :=
  drops a = refs a ∨ drops a = refs a ++ [nowhere] ∨ drops a = nowhere :: refs a

theorem each_some_inv {f : Addr → Heap → Option Heap} (hrun : each f (p :: vs) h = some h'') :
    ∃ h', f p h = some h' ∧ each f vs h' = some h'' := Option.bind_eq_some_iff.1 hrun

theorem each_append {f : Addr → Heap → Option Heap} {ws : List Addr}
    (hrun : each f (vs ++ ws) h = some h'') :
    ∃ h', each f vs h = some h' ∧ each f ws h' = some h'' := by
  induction vs generalizing h with
  | nil => exact ⟨h, rfl, hrun⟩
  | cons v vs ih =>
    obtain ⟨h1, hv, hrest⟩ := each_some_inv hrun
    obtain ⟨h2, hvs, hws⟩ := ih hrest
    exact ⟨h2, (each_some hv).trans hvs, hws⟩

theorem delReference_nowhere (hp : h.objs p = none) : delReference depth p h ≠ some h' := by
  intro hrun
  cases depth with
  | zero => cases hrun
  | succ depth =>
    rw [delReference, hp] at hrun
    cases hrun

/-- What is dropped with the last reference to an object. -/
theorem delReference_last_inv (ho : h.objs p = some ⟨1, rs, ds⟩)
    (hrun : delReference (depth + 1) p h = some h'') :
    ∃ h', each (delReference depth) ds (h.set p (some ⟨0, rs, ds⟩)) = some h' := by
  have hcount : h.objs p = some ⟨(0 + 1 : Nat), rs, ds⟩ := ho
  rw [delReference_counted hcount, if_pos rfl] at hrun
  obtain ⟨o, ho', hrun⟩ := Option.bind_eq_some_iff.1 hrun
  rw [Heap.set_same] at ho'
  cases ho'
  obtain ⟨h', hdrops, _⟩ := Option.bind_eq_some_iff.1 hrun
  exact ⟨h', hdrops⟩

/-- What was freed did drop what it refers to, and nothing else. -/
theorem each_delReference_drops {drops : Addr → List Addr} {nowhere : Addr}
    (hf : Forest refs vs ns) (hnodup : ns.Nodup)
    (hsole : ∀ a ∈ ns, h.objs a = some ⟨1, refs a, drops a⟩) (hnone : h.objs nowhere = none)
    (hdrops : ∀ a ∈ ns, DropsAtLeast refs drops nowhere a) (hdepth : ns.length ≤ depth)
    (hrun : each (delReference depth) vs h = some h') : ∀ a ∈ ns, drops a = refs a := by
  induction hf generalizing h h' depth with
  | nil => intro a ha; cases ha
  | @cons v vs n1 n2 hk hrest ihk ih =>
    obtain ⟨hfirst, hn2, hapart⟩ := List.nodup_append.1 hnodup
    obtain ⟨hv, hn1⟩ := List.nodup_cons.1 hfirst
    rw [List.length_append, List.length_cons] at hdepth
    obtain ⟨d, rfl⟩ : ∃ d, depth = d + 1 := ⟨depth - 1, by omega⟩
    obtain ⟨h1, hrunv, hrunvs⟩ := each_some_inv hrun
    have hov : h.objs v = some ⟨1, refs v, drops v⟩ :=
      hsole v (List.mem_append_left _ List.mem_cons_self)
    have hvnone : nowhere ≠ v := by
      intro hvn
      rw [hvn, hov] at hnone
      cases hnone
    obtain ⟨h2, hkids⟩ := delReference_last_inv hov hrunv
    obtain ⟨h0, hh0⟩ : ∃ h0, h0 = h.set v (some ⟨0, refs v, drops v⟩) := ⟨_, rfl⟩
    rw [← hh0] at hkids
    have hsole0 : ∀ a ∈ n1, h0.objs a = some ⟨1, refs a, drops a⟩ := by
      intro a ha
      have hav : a ≠ v := fun hav => hv (hav ▸ ha)
      rw [hh0, Heap.set_other _ hav]
      exact hsole a (List.mem_append_left _ (List.mem_cons_of_mem _ ha))
    have hnone0 : h0.objs nowhere = none := by
      rw [hh0]
      exact (Heap.set_other _ hvnone _).trans hnone
    have hbelow : ∀ {h3}, each (delReference d) (refs v) h0 = some h3 →
        (∀ a ∈ n1, drops a = refs a) ∧ h3.objs nowhere = none := by
      intro h3 hrefs
      have hn1d := ihk hn1 hsole0 hnone0
        (fun a ha => hdrops a (List.mem_append_left _ (List.mem_cons_of_mem _ ha))) (by omega) hrefs
      obtain ⟨h4, hrun4, hobjs⟩ := each_delReference_forest hk hn1
        (fun a ha => by rw [hsole0 a ha, hn1d a ha]) (by omega : n1.length ≤ d)
      rw [hrefs] at hrun4
      cases hrun4
      refine ⟨hn1d, (hobjs nowhere).trans ?_⟩
      rw [hnone0]
      exact ite_self none
    have hall : drops v = refs v ∧ ∀ a ∈ n1, drops a = refs a := by
      rcases hdrops v (List.mem_append_left _ List.mem_cons_self) with hd | hd | hd
      · rw [hd] at hkids
        exact ⟨hd, (hbelow hkids).1⟩
      · -- after its references it drops what is not there
        rw [hd] at hkids
        obtain ⟨h3, hrefs, hlast⟩ := each_append hkids
        obtain ⟨h4, hlast, _⟩ := each_some_inv hlast
        exact absurd hlast (delReference_nowhere (hbelow hrefs).2)
      · rw [hd] at hkids
        obtain ⟨h3, hnowhere, _⟩ := each_some_inv hkids
        exact absurd hnowhere (delReference_nowhere hnone0)
    have hfirstd : ∀ a ∈ v :: n1, drops a = refs a := List.forall_mem_cons.2 hall
    obtain ⟨h4, hrun4, hobjs⟩ := @each_delReference_forest h refs [v] (v :: n1) (d + 1) hk.single hfirst
      (fun a ha => by rw [hsole a (List.mem_append_left _ ha), hfirstd a ha])
      (by rw [List.length_cons]; omega)
    obtain ⟨h5, hrun5, hnil⟩ := each_some_inv hrun4
    rw [hrunv] at hrun5
    cases hrun5
    cases hnil
    have hn2d := ih hn2 (fun a ha => by
        rw [hobjs, if_neg fun ha' => hapart a ha' a ha rfl]
        exact hsole a (List.mem_append_right _ ha))
      (by rw [hobjs, hnone]; exact ite_self none)
      (fun a ha => hdrops a (List.mem_append_right _ ha)) (by omega) hrunvs
    intro a ha
    exact (List.mem_append.1 ha).elim (hfirstd a) (hn2d a)

/-- Nothing is collected below an object that is referred to from elsewhere. -/
theorem performCyclicCollection_tree {del : Addr → Heap → Option Heap} {loops : Nat}
    {drops : Addr → List Addr} (hf : Forest refs [p] ns) (hnodup : ns.Nodup)
    (hsole : ∀ a ∈ ns, h.objs a = some ⟨1, refs a, drops a⟩) (hloops : ns.length + 1 ≤ loops) :
    performCyclicCollection del loops p h = some h := by
  have hmem : ∀ q, q ∈ ns.toFinset ↔ q ∈ ns := fun q => List.mem_toFinset
  have hin : ∀ q ∈ ns, inRefs refs ns.toFinset q + [p].count q = 1 := by
    intro q hq
    rw [← count_flatMap q ns hnodup, hf.count, List.count_eq_one_of_mem hnodup hq]
  have hp : p ∈ ns := hf.roots List.mem_cons_self
  have hinp : inRefs refs ns.toFinset p = 0 := by
    have h1 := hin p hp
    rw [List.count_singleton_self] at h1
    omega
  have hL : ∀ q ∈ ns.toFinset, h.objs q = some ⟨(fun _ => (1 : Int)) q, refs q, drops q⟩ :=
    fun q hq => hsole q ((hmem q).1 hq)
  have hclosed : ∀ q ∈ ns.toFinset, ∀ r ∈ refs q, r ∈ ns.toFinset :=
    fun q hq r hr => (hmem r).2 (hf.closed ((hmem q).1 hq) hr)
  have hcard : ns.toFinset.card + 1 ≤ loops := by
    rw [List.toFinset_card_of_nodup hnodup]
    exact hloops
  obtain ⟨R, hR, _, hfinds⟩ := performCyclicCollection_finds hL hclosed
    (fun q hq => by
      have h1 := hin q ((hmem q).1 hq)
      omega) ((hmem p).2 hp) hcard del
  cases hfinds with
  | inl hsame => exact hsame.1
  | inr hclique =>
    obtain ⟨ms, _, _, hpm, hcounts, _⟩ := hclique
    have hle := @inRefs_mono _ refs _ ns.toFinset R hR p
    have hone := (hcounts p hpm).2
    rw [hinp] at hle
    omega

/-- Nothing is collected at an object with nothing below it. -/
theorem performCyclicCollection_leaf {del : Addr → Heap → Option Heap} {c : Int}
    (ho : h.objs p = some ⟨c, [], []⟩) (hc : c ≠ 0) :
    performCyclicCollection del (depth + 2) p h = some h := by
  have hcount : h.getReferenceCount p = some c := by
    unfold Heap.getReferenceCount
    rw [ho]
    rfl
  by_cases hneg : c < 0
  · unfold performCyclicCollection
    rw [hcount]
    exact if_pos hneg
  · have hlist : possibleClique h (depth + 2) 0 [⟨p, 0, c, [], true⟩] = some [⟨p, 0, c, [], true⟩] := by
      show (h.objs p >>= fun o => getReferences h 0 o.refs [⟨p, 0, c, [], true⟩] >>=
        fun list => possibleClique h (depth + 1) 1 list) = _
      rw [ho]
      rfl
    rw [performCyclicCollection_some hcount (Int.not_lt.1 hneg) hlist]
    refine if_pos ?_
    show (0 : Int) < c
    omega

/-- An object with nothing below it loses a reference. -/
theorem delReference_leaf {c : Int} (ho : h.objs p = some ⟨c, [], []⟩) :
    ∃ h', delReference (depth + 3) p h = some h' ∧ (∀ q, q ≠ p → h'.objs q = h.objs q) ∧
      ∀ o, h'.objs p = some o → o.refs = [] ∧ o.drops = [] := by
  by_cases hneg : c < 0
  · refine ⟨h, delReference_skips _ _ _ ho hneg, fun _ _ => rfl, fun o ho' => ?_⟩
    rw [ho] at ho'
    cases ho'
    exact ⟨rfl, rfl⟩
  · have hset : ∀ q, q ≠ p → (h.set p (some ⟨c - 1, [], []⟩)).objs q = h.objs q :=
      fun q hq => Heap.set_other _ hq _
    by_cases hone : c = 1
    · subst hone
      obtain ⟨h', hrun, hobjs⟩ := @delReference_last h _ p (depth + 2) [] [] ho rfl
        (by rw [Heap.set_same]; rfl)
      refine ⟨h', hrun, fun q hq => ?_, fun o ho' => ?_⟩
      · rw [hobjs, if_neg hq]
        exact hset q hq
      · rw [hobjs, if_pos rfl] at ho'
        cases ho'
    · refine ⟨h.set p (some ⟨c - 1, [], []⟩), ?_, hset, fun o ho' => ?_⟩
      · rw [delReference, ho]
        show (if c < 0 then some h else h.setReferenceCount p (c - 1) >>= fun h =>
          if c - 1 = 0 then delObject (delReference (depth + 2)) true p h
          else performCyclicCollection (delReference (depth + 2)) (depth + 2) p h) = _
        rw [if_neg hneg, Heap.setReferenceCount_some ho]
        show (if c - 1 = 0 then _ else _) = _
        rw [if_neg (by omega)]
        exact performCyclicCollection_leaf (Heap.set_same _ _ _) (by omega)
      · rw [Heap.set_same] at ho'
        cases ho'
        exact ⟨rfl, rfl⟩

/-- Objects with trees below them lose the second of two references. -/
theorem each_delReference_second {drops : Addr → List Addr} (hf : Forest refs vs ns)
    (hnodup : ns.Nodup)
    (hroots : ∀ a ∈ vs, h.objs a = some ⟨2, refs a, drops a⟩)
    (hsole : ∀ a ∈ ns, a ∉ vs → h.objs a = some ⟨1, refs a, drops a⟩)
    (hdepth : ns.length + 1 ≤ depth) :
    ∃ h', each (delReference (depth + 1)) vs h = some h' ∧
      ∀ q, h'.objs q = if q ∈ vs then some ⟨1, refs q, drops q⟩ else h.objs q := by
  induction hf generalizing h with
  | nil => exact ⟨h, rfl, fun q => (if_neg List.not_mem_nil).symm⟩
  | @cons v vs n1 n2 hk hrest ihk ih =>
    obtain ⟨hfirst, hn2, hapart⟩ := List.nodup_append.1 hnodup
    obtain ⟨hv, hn1⟩ := List.nodup_cons.1 hfirst
    rw [List.length_append, List.length_cons] at hdepth
    have hvs : ∀ a ∈ v :: n1, a ∉ vs := fun a ha ha' => hapart a ha a (hrest.roots ha') rfl
    have hov : h.objs v = some ⟨(1 + 1 : Nat), refs v, drops v⟩ := hroots v List.mem_cons_self
    have hrun : delReference (depth + 1) v h = some (h.set v (some ⟨1, refs v, drops v⟩)) := by
      rw [delReference_counted hov, if_neg Nat.one_ne_zero]
      refine @performCyclicCollection_tree _ refs (v :: n1) v _ _ drops hk.single hfirst
        (fun a ha => ?_) ?_
      · by_cases hav : a = v
        · rw [hav]
          exact Heap.set_same _ _ _
        · rw [Heap.set_other _ hav]
          refine hsole a (List.mem_append_left _ ha) fun ha' => ?_
          cases List.mem_cons.1 ha' with
          | inl hav' => exact hav hav'
          | inr ha' => exact hvs a ha ha'
      · rw [List.length_cons]
        omega
    have hne : ∀ a ∈ n2, a ≠ v := fun a ha hav => hapart v List.mem_cons_self a ha hav.symm
    obtain ⟨h', hrest', hobjs⟩ := ih (h := h.set v (some ⟨1, refs v, drops v⟩)) hn2
      (fun a ha => by
        rw [Heap.set_other _ (hne a (hrest.roots ha))]
        exact hroots a (List.mem_cons_of_mem _ ha))
      (fun a ha ha' => by
        rw [Heap.set_other _ (hne a ha)]
        refine hsole a (List.mem_append_right _ ha) fun hav => ?_
        exact (List.mem_cons.1 hav).elim (hne a ha) ha') (by omega)
    refine ⟨h', (each_some hrun).trans hrest', fun q => ?_⟩
    rw [hobjs]
    by_cases hq : q ∈ vs
    · rw [if_pos hq, if_pos (List.mem_cons_of_mem _ hq)]
    · rw [if_neg hq]
      by_cases hqv : q = v
      · rw [hqv, if_pos List.mem_cons_self]
        exact Heap.set_same _ _ _
      · rw [if_neg fun hq' => (List.mem_cons.1 hq').elim hqv hq]
        exact Heap.set_other _ hqv _

end

end PyLinda.RefCount
