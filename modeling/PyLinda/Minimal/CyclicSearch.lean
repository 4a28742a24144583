import Mathlib.Data.List.Nodup
import PyLinda.Lib.RefGraph
import PyLinda.Minimal.CyclicGarbage

/-!
# What the collection finds

The list of `Minimal_performCyclicCollection` is determined by the order in which the objects
were found and the references that were counted so far. At its end it has all that the object
leads to, and the clique is closed under being referred to from there.
-/

namespace PyLinda.RefCount

open Lib

/-- The entry of an object: the objects found so far, the references counted so far, by source
and target, and the clique. -/
def entry (counts : Addr → Int) (found : List Addr) (edges : List (Addr × Addr))
    (clique : List Addr) (q : Addr) : CyclicGarbage where
  ptr := q
  count := (edges.map Prod.snd).count q
  refcount := counts q
  ptrtos := (edges.filter fun e => e.1 == q).map fun e => found.idxOf e.2
  inClique := decide (q ∈ clique)

/-- The list. -/
def entries (counts : Addr → Int) (found : List Addr) (edges : List (Addr × Addr))
    (clique : List Addr) : List CyclicGarbage := found.map (entry counts found edges clique)

/-- What was found is distinct, and what was counted is between objects that were found. -/
structure Found (found : List Addr) (edges : List (Addr × Addr)) : Prop where
  nodup : found.Nodup
  sources : ∀ e ∈ edges, e.1 ∈ found
  targets : ∀ e ∈ edges, e.2 ∈ found

/-- An entry is changed where its object stands. -/
theorem modify_map {β : Type} {found : List Addr} (hn : found.Nodup) {i : Nat} {s : Addr}
    (hi : found[i]? = some s) (f : Addr → β) (g : β → β) :
    (found.map f).modify i g = found.map fun q => if q = s then g (f q) else f q := by
  apply List.ext_getElem?
  intro j
  rw [List.getElem?_modify, List.getElem?_map, List.getElem?_map]
  cases hj : found[j]? with
  | none => rfl
  | some q =>
    have hlt : i < found.length := (List.getElem?_eq_some_iff.1 hi).1
    have hij : i = j ↔ q = s := by
      rw [← List.getElem?_inj hlt hn, hi, hj]
      constructor
      · intro h
        exact (Option.some.inj h).symm
      · intro h
        rw [h]
    show some (if i = j then g (f q) else f q) = some (if q = s then g (f q) else f q)
    by_cases hq : q = s
    · rw [if_pos hq, if_pos (hij.2 hq)]
    · rw [if_neg hq, if_neg fun h => hq (hij.1 h)]

section
variable {counts : Addr → Int} {found : List Addr} {edges : List (Addr × Addr)}
  {clique : List Addr} {h : Heap}

theorem findIdx_entries (r : Addr) :
    ((entries counts found edges clique).findIdx fun item => item.ptr == r) = found.idxOf r := by
  unfold entries
  rw [List.findIdx_map]
  rfl

/-- What one more reference changes. -/
theorem entry_snoc (s r q : Addr) : entry counts found (edges ++ [(s, r)]) clique q =
    let e := entry counts found edges clique q
    let e := if q = r then { e with count := e.count + 1 } else e
    if q = s then { e with ptrtos := e.ptrtos ++ [found.idxOf r] } else e := by
  have hcount : (((edges ++ [(s, r)]).map Prod.snd).count q : Nat) =
      if q = r then (edges.map Prod.snd).count q + 1 else (edges.map Prod.snd).count q := by
    rw [List.map_append, List.count_append]
    by_cases hq : q = r
    · rw [if_pos hq, hq]
      show _ + List.count r [r] = _
      rw [List.count_singleton_self]
    · rw [if_neg hq]
      show _ + List.count q [r] = _
      rw [List.count_eq_zero_of_not_mem fun h => hq (List.mem_singleton.1 h), Nat.add_zero]
  have hptrtos : (((edges ++ [(s, r)]).filter fun e => e.1 == q).map fun e => found.idxOf e.2) =
      if q = s then ((edges.filter fun e => e.1 == q).map fun e => found.idxOf e.2) ++
        [found.idxOf r] else (edges.filter fun e => e.1 == q).map fun e => found.idxOf e.2 := by
    rw [List.filter_append, List.map_append]
    by_cases hq : q = s
    · rw [if_pos hq, List.filter_cons_of_pos (by simp [hq])]
      rfl
    · rw [if_neg hq, List.filter_cons_of_neg (by simp [Ne.symm hq])]
      exact List.append_nil _
  unfold entry
  rw [hcount, hptrtos]
  by_cases hr : q = r
  · by_cases hs : q = s
    · simp only [if_pos hr, if_pos hs]
    · simp only [if_pos hr, if_neg hs]
  · by_cases hs : q = s
    · simp only [if_neg hr, if_pos hs]
    · simp only [if_neg hr, if_neg hs]

/-- The object was found before. -/
theorem addToCyclicGarbageList_old (hf : Found found edges) {i : Nat} {s r : Addr}
    (hs : found[i]? = some s) (hr : r ∈ found) (hc : h.getReferenceCount r = some (counts r)) :
    addToCyclicGarbageList h i (entries counts found edges clique) r =
      some (entries counts found (edges ++ [(s, r)]) clique) := by
  unfold addToCyclicGarbageList
  rw [hc, findIdx_entries]
  have hlt : found.idxOf r < (entries counts found edges clique).length := by
    unfold entries
    rw [List.length_map]
    exact List.idxOf_lt_length_iff.2 hr
  show some (List.modify (if _ then _ else _) i _) = _
  rw [if_pos hlt]
  unfold entries
  rw [modify_map hf.nodup (List.getElem?_idxOf hr), modify_map hf.nodup hs]
  congr 1
  exact List.map_congr_left fun q _ => (entry_snoc s r q).symm

theorem Found.old (hf : Found found edges) {s r : Addr} (hs : s ∈ found) (hr : r ∈ found) :
    Found found (edges ++ [(s, r)]) where
  nodup := hf.nodup
  sources e he := by
    cases List.mem_append.1 he with
    | inl he => exact hf.sources e he
    | inr he => exact List.mem_singleton.1 he ▸ hs
  targets e he := by
    cases List.mem_append.1 he with
    | inl he => exact hf.targets e he
    | inr he => exact List.mem_singleton.1 he ▸ hr

theorem Found.grow (hf : Found found edges) {r : Addr} (hr : r ∉ found) :
    Found (found ++ [r]) edges where
  nodup := List.nodup_append.2 ⟨hf.nodup, List.nodup_singleton r, fun _ ha _ hb hab =>
    hr (List.mem_singleton.1 hb ▸ hab ▸ ha)⟩
  sources e he := List.mem_append_left _ (hf.sources e he)
  targets e he := List.mem_append_left _ (hf.targets e he)

/-- Entries do not change when more objects are found. -/
theorem entry_grow (hf : Found found edges) (more : List Addr) (q : Addr) :
    entry counts (found ++ more) edges clique q = entry counts found edges clique q := by
  unfold entry
  congr 1
  refine List.map_congr_left fun e he => ?_
  exact List.idxOf_append_of_mem (hf.targets e (List.mem_of_mem_filter he))

/-- An object that was not found has no references so far. -/
theorem entry_new (hf : Found found edges) {r : Addr} (hr : r ∉ found)
    (hclique : ∀ q ∈ clique, q ∈ found) :
    entry counts found edges clique r = ⟨r, 0, counts r, [], false⟩ := by
  have hcount : (edges.map Prod.snd).count r = 0 := by
    refine List.count_eq_zero_of_not_mem fun h => ?_
    obtain ⟨e, he, her⟩ := List.mem_map.1 h
    exact hr (her ▸ hf.targets e he)
  have hsource : (edges.filter fun e => e.1 == r) = [] := by
    refine List.filter_eq_nil_iff.2 fun e he her => ?_
    exact hr (beq_iff_eq.1 her ▸ hf.sources e he)
  unfold entry
  rw [hcount, hsource, decide_eq_false fun h => hr (hclique r h)]
  rfl

/-- The object is found now. -/
theorem addToCyclicGarbageList_new (hf : Found found edges) {i : Nat} {s r : Addr}
    (hs : found[i]? = some s) (hr : r ∉ found) (hclique : ∀ q ∈ clique, q ∈ found)
    (hc : h.getReferenceCount r = some (counts r)) :
    addToCyclicGarbageList h i (entries counts found edges clique) r =
      some (entries counts (found ++ [r]) (edges ++ [(s, r)]) clique) := by
  have hi : i < found.length := (List.getElem?_eq_some_iff.1 hs).1
  have hidx : found.idxOf r = found.length := List.idxOf_eq_length_iff.2 hr
  have hlt : ¬ found.idxOf r < (entries counts found edges clique).length := by
    unfold entries
    rw [List.length_map, hidx]
    exact Nat.lt_irrefl _
  have hlist : entries counts found edges clique ++ [⟨r, 1, counts r, [], false⟩] =
      (found ++ [r]).map fun q =>
        let e := entry counts (found ++ [r]) edges clique q
        if q = r then { e with count := e.count + 1 } else e := by
    rw [List.map_append, List.map_cons]
    refine congrArg₂ _ (List.map_congr_left fun q hq => ?_) ?_
    · show _ = if q = r then _ else _
      have hne : q ≠ r := fun h => hr (h ▸ hq)
      rw [if_neg hne, entry_grow hf]
    · show _ = [if r = r then _ else _]
      rw [if_pos rfl, entry_grow hf, entry_new hf hr hclique]
  unfold addToCyclicGarbageList
  rw [hc, findIdx_entries]
  show some (List.modify (if _ then _ else _) i _) = _
  rw [if_neg hlt, hlist, modify_map (hf.grow hr).nodup (by rw [List.getElem?_append_left hi, hs])]
  unfold entries
  congr 1
  refine List.map_congr_left fun q _ => ?_
  rw [entry_snoc, List.idxOf_append_of_notMem hr, hidx, List.idxOf_cons_self]
  rfl

section
variable {L : Finset Addr} {refs drops : Addr → List Addr}

/-- The references of one object. -/
theorem getReferences_entries (hL : ∀ q ∈ L, h.objs q = some ⟨counts q, refs q, drops q⟩)
    {i : Nat} {s : Addr} (rs : List Addr) : ∀ found edges, Found found edges →
      found[i]? = some s → (∀ q ∈ clique, q ∈ found) → (∀ r ∈ rs, r ∈ L) →
      ∃ more, getReferences h i rs (entries counts found edges clique) =
          some (entries counts (found ++ more) (edges ++ rs.map (Prod.mk s)) clique) ∧
        Found (found ++ more) (edges ++ rs.map (Prod.mk s)) ∧ ∀ q ∈ more, q ∈ rs := by
  induction rs with
  | nil =>
    intro found edges hf _ _ _
    refine ⟨[], ?_, ?_, fun q hq => hq⟩
    · rw [List.map_nil, List.append_nil, List.append_nil]
      rfl
    · rw [List.map_nil, List.append_nil, List.append_nil]
      exact hf
  | cons r rs ih =>
    intro found edges hf hs hclique hrs
    have hcount : h.getReferenceCount r = some (counts r) := by
      unfold Heap.getReferenceCount
      rw [hL r (hrs r List.mem_cons_self)]
      rfl
    have hrs' : ∀ r ∈ rs, r ∈ L := fun q hq => hrs q (List.mem_cons_of_mem _ hq)
    have hsmem : s ∈ found := List.mem_of_getElem? hs
    have hedges : edges ++ [(s, r)] ++ rs.map (Prod.mk s) = edges ++ (r :: rs).map (Prod.mk s) := by
      rw [List.append_assoc]
      rfl
    unfold getReferences
    by_cases hr : r ∈ found
    · rw [addToCyclicGarbageList_old hf hs hr hcount]
      obtain ⟨more, hget, hf', hmore⟩ := ih found _ (hf.old hsmem hr) hs hclique hrs'
      rw [hedges] at hget hf'
      exact ⟨more, hget, hf', fun q hq => List.mem_cons_of_mem _ (hmore q hq)⟩
    · rw [addToCyclicGarbageList_new hf hs hr hclique hcount]
      have hi : i < found.length := (List.getElem?_eq_some_iff.1 hs).1
      obtain ⟨more, hget, hf', hmore⟩ := ih (found ++ [r]) _
        ((hf.grow hr).old (List.mem_append_left _ hsmem) (List.mem_append_right _ List.mem_cons_self))
        (by rw [List.getElem?_append_left hi, hs])
        (fun q hq => List.mem_append_left _ (hclique q hq)) hrs'
      rw [hedges, List.append_assoc] at hget hf'
      refine ⟨[r] ++ more, hget, hf', fun q hq => ?_⟩
      cases List.mem_append.1 hq with
      | inl hq => exact List.mem_singleton.1 hq ▸ List.mem_cons_self
      | inr hq => exact List.mem_cons_of_mem _ (hmore q hq)

/-- All references of the given objects, in order. -/
def edgesOf (refs : Addr → List Addr) (l : List Addr) : List (Addr × Addr) :=
  l.flatMap fun s => (refs s).map (Prod.mk s)

/-- The loop finds what `p` leads to. -/
theorem possibleClique_entries (hL : ∀ q ∈ L, h.objs q = some ⟨counts q, refs q, drops q⟩)
    (hclosed : ∀ q ∈ L, ∀ r ∈ refs q, r ∈ L) {p : Addr} (loops : Nat) : ∀ found i,
      Found found (edgesOf refs (found.take i)) → (∀ q ∈ found, q ∈ L ∧ Leads refs p q) →
      (∀ q ∈ clique, q ∈ found) → i ≤ found.length → L.card + 1 ≤ loops + i →
      ∃ more, possibleClique h loops i (entries counts found (edgesOf refs (found.take i)) clique) =
          some (entries counts (found ++ more) (edgesOf refs (found ++ more)) clique) ∧
        Found (found ++ more) (edgesOf refs (found ++ more)) ∧
        ∀ q ∈ found ++ more, q ∈ L ∧ Leads refs p q := by
  induction loops with
  | zero =>
    intro found i hf hmem _ hi hcard
    have hsub : found.toFinset ⊆ L := fun q hq => (hmem q (List.mem_toFinset.1 hq)).1
    have hlen := Finset.card_le_card hsub
    rw [List.toFinset_card_of_nodup hf.nodup] at hlen
    omega
  | succ loops ih =>
    intro found i hf hmem hclique hi hcard
    unfold possibleClique
    unfold entries
    rw [List.getElem?_map]
    cases hs : found[i]? with
    | none =>
      have hlen := List.getElem?_eq_none_iff.1 hs
      refine ⟨[], ?_, ?_, ?_⟩
      · rw [List.append_nil, List.take_of_length_le hlen]
        rfl
      · rw [List.append_nil]
        rw [List.take_of_length_le hlen] at hf
        exact hf
      · rw [List.append_nil]
        exact hmem
    | some s =>
      have hlt : i < found.length := (List.getElem?_eq_some_iff.1 hs).1
      obtain ⟨hsL, hps⟩ := hmem s (List.mem_of_getElem? hs)
      obtain ⟨more, hget, hf', hmore⟩ := getReferences_entries hL (refs s) found _ hf hs hclique
        (hclosed s hsL)
      have htake : edgesOf refs (found.take i) ++ (refs s).map (Prod.mk s) =
          edgesOf refs ((found ++ more).take (i + 1)) := by
        rw [List.take_append_of_le_length hlt, List.take_add_one, hs]
        unfold edgesOf
        rw [List.flatMap_append]
        exact congrArg _ (List.append_nil _).symm
      rw [htake] at hget hf'
      obtain ⟨more', hclq, hf'', hmem'⟩ := ih (found ++ more) (i + 1) hf'
        (fun q hq => by
          cases List.mem_append.1 hq with
          | inl hq => exact hmem q hq
          | inr hq => exact ⟨hclosed s hsL q (hmore q hq), hps.tail (hmore q hq)⟩)
        (fun q hq => List.mem_append_left _ (hclique q hq))
        (by rw [List.length_append]; omega) (by omega)
      rw [List.append_assoc] at hclq hf'' hmem'
      refine ⟨more ++ more', ?_, hf'', hmem'⟩
      show (do
        let o ← h.objs s
        let list ← getReferences h i o.refs (entries counts found _ clique)
        possibleClique h loops (i + 1) list) = _
      rw [hL s hsL]
      show (getReferences h i (refs s) _ >>= _) = _
      rw [hget]
      exact hclq

/-! ## The clique -/

/-- The references to an object from those that were found. -/
theorem entry_count (hf : Found found edges) (q : Addr) :
    (entry counts found (edgesOf refs found) clique q).count = inRefs refs found.toFinset q := by
  have hsnd : (edgesOf refs found).map Prod.snd = found.flatMap refs := by
    unfold edgesOf
    rw [List.map_flatMap]
    congr 1
    funext s
    rw [List.map_map]
    exact List.map_id _
  show ((edgesOf refs found).map Prod.snd).count q = _
  rw [hsnd]
  exact count_flatMap q found hf.nodup

/-- An object points into the clique if it refers to one of its objects. -/
theorem pointsInto_iff (hclosed : ∀ q ∈ found, ∀ r ∈ refs q, r ∈ found) {q : Addr} (hq : q ∈ found) :
    ((entry counts found (edgesOf refs found) clique q).ptrtos.any fun l =>
        (entries counts found (edgesOf refs found) clique)[l]?.any CyclicGarbage.inClique) = true ↔
      ∃ r ∈ refs q, r ∈ clique := by
  have hentry {r : Addr} (hr : r ∈ found) :
      ((entries counts found (edgesOf refs found) clique)[found.idxOf r]?.any
        CyclicGarbage.inClique) = decide (r ∈ clique) := by
    unfold entries
    rw [List.getElem?_map, List.getElem?_idxOf hr]
    rfl
  rw [List.any_eq_true]
  constructor
  · rintro ⟨l, hl, hany⟩
    obtain ⟨e, he, rfl⟩ := List.mem_map.1 hl
    obtain ⟨he, heq⟩ := List.mem_filter.1 he
    obtain ⟨s, hs, he⟩ := List.mem_flatMap.1 he
    obtain ⟨r, hr, rfl⟩ := List.mem_map.1 he
    rw [hentry (hclosed s hs r hr)] at hany
    obtain rfl := beq_iff_eq.1 heq
    exact ⟨r, hr, of_decide_eq_true hany⟩
  · rintro ⟨r, hr, hrc⟩
    refine ⟨found.idxOf r, List.mem_map.2 ⟨(q, r), List.mem_filter.2 ⟨?_, beq_self_eq_true q⟩, rfl⟩, ?_⟩
    · exact List.mem_flatMap.2 ⟨q, hq, List.mem_map.2 ⟨r, hr, rfl⟩⟩
    · rw [hentry (hclosed q hq r hr)]
      exact decide_eq_true hrc

theorem nextMember_some (hclosed : ∀ q ∈ found, ∀ r ∈ refs q, r ∈ found) {j : Nat}
    (h : nextMember (entries counts found (edgesOf refs found) clique) = some j) :
    ∃ q, found[j]? = some q ∧ q ∉ clique ∧ ∃ r ∈ refs q, r ∈ clique := by
  obtain ⟨hj, hp, -⟩ := List.findIdx?_eq_some_iff_getElem.1 h
  unfold entries at hj hp
  rw [List.length_map] at hj
  rw [List.getElem_map, Bool.and_eq_true, Bool.not_eq_true'] at hp
  refine ⟨found[j], List.getElem?_eq_getElem hj, of_decide_eq_false hp.1, ?_⟩
  exact (pointsInto_iff hclosed (List.getElem_mem hj)).1 hp.2

theorem nextMember_none (hclosed : ∀ q ∈ found, ∀ r ∈ refs q, r ∈ found)
    (h : nextMember (entries counts found (edgesOf refs found) clique) = none) :
    ∀ q ∈ found, ∀ r ∈ refs q, r ∈ clique → q ∈ clique := by
  intro q hq r hr hrc
  have hp := List.findIdx?_eq_none_iff.1 h (entry counts found (edgesOf refs found) clique q)
    (List.mem_map.2 ⟨q, hq, rfl⟩)
  rw [(pointsInto_iff hclosed hq).2 ⟨r, hr, hrc⟩, Bool.and_true, Bool.not_eq_false'] at hp
  exact of_decide_eq_true hp

theorem calculateClique_some {loops j : Nat} {list : List CyclicGarbage} {item : CyclicGarbage}
    (hnext : nextMember list = some j) (hitem : list[j]? = some item) :
    calculateClique (loops + 1) list =
      if item.refcount > item.count then some none
      else if item.refcount < item.count then none
      else calculateClique loops (list.modify j fun item => { item with inClique := true }) := by
  rw [calculateClique, hnext]
  show (list[j]? >>= _) = _
  rw [hitem]
  rfl

theorem modify_inClique (hf : Found found edges) {j : Nat} {q : Addr} (hj : found[j]? = some q) :
    ((entries counts found edges clique).modify j fun item => { item with inClique := true }) =
      entries counts found edges (q :: clique) := by
  unfold entries
  rw [modify_map hf.nodup hj]
  refine List.map_congr_left fun r _ => ?_
  by_cases hr : r = q
  · rw [if_pos hr]
    unfold entry
    rw [decide_eq_true (List.mem_cons.2 (.inl hr))]
  · rw [if_neg hr]
    unfold entry
    congr 1
    refine decide_eq_decide.2 ⟨fun h => List.mem_cons_of_mem _ h, fun h => ?_⟩
    exact (List.mem_cons.1 h).resolve_left hr

/-- The loop ends with an object of the clique that is referred to from elsewhere, or with a
clique that takes all references to its objects. -/
theorem calculateClique_entries (hf : Found found (edgesOf refs found))
    (hclosed : ∀ q ∈ found, ∀ r ∈ refs q, r ∈ found)
    (hcounts : ∀ q ∈ found, (inRefs refs found.toFinset q : Int) ≤ counts q) {p : Addr}
    (loops : Nat) : ∀ clique, clique.Nodup →
      (∀ q ∈ clique, q ∈ found ∧ Leads refs q p ∧ counts q = inRefs refs found.toFinset q) →
      found.length + 1 ≤ loops + clique.length →
      (calculateClique loops (entries counts found (edgesOf refs found) clique) = some none ∧
        ∃ q ∈ found, Leads refs q p ∧ (inRefs refs found.toFinset q : Int) < counts q) ∨
      ∃ clique', calculateClique loops (entries counts found (edgesOf refs found) clique) =
          some (some (entries counts found (edgesOf refs found) clique')) ∧
        (∀ q ∈ clique, q ∈ clique') ∧
        (∀ q ∈ clique', q ∈ found ∧ counts q = inRefs refs found.toFinset q) ∧
        ∀ q ∈ found, ∀ r ∈ refs q, r ∈ clique' → q ∈ clique' := by
  induction loops with
  | zero =>
    intro clique hn hmem hlen
    have hsub : clique.toFinset ⊆ found.toFinset := fun q hq =>
      List.mem_toFinset.2 (hmem q (List.mem_toFinset.1 hq)).1
    have hcard := Finset.card_le_card hsub
    rw [List.toFinset_card_of_nodup hn, List.toFinset_card_of_nodup hf.nodup] at hcard
    omega
  | succ loops ih =>
    intro clique hn hmem hlen
    cases hnext : nextMember (entries counts found (edgesOf refs found) clique) with
    | none =>
      refine .inr ⟨clique, ?_, fun q hq => hq, fun q hq => ⟨(hmem q hq).1, (hmem q hq).2.2⟩,
        nextMember_none hclosed hnext⟩
      unfold calculateClique
      rw [hnext]
    | some j =>
      obtain ⟨q, hj, hqc, r, hr, hrc⟩ := nextMember_some hclosed hnext
      have hq : q ∈ found := List.mem_of_getElem? hj
      have hqp : Leads refs q p := Leads.head hr (hmem r hrc).2.1
      have hitem : (entries counts found (edgesOf refs found) clique)[j]? =
          some (entry counts found (edgesOf refs found) clique q) := by
        unfold entries
        rw [List.getElem?_map, hj]
        rfl
      have hstep : calculateClique (loops + 1) (entries counts found (edgesOf refs found) clique) =
          if counts q > (inRefs refs found.toFinset q : Int) then some none
          else if counts q < (inRefs refs found.toFinset q : Int) then none
          else calculateClique loops (entries counts found (edgesOf refs found) (q :: clique)) := by
        rw [calculateClique_some hnext hitem, modify_inClique hf hj, entry_count hf]
        rfl
      rw [hstep]
      by_cases hlt : (inRefs refs found.toFinset q : Int) < counts q
      · rw [if_pos hlt]
        exact .inl ⟨rfl, q, hq, hqp, hlt⟩
      · have heq : counts q = inRefs refs found.toFinset q := by
          have hle := hcounts q hq
          omega
        rw [if_neg hlt, if_neg (by omega)]
        have hmem' : ∀ x ∈ q :: clique, x ∈ found ∧ Leads refs x p ∧
            counts x = inRefs refs found.toFinset x := by
          intro x hx
          cases List.mem_cons.1 hx with
          | inl hx =>
            rw [hx]
            exact ⟨hq, hqp, heq⟩
          | inr hx => exact hmem x hx
        cases ih (q :: clique) (List.nodup_cons.2 ⟨hqc, hn⟩) hmem'
            (by rw [List.length_cons]; omega) with
        | inl hout => exact .inl hout
        | inr hin =>
          obtain ⟨clique', hcalc, hsub, hrest⟩ := hin
          exact .inr ⟨clique', hcalc, fun x hx => hsub x (List.mem_cons_of_mem _ hx), hrest⟩

theorem clique_ptrs : ((entries counts found edges clique).filter CyclicGarbage.inClique).map
    CyclicGarbage.ptr = found.filter fun q => decide (q ∈ clique) := by
  unfold entries
  rw [List.filter_map, List.map_map]
  exact List.map_id _

/-- The collection after the list was made. -/
theorem performCyclicCollection_some {del : Addr → Heap → Option Heap} {loops : Nat} {p : Addr}
    {c : Int} {item : CyclicGarbage} {rest : List CyclicGarbage}
    (hc : h.getReferenceCount p = some c) (hpos : 0 ≤ c)
    (hlist : possibleClique h loops 0 [⟨p, 0, c, [], true⟩] = some (item :: rest)) :
    performCyclicCollection del loops p h =
      if item.refcount > item.count then some h
      else if item.refcount < item.count then none
      else calculateClique loops (item :: rest) >>= destroyClique del h := by
  unfold performCyclicCollection
  rw [hc]
  show (if c < 0 then some h else _) = _
  rw [if_neg (by omega), hlist]
  rfl

/-- The collection of `p`: there is an object that leads to `p` and that is referred to from
where `p` does not lead, or objects are destroyed that are referred to by each other only. -/
theorem performCyclicCollection_finds
    (hL : ∀ q ∈ L, h.objs q = some ⟨counts q, refs q, drops q⟩)
    (hclosed : ∀ q ∈ L, ∀ r ∈ refs q, r ∈ L)
    (hcounts : ∀ q ∈ L, (inRefs refs L q : Int) ≤ counts q) {p : Addr} (hp : p ∈ L) {loops : Nat}
    (hloops : L.card + 1 ≤ loops) (del : Addr → Heap → Option Heap) :
    ∃ R ⊆ L, (∀ x, Leads refs p x → x ∈ R) ∧
      ((performCyclicCollection del loops p h = some h ∧
          ∃ q ∈ L, Leads refs q p ∧ (inRefs refs R q : Int) < counts q) ∨
        ∃ ms, performCyclicCollection del loops p h = destroy del ms h ∧ ms.Nodup ∧ p ∈ ms ∧
          (∀ q ∈ ms, q ∈ L ∧ counts q = inRefs refs R q) ∧
          ∀ x ∈ R, ∀ r ∈ refs x, r ∈ ms → x ∈ ms) := by
  have hf0 : Found [p] (edgesOf refs ([p].take 0)) :=
    ⟨List.nodup_singleton p, fun e he => (List.not_mem_nil he).elim, fun e he => (List.not_mem_nil he).elim⟩
  obtain ⟨more, hlist, hf, hmem⟩ := possibleClique_entries hL hclosed loops [p] 0 hf0
    (fun q hq => by rw [List.mem_singleton.1 hq]; exact ⟨hp, .refl p⟩)
    (fun q hq => hq : ∀ q ∈ [p], q ∈ [p]) (Nat.zero_le _) hloops
  have hinit : entries counts [p] (edgesOf refs ([p].take 0)) [p] = [⟨p, 0, counts p, [], true⟩] := by
    show [CyclicGarbage.mk p 0 (counts p) [] (decide (p ∈ [p]))] = _
    rw [decide_eq_true (List.mem_singleton_self p)]
  rw [hinit] at hlist
  generalize hfound : [p] ++ more = found at hlist hf hmem
  have hpf : p ∈ found := hfound ▸ List.mem_cons_self
  have hR : found.toFinset ⊆ L := fun q hq => (hmem q (List.mem_toFinset.1 hq)).1
  have hfclosed : ∀ q ∈ found, ∀ r ∈ refs q, r ∈ found := by
    intro q hq r hr
    refine hf.targets (q, r) (List.mem_flatMap.2 ⟨q, hq, List.mem_map.2 ⟨r, hr, rfl⟩⟩)
  have hfcounts : ∀ q ∈ found, (inRefs refs found.toFinset q : Int) ≤ counts q := by
    intro q hq
    have h1 := hcounts q (hmem q hq).1
    have h2 := @inRefs_mono _ refs _ L found.toFinset hR q
    omega
  refine ⟨found.toFinset, hR, fun x hx => ?_, ?_⟩
  · exact hx.mem (fun q hq r hr => List.mem_toFinset.2
      (hfclosed q (List.mem_toFinset.1 hq) r hr)) (List.mem_toFinset.2 hpf)
  · have hc : h.getReferenceCount p = some (counts p) := by
      unfold Heap.getReferenceCount
      rw [hL p hp]
      rfl
    have hle := hfcounts p hpf
    have hstep : performCyclicCollection del loops p h =
        if counts p > (inRefs refs found.toFinset p : Int) then some h
        else if counts p < (inRefs refs found.toFinset p : Int) then none
        else calculateClique loops (entries counts found (edgesOf refs found) [p]) >>=
          destroyClique del h := by
      subst hfound
      rw [performCyclicCollection_some hc (by omega) hlist, entry_count hf]
      rfl
    rw [hstep]
    by_cases hlt : (inRefs refs found.toFinset p : Int) < counts p
    · rw [if_pos hlt]
      exact .inl ⟨rfl, p, hp, .refl p, hlt⟩
    · rw [if_neg hlt, if_neg (by omega)]
      have hlen := Finset.card_le_card hR
      rw [List.toFinset_card_of_nodup hf.nodup] at hlen
      have hclique := calculateClique_entries hf hfclosed hfcounts loops [p] (List.nodup_singleton p)
        (fun q hq => by rw [List.mem_singleton.1 hq]; exact ⟨hpf, .refl p, by omega⟩)
        (by rw [List.length_singleton]; omega)
      cases hclique with
      | inl hout =>
        obtain ⟨hcalc, q, hq, hqp, hqlt⟩ := hout
        rw [hcalc]
        exact .inl ⟨rfl, q, (hmem q hq).1, hqp, hqlt⟩
      | inr hin =>
        obtain ⟨clique, hcalc, hsub, hcl, hrefs⟩ := hin
        rw [hcalc]
        refine .inr ⟨_, rfl, ?_⟩
        rw [clique_ptrs]
        refine ⟨hf.nodup.filter _, ?_, fun q hq => ?_, fun x hx r hr hrm => ?_⟩
        · exact List.mem_filter.2 ⟨hpf, decide_eq_true (hsub p List.mem_cons_self)⟩
        · obtain ⟨hqf, hqc⟩ := List.mem_filter.1 hq
          exact ⟨(hmem q hqf).1, (hcl q (of_decide_eq_true hqc)).2⟩
        · have hxf := List.mem_toFinset.1 hx
          have hrc := of_decide_eq_true (List.mem_filter.1 hrm).2
          exact List.mem_filter.2 ⟨hxf, decide_eq_true (hrefs x hxf r hr hrc)⟩

end

end

end PyLinda.RefCount
