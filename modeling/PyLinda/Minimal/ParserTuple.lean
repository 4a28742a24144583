import PyLinda.Minimal.ParserActions

/-!
# The elements of a tuple

The action of `tuple` shares the elements of `tuple2` before it gives that node up.
-/

namespace PyLinda.Parser

open Lib RefCount

section
variable {m : Memory} {tree a c : Addr} {ts values : List Addr}

theorem delReference_some {m : Memory} {h : RefCount.Heap} {v : Addr}
    (hrun : RefCount.delReference (m.next + 2) v m.heap = some h) :
    delReference (some v) m = (.ok (), { m with heap := h }) := by
  unfold delReference
  simp only [hrun]

/-- From `m` to `m'` the nodes `values` were put at the end of a tuple, and are referred to once
more. -/
structure Spliced (tree : Addr) (ts values : List Addr) (m m' : Memory) : Prop where
  next : m'.next = m.next
  yylval : m'.yylval = m.yylval
  node : m'.node tree = .tuple (ts ++ values)
  obj : m'.heap.objs tree = some ⟨1, ts ++ values, ts ++ values⟩
  others : ∀ q, q ≠ tree → m'.node q = m.node q ∧ m'.heap.objs q =
    if q ∈ values then some ⟨2, (m.node q).refs, (m.node q).drops⟩ else m.heap.objs q

theorem addReference_sole {m : Memory} {v : Addr} (h : m.Sole v) : addReference v m =
    (.ok (), { m with heap := m.heap.set v (some ⟨2, (m.node v).refs, (m.node v).drops⟩) }) := by
  unfold addReference
  rw [show m.heap.objs v = _ from h]
  rfl

theorem addToTuple_tuple {v : Addr} (hnode : m.node tree = .tuple ts)
    (hobj : m.heap.objs tree = some ⟨1, ts, ts⟩) :
    addToTuple tree v m = (.ok (), m.put tree ⟨1, ts ++ [v], ts ++ [v]⟩ (.tuple (ts ++ [v]))) := by
  have hread : read (some tree) m = (.ok (.tuple ts), m) := by
    unfold read
    refine Eff.look_ok ?_
    unfold Memory.read
    simp only
    rw [hobj, hnode]
    rfl
  unfold addToTuple
  rw [Eff.andThen_ok hread]
  unfold write
  simp only [hobj]
  rfl

theorem copyElements_spliced (hnode : m.node tree = .tuple ts)
    (hobj : m.heap.objs tree = some ⟨1, ts, ts⟩) (hsole : ∀ v ∈ values, v ≠ tree ∧ m.Sole v)
    (hnodup : values.Nodup) :
    ∃ m', copyElements tree values m = (.ok (), m') ∧ Spliced tree ts values m m' := by
  induction values generalizing m ts with
  | nil =>
    refine ⟨m, rfl, rfl, rfl, ?_, ?_, fun q _ => ⟨rfl, (if_neg List.not_mem_nil).symm⟩⟩
    · rw [List.append_nil]
      exact hnode
    · rw [List.append_nil]
      exact hobj
  | cons v values ih =>
    obtain ⟨hv, hrest⟩ := List.nodup_cons.1 hnodup
    obtain ⟨hvt, hvs⟩ := hsole v List.mem_cons_self
    obtain ⟨m1, hm1⟩ : ∃ m1 : Memory, m1 =
      { m with heap := m.heap.set v (some ⟨2, (m.node v).refs, (m.node v).drops⟩) } := ⟨_, rfl⟩
    have hnode1 : m1.node tree = .tuple ts := by
      rw [hm1]
      exact hnode
    have hobj1 : m1.heap.objs tree = some ⟨1, ts, ts⟩ := by
      rw [hm1]
      exact (Heap.set_other _ hvt.symm _).trans hobj
    obtain ⟨m2, hm2⟩ : ∃ m2 : Memory, m2 =
      m1.put tree ⟨1, ts ++ [v], ts ++ [v]⟩ (.tuple (ts ++ [v])) := ⟨_, rfl⟩
    -- what the other nodes are after the element was added
    have hother : ∀ q, q ≠ tree → m2.node q = m.node q ∧ m2.heap.objs q =
        if q = v then some ⟨2, (m.node v).refs, (m.node v).drops⟩ else m.heap.objs q := by
      intro q hq
      rw [hm2, (Memory.put_other hq).1, (Memory.put_other hq).2, hm1]
      refine ⟨rfl, ?_⟩
      by_cases hqv : q = v
      · rw [if_pos hqv, hqv]
        exact Heap.set_same _ _ _
      · rw [if_neg hqv]
        exact Heap.set_other _ hqv _
    have hsole2 : ∀ w ∈ values, w ≠ tree ∧ m2.Sole w := by
      intro w hw
      obtain ⟨hwt, hws⟩ := hsole w (List.mem_cons_of_mem _ hw)
      refine ⟨hwt, ?_⟩
      have hwv : w ≠ v := fun hwv => hv (hwv ▸ hw)
      unfold Memory.Sole
      rw [(hother w hwt).1, (hother w hwt).2, if_neg hwv]
      exact hws
    have hput : m2.node tree = .tuple (ts ++ [v]) ∧
        m2.heap.objs tree = some ⟨1, ts ++ [v], ts ++ [v]⟩ := by
      rw [hm2]
      exact ⟨Memory.put_same.2, Memory.put_same.1⟩
    obtain ⟨m', hrun, hs⟩ := ih hput.1 hput.2 hsole2 hrest
    refine ⟨m', ?_, ?_⟩
    · unfold copyElements
      rw [Eff.andThen_ok (addReference_sole hvs), ← hm1, Eff.andThen_ok (addToTuple_tuple hnode1 hobj1),
        ← hm2]
      exact hrun
    · refine ⟨?_, ?_, ?_, ?_, fun q hq => ⟨(hs.others q hq).1.trans (hother q hq).1, ?_⟩⟩
      · rw [hs.next, hm2, hm1]
        rfl
      · rw [hs.yylval, hm2, hm1]
        rfl
      · rw [hs.node, List.append_assoc]
        rfl
      · rw [hs.obj, List.append_assoc]
        rfl
      · rw [(hs.others q hq).2, (hother q hq).1, (hother q hq).2]
        by_cases hqv : q = v
        · rw [if_neg fun hqs => hv (hqv ▸ hqs), if_pos hqv, if_pos (hqv ▸ List.mem_cons_self), hqv]
        · rw [if_neg hqv]
          exact if_congr (List.mem_cons.trans (or_iff_right hqv)).symm rfl rfl

/-- The elements of the second tuple have become elements of the first. -/
theorem splice_leaves (hc : m.Coherent) (how : m.Owned [tree, c]) (hnode : m.node tree = .tuple ts)
    (hnode' : m.node c = .tuple values) :
    Leaves m (do
      copyElements tree values
      delReference (some c)
      pure (some tree)) [tree, c] theNode [] := by
  intro r m' hrun
  obtain ⟨ns, hf, hnodup, hsole⟩ := how
  obtain ⟨n1, n2, rfl, h1, h2⟩ := @Forest.split _ m.refs [tree] [c] ns hf
  obtain ⟨ks, rfl, hks⟩ := h1.kids
  obtain ⟨ms, rfl, hms⟩ := h2.kids
  obtain ⟨hn1, hn2, hapart⟩ := List.nodup_append.1 hnodup
  obtain ⟨htree, hnks⟩ := List.nodup_cons.1 hn1
  obtain ⟨hcms, hnms⟩ := List.nodup_cons.1 hn2
  have hct : c ≠ tree := fun hct => hapart tree List.mem_cons_self c List.mem_cons_self hct.symm
  have hmsrefs : Forest m.refs values ms := by
    rw [Memory.refs, hnode'] at hms
    exact hms
  have hksrefs : Forest m.refs ts ks := by
    rw [Memory.refs, hnode] at hks
    exact hks
  have hvt : ∀ v ∈ ms, v ≠ tree := fun v hv hvt =>
    hapart tree List.mem_cons_self v (List.mem_cons_of_mem _ hv) hvt.symm
  have hsolems : ∀ v ∈ ms, m.Sole v := fun v hv =>
    hsole v (List.mem_append_right _ (List.mem_cons_of_mem _ hv))
  have hobj : m.heap.objs tree = some ⟨1, ts, ts⟩ := by
    have ho : m.Sole tree := hsole tree (List.mem_append_left _ List.mem_cons_self)
    unfold Memory.Sole at ho
    rw [hnode] at ho
    exact ho
  have hobjc : m.heap.objs c = some ⟨1, values, values⟩ := by
    have ho : m.Sole c := hsole c (List.mem_append_right _ List.mem_cons_self)
    unfold Memory.Sole at ho
    rw [hnode'] at ho
    exact ho
  have hroots : ∀ v ∈ values, v ∈ ms := fun v hv => hmsrefs.roots hv
  have hcv : c ∉ values := fun hcv => hcms (hroots c hcv)
  obtain ⟨m1, hcopy, hs⟩ := copyElements_spliced hnode hobj
    (fun v hv => ⟨hvt v (hroots v hv), hsolems v (hroots v hv)⟩) (hmsrefs.nodup_roots hnms)
  have hobjc1 : m1.heap.objs c = some ⟨1, values, values⟩ := by
    rw [(hs.others c hct).2, if_neg hcv]
    exact hobjc
  -- below the second tuple only its elements have a second reference
  have hset : ∀ q, q ≠ c → q ≠ tree → (m1.heap.set c (some ⟨0, values, values⟩)).objs q =
      if q ∈ values then some ⟨2, (m.node q).refs, (m.node q).drops⟩ else m.heap.objs q := by
    intro q hqc hqt
    rw [Heap.set_other _ hqc]
    exact (hs.others q hqt).2
  have hmsc : ∀ q ∈ ms, q ≠ c := fun q hq hqc => hcms (hqc ▸ hq)
  obtain ⟨h1, heach, hobjs1⟩ := @each_delReference_second (m1.heap.set c (some ⟨0, values, values⟩))
    m.refs values ms m1.next (fun a => (m.node a).drops) hmsrefs hnms
    (fun v hv => by
      rw [hset v (hmsc v (hroots v hv)) (hvt v (hroots v hv)), if_pos hv]
      rfl)
    (fun q hq hqv => by
      rw [hset q (hmsc q hq) (hvt q hq), if_neg hqv]
      exact hsolems q hq)
    (by
      rw [hs.next, ← List.length_cons]
      exact length_le_of_lt hn2 fun q hq => (hc.objs (hsole q (List.mem_append_right _ hq))).2.2)
  obtain ⟨h2, hdel, hobjs2⟩ := delReference_last hobjc1 heach (by
    rw [hobjs1, if_neg hcv, Heap.set_same]
    rfl)
  rw [Eff.andThen_ok hcopy, Eff.andThen_ok (delReference_some hdel)] at hrun
  cases hrun
  have hsame : ∀ q, q ≠ tree → q ≠ c → h2.objs q = m.heap.objs q ∧ m1.node q = m.node q := by
    intro q hqt hqc
    refine ⟨?_, (hs.others q hqt).1⟩
    rw [hobjs2, if_neg hqc, hobjs1]
    by_cases hqv : q ∈ values
    · rw [if_pos hqv]
      exact (hsolems q (hroots q hqv)).symm
    · rw [if_neg hqv, hset q hqc hqt, if_neg hqv]
  have hsametree : h2.objs tree = some ⟨1, ts ++ values, ts ++ values⟩ := by
    rw [hobjs2, if_neg hct.symm, hobjs1, if_neg fun htv => hvt tree (hroots tree htv) rfl,
      Heap.set_other _ hct.symm]
    exact hs.obj
  have hrefs : ∀ q, q ≠ tree → q ≠ c → m1.refs q = m.refs q := fun q hqt hqc =>
    congrArg Node.refs (hsame q hqt hqc).2
  have hnew : Forest m1.refs [tree] (tree :: (ks ++ ms)) := by
    refine Forest.single ?_
    rw [Memory.refs, hs.node]
    refine (hksrefs.congr fun q hq => hrefs q ?_ ?_).append (hmsrefs.congr fun q hq =>
      hrefs q (hvt q hq) (hmsc q hq))
    · exact fun hqt => htree (hqt ▸ hq)
    · exact fun hqc => hapart q (List.mem_cons_of_mem _ hq) c List.mem_cons_self hqc
  have hold : ∀ q ∈ tree :: (ks ++ ms), q ∈ tree :: ks ++ c :: ms ∧ q ≠ c := by
    intro q hq
    rcases List.mem_cons.1 hq with hq | hq
    · rw [hq]
      exact ⟨List.mem_append_left _ List.mem_cons_self, hct.symm⟩
    · rcases List.mem_append.1 hq with hq | hq
      · refine ⟨List.mem_append_left _ (List.mem_cons_of_mem _ hq), fun hqc => ?_⟩
        exact hapart q (List.mem_cons_of_mem _ hq) c List.mem_cons_self hqc
      · exact ⟨List.mem_append_right _ (List.mem_cons_of_mem _ hq), hmsc q hq⟩
  have hsub : (tree :: (ks ++ ms)).Sublist (tree :: ks ++ c :: ms) :=
    (List.Sublist.append_left (List.sublist_cons_self c ms) ks).cons_cons tree
  refine ⟨⟨tree :: (ks ++ ms), hnew, hnodup.sublist hsub, fun q hq => ?_⟩, ⟨?_, Nat.le_of_eq hs.next.symm,
    hs.yylval, fun q hq => ?_, fun q hq => ?_, fun q hq hn => ?_⟩⟩
  · unfold Memory.Sole
    by_cases hqt : q = tree
    · rw [hqt, hs.node]
      exact hsametree
    · obtain ⟨hqm, hqc⟩ := hold q hq
      show h2.objs q = _
      rw [(hsame q hqt hqc).1, (hsame q hqt hqc).2]
      exact hsole q hqm
  · have hsoletree : m.Sole tree := hsole tree (List.mem_append_left _ List.mem_cons_self)
    have hsolec : m.Sole c := hsole c (List.mem_append_right _ List.mem_cons_self)
    refine ⟨fun {q o} ho => ?_, ?_, hs.next ▸ hc.pos, fun q hq => ?_⟩
    · by_cases hqt : q = tree
      · subst hqt
        rw [hsametree] at ho
        cases ho
        rw [hs.node]
        exact ⟨rfl, rfl, hs.next ▸ (hc.objs hsoletree).2.2⟩
      · have hqc : q ≠ c := by
          intro hqc
          rw [hqc, hobjs2, if_pos rfl] at ho
          cases ho
        rw [(hsame q hqt hqc).1] at ho
        rw [(hsame q hqt hqc).2, hs.next]
        exact hc.objs ho
    · exact (hsame _ (hsoletree.ne_nowhere hc).symm (hsolec.ne_nowhere hc).symm).1.trans hc.nowhere
    · obtain ⟨hlt, htoken⟩ := hc.yylval q (hs.yylval ▸ hq)
      refine ⟨hs.next ▸ hlt, ?_⟩
      by_cases hqt : q = tree
      · rw [hqt, hnode] at htoken
        cases htoken
      · rw [(hs.others q hqt).1]
        exact htoken
  · by_cases hqt : q = tree
    · rw [hqt, hs.node, hnode]
      rfl
    · rw [(hs.others q hqt).1]
  · refine .inl ((hf.mem_iff q).1 (hold q ((hnew.mem_iff q).2 hq)).1)
  · have hqt : q ≠ tree := fun hqt => hn (hqt ▸ .of_mem List.mem_cons_self)
    have hqc : q ≠ c := fun hqc => hn (hqc ▸ .of_mem (List.mem_cons_of_mem _ List.mem_cons_self))
    exact ⟨(hsame q hqt hqc).2, fun _ => (hsame q hqt hqc).1⟩

theorem tupleAction_leaves (hc : m.Coherent) (how : m.Owned [a, c]) :
    Leaves m (tupleAction (some a) (some c)) [a, c] theNode [] := by
  intro r m' hrun
  obtain ⟨how1, hf1⟩ := (newReference_leaves (n := .tuple [a]) hc (Memory.owned_cons.1 how).1).beside
    hc how m.next (m.alloc (.tuple [a])) rfl
  have hrest : Leaves (m.alloc (.tuple [a])) (splice m.next (some c)) [m.next, c] theNode [] := by
    refine .read fun _ hp => ?_
    cases hp
    cases hn : (m.alloc (.tuple [a])).node c with
    | tuple values => exact splice_leaves hf1.coherent how1 Memory.alloc_new.2 hn
    | _ => exact .raise _
  obtain ⟨how2, hf2⟩ := hrest r m' hrun
  exact ⟨how2, hf1.trans hf2⟩

end

end PyLinda.Parser
