import PyLinda.Lib.Run
import PyLinda.Minimal.ValueRefs

/-!
# Programs that own their references

A program calls the functions on values one after the other, in any order, and keeps to who owns
what: it drops and gives away only references that it has. Then the counts are exact after every
call, what the program cannot come to any more is gone, and no call touches what was freed.
-/

namespace PyLinda.Values

open Lib Counted RefCount

/-- The counts are exact, with the references `roots` that the program has, and the values are
what the counts are kept of. -/
structure Memory.Sound (m : Memory) (roots : Multiset Addr) : Prop where
  counted : ∃ L, m.heap.WellCounted L roots ∧ L.card ≤ m.made
  values : ∀ {q o v}, m.heap.objs q = some o → m.val q = some v →
    o.refs = refs v ∧ o.drops = drops v ∧ Good v

/-- `Memory.Sound` while the objects are the ones of `L`, and `rs` and `ds` what they refer to and
drop. -/
structure Tidy (m : Memory) (rs ds : Addr → List Addr) (L : Finset Addr) (roots : Multiset Addr) :
    Prop where
  counts : Counts rs ds m.heap L roots
  others : ∀ q, q ∉ L → m.heap.objs q = none
  perm : ∀ q, (ds q).Perm (rs q)
  made : L.card ≤ m.made
  values : ∀ q ∈ L, ∀ v, m.val q = some v → rs q = refs v ∧ ds q = drops v ∧ Good v

section
variable {m : Memory} {rs ds : Addr → List Addr} {L : Finset Addr} {roots : Multiset Addr}
  {p old : Addr} {A B rest : List Addr} {v v' : Val Addr}

theorem Memory.Sound.tidy (h : m.Sound roots) : ∃ L, Tidy m m.heap.refs m.heap.drops L roots := by
  obtain ⟨L, hwf, hmade⟩ := h.counted
  refine ⟨L, hwf.toCounts, fun q hq => ?_, hwf.perm, hmade, fun q hq v hv => ?_⟩
  · cases ho : m.heap.objs q with
    | none => rfl
    | some o => exact absurd ((hwf.allocated q).2 (by rw [ho]; rfl)) hq
  · have ho := hwf.toCounts.objs q hq
    exact h.values ho hv

theorem Tidy.sound (h : Tidy m rs ds L roots) : m.Sound roots := by
  have hmem {q : Addr} {o : RefCount.Obj} (ho : m.heap.objs q = some o) : q ∈ L := by
    by_contra hq
    rw [h.others q hq] at ho
    cases ho
  have hrefs : ∀ q ∈ L, m.heap.refs q = rs q := fun q hq => (Heap.refs_some (h.counts.objs q hq)).1
  refine ⟨⟨L, ⟨fun q => ⟨fun hq => ?_, fun hq => ?_⟩, fun q o ho => ?_, fun q o ho => ?_,
    h.counts.held.congr hrefs⟩, h.made⟩, fun {q o v} ho hv => ?_⟩
  · rw [h.counts.objs q hq]
    rfl
  · obtain ⟨o, ho⟩ := Option.isSome_iff_exists.1 hq
    exact hmem ho
  · have hobj := h.counts.objs q (hmem ho)
    rw [ho] at hobj
    cases hobj
    rw [inRefs_congr hrefs]
  · have hobj := h.counts.objs q (hmem ho)
    rw [ho] at hobj
    cases hobj
    exact h.perm q
  · have hobj := h.counts.objs q (hmem ho)
    rw [ho] at hobj
    cases hobj
    exact h.values q (hmem ho) v hv

/-! ## The functions that the others call -/

theorem Tidy.addReference (h : Tidy m rs ds L roots) (hp : p ∈ L) :
    ∃ m', m.addReference p = some m' ∧ m'.val = m.val ∧ Tidy m' rs ds L (p ::ₘ roots) := by
  have ho := h.counts.objs p hp
  refine ⟨{ m with heap := m.heap.set p _ }, ?_, rfl, h.counts.add ho hp, fun q hq => ?_, h.perm,
    h.made, h.values⟩
  · unfold Memory.addReference
    rw [ho]
    rfl
  · have hqp : q ≠ p := fun hqp => hq (by rw [hqp]; exact hp)
    exact (m.heap.set_other hqp _).trans (h.others q hq)

theorem Tidy.delReference (h : Tidy m rs ds L (p ::ₘ roots)) :
    ∃ m' L', m.delReference p = some m' ∧ Tidy m' rs ds L' roots := by
  obtain ⟨heap, L', hrun, hc, hf⟩ := delReference_deletes h.perm m.made (m.made + 1) (Nat.le_refl _)
    m.heap L p roots h.made h.counts
  refine ⟨{ m with heap := heap }, L', ?_, hc, fun q hq => ?_, h.perm,
    (Finset.card_le_card hf.sub).trans h.made, fun q hq => h.values q (hf.sub hq)⟩
  · unfold Memory.delReference
    rw [hrun]
    rfl
  · by_cases hqL : q ∈ L
    · exact hf.gone q hqL hq
    · exact (hf.frame q hqL).trans (h.others q hqL)

theorem Tidy.delIfThere {a : Option Addr} (h : Tidy m rs ds L (↑a.toList + roots)) :
    ∃ m' L', m.delIfThere (.of a) = some m' ∧ Tidy m' rs ds L' roots := by
  cases a with
  | none =>
    refine ⟨m, L, rfl, ?_⟩
    rwa [Option.toList_none, Multiset.coe_nil, Multiset.zero_add] at h
  | some old => exact h.delReference

/-! ## Values that are written -/

theorem rewired_perm (h : ∀ q, (ds q).Perm (rs q)) (hg : Good v) (q : Addr) :
    (rewired ds p (drops v) q).Perm (rewired rs p (refs v) q) := by
  by_cases hqp : q = p
  · rw [hqp, rewired_same, rewired_same]
    exact hg.perm
  · rw [rewired_other q hqp, rewired_other q hqp]
    exact h q

theorem rewired_values (hg : Good v) {q : Addr} {w : Val Addr}
    (h : q ≠ p → m.val q = some w → rs q = refs w ∧ ds q = drops w ∧ Good w)
    (hw : (if q = p then some v else m.val q) = some w) :
    rewired rs p (refs v) q = refs w ∧ rewired ds p (drops v) q = drops w ∧ Good w := by
  by_cases hqp : q = p
  · rw [if_pos hqp] at hw
    cases hw
    rw [hqp, rewired_same, rewired_same]
    exact ⟨rfl, rfl, hg⟩
  · rw [if_neg hqp] at hw
    rw [rewired_other q hqp, rewired_other q hqp]
    exact h hqp hw

/-- A value is made that takes over the references `B`. -/
theorem Tidy.make (h : Tidy m rs ds L (↑B + roots)) (hp : m.heap.objs p = none) (hg : Good v)
    (hB : (refs v).Perm B) : Tidy (m.newReference p v) (rewired rs p (refs v))
      (rewired ds p (drops v)) (insert p L) (p ::ₘ roots) := by
  have hpL : p ∉ L := fun hmem => by
    rw [h.counts.objs p hmem] at hp
    cases hp
  refine ⟨h.counts.make hpL hB, fun q hq => ?_, rewired_perm h.perm hg, ?_, fun q hq w =>
    rewired_values hg fun hqp => h.values q ((Finset.mem_insert.1 hq).resolve_left hqp) w⟩
  · rw [Finset.mem_insert, not_or] at hq
    exact (m.heap.set_other hq.1 _).trans (h.others q hq.2)
  · rw [Finset.card_insert_of_notMem hpL]
    exact Nat.succ_le_succ h.made

/-- A value takes over the references `B`, and those that it had instead are then the caller's. -/
theorem Tidy.rewire (h : Tidy m rs ds L (↑B + roots)) (hp : p ∈ L) (hv : m.val p = some v)
    (hreach : Reaches rs roots p) (hold : (refs v).Perm (A ++ rest))
    (hnew : (refs v').Perm (B ++ rest)) (hg : Good v') :
    ∃ m', m.write p v' = some m' ∧
      Tidy m' (rewired rs p (refs v')) (rewired ds p (drops v')) L (↑A + roots) := by
  have ho := h.counts.objs p hp
  rw [← (h.values p hp v hv).1] at hold
  refine ⟨{ m with heap := m.heap.set p _, val := _ }, ?_, h.counts.rewire hp hreach hold hnew ho,
    fun q hq => ?_, rewired_perm h.perm hg, h.made, fun q hq w =>
      rewired_values hg fun _ => h.values q hq w⟩
  · unfold Memory.write
    rw [ho]
    rfl
  · have hqp : q ≠ p := fun hqp => hq (by rw [hqp]; exact hp)
    exact (m.heap.set_other hqp _).trans (h.others q hq)

/-- A reference that does not lead back is dropped, and then replaced. -/
theorem Tidy.replace (h : Tidy m rs ds L (↑B + roots)) (hp : p ∈ L) (hv : m.val p = some v)
    (hreach : Reaches rs roots p) (hold : (refs v).Perm (old :: rest))
    (hnew : (refs v').Perm (B ++ rest)) (hg : Good v') (hback : ¬ Leads rs old p) :
    ∃ m1 m' L', m.delReference old = some m1 ∧ m1.write p v' = some m' ∧
      Tidy m' (rewired rs p (refs v')) (rewired ds p (drops v')) L' roots := by
  have ho := h.counts.objs p hp
  rw [← (h.values p hp v hv).1] at hold
  obtain ⟨heap, L', hrun, hsame, hf, hpL', hc⟩ := h.counts.replace h.perm hp hreach hold hnew hback ho
    (Nat.add_le_add_right h.made 2)
  refine ⟨{ m with heap := heap }, { m with heap := heap.set p _, val := _ }, L', ?_, ?_, hc,
    fun q hq => ?_, rewired_perm h.perm hg, (Finset.card_le_card hf.sub).trans h.made, fun q hq w =>
      rewired_values hg fun _ => h.values q (hf.sub hq) w⟩
  · unfold Memory.delReference
    rw [hrun]
    rfl
  · unfold Memory.write
    rw [hsame, ho]
    rfl
  · have hqp : q ≠ p := fun hqp => hq (by rw [hqp]; exact hpL')
    refine (heap.set_other hqp _).trans ?_
    by_cases hqL : q ∈ L
    · exact hf.gone q hqL hq
    · exact (hf.frame q hqL).trans (h.others q hqL)

theorem Tidy.mem (h : Tidy m rs ds L roots) (hp : (m.heap.objs p).isSome = true) : p ∈ L := by
  by_contra hq
  rw [h.others p hq] at hp
  cases hp

theorem Tidy.read (h : Tidy m rs ds L roots) (hv : m.read p = some v) : p ∈ L ∧ m.val p = some v := by
  unfold Memory.read at hv
  cases ho : m.heap.objs p with
  | none =>
    rw [ho] at hv
    cases hv
  | some o =>
    rw [ho] at hv
    exact ⟨h.mem (by rw [ho]; rfl), hv⟩

/-- What was there is dropped, if there was something, and a value takes its place. -/
theorem Tidy.put (h : Tidy m rs ds L (↑B + roots)) (hv : m.read p = some v)
    (hreach : Reaches rs roots p) {a : Option Addr} (hold : (refs v).Perm (a.toList ++ rest))
    (hnew : (refs v').Perm (B ++ rest)) (hg : Good v')
    (hback : ∀ old, Word.of a = .ref old → ¬ Leads rs old p) :
    ∃ m', (m.delIfThere (.of a) >>= fun m => m.write p v') = some m' ∧ m'.Sound roots := by
  obtain ⟨hp, hval⟩ := h.read hv
  cases a with
  | none =>
    obtain ⟨m', hrun, ht⟩ := h.rewire hp hval hreach (A := []) hold hnew hg
    rw [Multiset.coe_nil, Multiset.zero_add] at ht
    exact ⟨m', hrun, ht.sound⟩
  | some old =>
    obtain ⟨m1, m', L', hdel, hrun, ht⟩ := h.replace hp hval hreach hold hnew hg (hback old rfl)
    refine ⟨m', ?_, ht.sound⟩
    show (m.delReference old >>= _) = _
    rw [hdel]
    exact hrun

/-- The new type is counted and written before the old one is dropped, so it does not matter
what the old one leads to. -/
theorem Tidy.setType (h : Tidy m rs ds L roots) (hv : m.read p = some v) {type : Addr}
    (ht : type ∈ L) : ∃ m', m.setType p type = some m' ∧ m'.Sound roots := by
  obtain ⟨hp, hval⟩ := h.read hv
  have hg : Good v := (h.values p hp v hval).2.2
  obtain ⟨a, ha⟩ := hg.typeobj
  obtain ⟨m1, hadd, hval1, ht1⟩ := h.addReference ht
  obtain ⟨m2, hwrite, ht2⟩ := ht1.rewire (B := [type]) hp ((congrFun hval1 p).trans hval)
    (h.counts.held.held p hp) (List.Perm.of_eq (refs_eq ha)) (List.Perm.of_eq (refs_setType type))
    (hg.setType type)
  obtain ⟨m', L', hdel, ht'⟩ := ht2.delIfThere
  refine ⟨m', ?_, ht'.sound⟩
  unfold Memory.setType
  rw [hv]
  show (m.addReference type >>= _) = _
  rw [hadd]
  show (m1.write p _ >>= fun m => m.delIfThere v.typeobj) = _
  rw [hwrite, ha]
  exact hdel

/-- A new value is given its type. -/
theorem Tidy.typed (h : Tidy m rs ds L (↑B + roots)) (hp : m.heap.objs p = none) (hg : Good v)
    (hB : (refs v).Perm B) {type : Addr} (ht : type ∈ L) :
    ∃ m', (m.newReference p v).setType p type = some m' ∧ m'.Sound (p ::ₘ roots) := by
  refine (h.make hp hg hB).setType (v := v) ?_ (Finset.mem_insert_of_mem ht)
  unfold Memory.read Memory.newReference
  rw [Heap.set_same]
  exact if_pos rfl

/-- The type of a new value may be missing. -/
theorem Tidy.typed_maybe (h : Tidy m rs ds L (↑B + roots)) (hp : m.heap.objs p = none) (hg : Good v)
    (hB : (refs v).Perm B) {type : Option Addr} (ht : ∀ t ∈ type, t ∈ L) :
    ∃ m', (type.elim (some (m.newReference p v)) fun t => (m.newReference p v).setType p t) =
      some m' ∧ m'.Sound (p ::ₘ roots) := by
  cases type with
  | none => exact ⟨_, rfl, (h.make hp hg hB).sound⟩
  | some t => exact h.typed hp hg hB (ht t rfl)

end

/-! ## Calls -/

namespace Memory
variable (m : Memory)

def Alive (p : Addr) : Prop := (m.heap.objs p).isSome = true

/-- Where `malloc` may put an object. -/
def Free (p : Addr) : Prop := m.heap.objs p = none

/-- What is at a word does not lead back to `p`. -/
def LetsGo (p : Addr) (w : Word Addr) : Prop := ∀ old, w = .ref old → ¬ Leads m.heap.refs old p

/-- A value in which another one is put: the caller can come to it also by the references `rest`
that the call leaves to it, and what it gives up does not lead back. -/
def Puts (rest : Multiset Addr) (p : Addr) (kind : MType) (w : Val Addr → Word Addr) : Prop :=
  ∃ v, m.read p = some v ∧ v.type = kind ∧ Reaches m.heap.refs rest p ∧ m.LetsGo p (w v)

end Memory

/-- What a caller has to keep to, who has the references `rest` apart from those that the call
takes over. -/
def Op.Allowed (m : Memory) (rest : Multiset Addr) : Op → Prop
  | addReference p => m.Alive p
  | delReference _ => True
  | plain p _ type => m.Free p ∧ m.Alive type
  | string2 p _ | tuple p _ | sum p _ _ => m.Free p
  | typeFromId p type => m.Free p ∧ ∀ t ∈ type, m.Alive t
  | typeSpec p _ layer type => m.Free p ∧ m.Alive layer ∧ ∀ t ∈ type, m.Alive t
  | function2 p _ _ layer => m.Free p ∧ m.Alive layer
  | ptr p value => m.Free p ∧ m.Alive value
  | setType value type => (m.read value).isSome = true ∧ m.Alive type
  | setPtr p _ => m.Puts rest p .pointer Val.ptr
  | setSumValue p _ _ => m.Puts rest p .sum Val.value
  | tupleSet p pos _ => m.Puts rest p .tuple fun v => slot v pos

section
variable {m : Memory} {rest : Multiset Addr} {p : Addr}

theorem Plain.good (v : Plain) : Good v.val ∧ refs v.val = [] := by
  cases v with
  | scalar kind n h =>
    obtain rfl | rfl | rfl | rfl | rfl | rfl := h <;>
      exact ⟨⟨.scalar _ none n (by simp [Val.IsScalar]), trivial⟩, rfl⟩
  | string len => exact ⟨⟨.string none len, trivial⟩, rfl⟩
  | tupleSpace => exact ⟨⟨.tupleSpace none, trivial⟩, rfl⟩

theorem good_tuple (size : Nat) : Good (Val.tuple size : Val Addr) ∧ refs (Val.tuple size) = [] := by
  have hg : Good (Val.tuple size : Val Addr) := ⟨.tuple size, trivial⟩
  refine ⟨hg, ?_⟩
  have he : elements (Val.tuple size : Val Addr).size (Val.tuple size : Val Addr).values =
      (List.replicate size none).map Word.of := by
    rw [← elements_array, List.length_replicate]
    cases size with
    | zero => rfl
    | succ n => rfl
  rw [refs_eq (a := none) rfl, inner_tuple rfl he]
  simp

/-- A value takes the place of the one in a pointer or a sum. -/
theorem Tidy.putOne {rs ds : Addr → List Addr} {L : Finset Addr} {v v' : Val Addr} {r : Addr}
    (h : Tidy m rs ds L (↑[r] + rest)) (hv : m.read p = some v)
    (hkind : v.type = .pointer ∨ v.type = .sum) (hreach : Reaches rs rest p)
    (hback : ∀ old, v.u0 = .ref old → ¬ Leads rs old p) (hg : Good v') (htype : v'.type = v.type)
    (hobj : v'.typeobj = v.typeobj) (hr : v'.u0 = .ref r) :
    ∃ m', (m.delIfThere v.u0 >>= fun m => m.write p v') = some m' ∧ m'.Sound rest := by
  obtain ⟨hp, hval⟩ := h.read hv
  have hgood : Good v := (h.values p hp v hval).2.2
  obtain ⟨a, ha⟩ := hgood.typeobj
  obtain ⟨old, hold⟩ := hgood.one hkind
  rw [hold] at hback ⊢
  have hrefs : (refs v).Perm ((some old).toList ++ a.toList) := by
    rw [refs_eq ha, inner_one hkind hold]
    exact List.perm_append_comm
  have hrefs' : (refs v').Perm ([r] ++ a.toList) := by
    rw [refs_eq (hobj.trans ha), inner_one (by rw [htype]; exact hkind) hr]
    exact List.perm_append_comm
  exact h.put hv hreach hrefs hrefs' hg hback

theorem nil_add (rest : Multiset Addr) : (↑([] : List Addr) : Multiset Addr) + rest = rest :=
  Multiset.zero_add rest

theorem Tidy.owns {rs ds : Addr → List Addr} {L : Finset Addr} (h : Tidy m rs ds L (↑([] : List Addr) + rest)) :
    Tidy m rs ds L rest := by rwa [nil_add] at h

theorem Memory.Sound.owns (h : m.Sound rest) : m.Sound (↑([] : List Addr) + rest) := by rwa [nil_add]

theorem taken_cons (B : List Addr) (rest : Multiset Addr) :
    p ::ₘ (↑B + rest) = ↑(p :: B) + rest := by
  rw [← Multiset.cons_coe, Multiset.cons_add]

/-- A reference to the layer is added before a value with it is made. -/
theorem Tidy.borrow {L : Finset Addr} {rs ds : Addr → List Addr} {B : List Addr} {q : Addr}
    (h : Tidy m rs ds L (↑B + rest)) (hp : m.Alive p) (hq : m.Free q) :
    ∃ m', m.addReference p = some m' ∧ m'.heap.objs q = none ∧ Tidy m' rs ds L (↑(p :: B) + rest) := by
  obtain ⟨m', hrun, -, h'⟩ := h.addReference (h.mem hp)
  rw [taken_cons] at h'
  refine ⟨m', hrun, h'.others q fun hqL => ?_, h'⟩
  have hnone : m.heap.objs q = none := hq
  rw [h.counts.objs q hqL] at hnone
  cases hnone

/-- A call that the caller may make goes through, and leaves exact counts. -/
theorem Op.exec_sound {op : Op} (hs : m.Sound (↑op.takes + rest)) (ha : op.Allowed m rest) :
    ∃ m', op.exec m = some m' ∧ m'.Sound (↑op.gives + rest) := by
  obtain ⟨L, ht⟩ := hs.tidy
  cases op with
  | addReference q =>
    obtain ⟨m', hrun, -, ht'⟩ := ht.owns.addReference (ht.mem ha)
    exact ⟨m', hrun, ht'.sound⟩
  | delReference q =>
    obtain ⟨m', L', hrun, ht'⟩ := Tidy.delReference ht
    exact ⟨m', hrun, ht'.sound.owns⟩
  | plain q v type =>
    obtain ⟨hg, hrefs⟩ := v.good
    exact ht.typed ha.1 hg (by rw [hrefs]; rfl) (ht.mem ha.2)
  | string2 q len => exact ⟨_, rfl, (ht.make ha ⟨.string none len, trivial⟩ (.refl [])).sound⟩
  | tuple q size =>
    obtain ⟨hg, hrefs⟩ := good_tuple size
    exact ⟨_, rfl, (ht.make ha hg (by rw [hrefs]; rfl)).sound⟩
  | sum q val i =>
    refine ⟨_, rfl, (ht.make ha ⟨.sum (some val) i, ?_⟩ (.refl [val])).sound⟩
    exact nonNull_cons.2 ⟨rfl, fun w hw => by cases hw⟩
  | typeFromId q type =>
    exact ht.typed_maybe ha.1 ⟨.typeFromId none, trivial⟩ (.refl []) fun t h => ht.mem (ha.2 t h)
  | typeSpec q spec layer type =>
    obtain ⟨hfree, hlayer, htype⟩ := ha
    obtain ⟨m1, hadd, hfree1, ht1⟩ := ht.borrow hlayer hfree
    obtain ⟨m', hrun, hs'⟩ := ht1.typed_maybe hfree1 (v := Val.typeSpecVal none (some spec) (some layer))
      ⟨.typeSpec none _ _, trivial⟩ (.refl _) fun t h => ht.mem (htype t h)
    refine ⟨m', ?_, hs'⟩
    show (m.addReference layer >>= _) = _
    rw [hadd]
    exact hrun
  | function2 q parameterList code layer =>
    obtain ⟨hfree, hlayer⟩ := ha
    obtain ⟨m1, hadd, hfree1, ht1⟩ := ht.borrow hlayer hfree
    have hg : Good (Val.function2 none (some parameterList) (some code) (some layer)) := by
      refine ⟨.function none _ _ _, nonNull_cons.2 ⟨rfl, nonNull_cons.2 ⟨rfl, ?_⟩⟩⟩
      exact nonNull_cons.2 ⟨rfl, fun w hw => by cases hw⟩
    refine ⟨_, ?_, (ht1.make hfree1 hg (.refl _)).sound⟩
    show (m.addReference layer >>= _) = _
    rw [hadd]
    rfl
  | ptr q value =>
    obtain ⟨hfree, hvalue⟩ := ha
    obtain ⟨m1, hadd, hfree1, ht1⟩ := ht.borrow hvalue hfree
    have hg : Good (Val.ptrTo (some value)) :=
      ⟨.ptr _, nonNull_cons.2 ⟨rfl, fun w hw => by cases hw⟩⟩
    refine ⟨_, ?_, (ht1.make hfree1 hg (.refl _)).sound⟩
    show (m.addReference value >>= _) = _
    rw [hadd]
    rfl
  | setType value type =>
    obtain ⟨hvalue, htype⟩ := ha
    obtain ⟨v, hv⟩ := Option.isSome_iff_exists.1 hvalue
    obtain ⟨m', hrun, hs'⟩ := ht.owns.setType hv (ht.mem htype)
    exact ⟨m', hrun, hs'.owns⟩
  | setPtr q v2 =>
    obtain ⟨v, hv, htype, hreach, hback⟩ := ha
    obtain ⟨hq, hval⟩ := ht.read hv
    have hg : Good v := (ht.values q hq v hval).2.2
    obtain ⟨m', hrun, hs'⟩ := ht.putOne hv (.inl htype) hreach hback (hg.setPtr htype v2) rfl rfl rfl
    refine ⟨m', ?_, hs'.owns⟩
    show (m.read q >>= _) = _
    rw [hv]
    exact hrun
  | setSumValue q v2 i =>
    obtain ⟨v, hv, htype, hreach, hback⟩ := ha
    obtain ⟨hq, hval⟩ := ht.read hv
    have hg : Good v := (ht.values q hq v hval).2.2
    obtain ⟨m', hrun, hs'⟩ :=
      ht.putOne hv (.inr htype) hreach hback (hg.setSumValue htype v2 i) rfl rfl rfl
    obtain ⟨old, hold⟩ := hg.one (.inr htype)
    refine ⟨m', ?_, hs'.owns⟩
    show (m.read q >>= _) = _
    rw [hv]
    show (m.delReference (dropped v.u0) >>= _) = _
    rw [hold] at hrun ⊢
    exact hrun
  | tupleSet q pos value =>
    obtain ⟨v, hv, htype, hreach, hback⟩ := ha
    obtain ⟨hq, hval⟩ := ht.read hv
    have hg : Good v := (ht.values q hq v hval).2.2
    obtain ⟨a, c, ha, hold, hnew⟩ := hg.refs_tupleSet htype pos value
    have hback : m.LetsGo q (slot v pos) := hback
    rw [ha] at hback
    obtain ⟨m', hrun, hs'⟩ := ht.put hv hreach hold hnew (hg.tupleSet htype pos value) hback
    refine ⟨m', ?_, hs'.owns⟩
    show (m.read q >>= _) = _
    rw [hv]
    show (m.delIfThere (slot v pos) >>= _) = _
    rw [ha]
    exact hrun

end

/-! ## Runs -/

/-- The heap, and the references that the program has. -/
structure State where
  memory : Memory
  roots : Multiset Addr

/-- The program makes a call that it may make, and the call goes through. -/
def Step (s : State) (op : Op) (s' : State) : Prop :=
  ∃ rest, s.roots = ↑op.takes + rest ∧ op.Allowed s.memory rest ∧
    op.exec s.memory = some s'.memory ∧ s'.roots = ↑op.gives + rest

theorem Step.sound {s s' : State} {op : Op} (h : Step s op s') (hs : s.memory.Sound s.roots) :
    s'.memory.Sound s'.roots := by
  obtain ⟨rest, htakes, ha, hrun, hgives⟩ := h
  rw [htakes] at hs
  obtain ⟨m', hrun', hs'⟩ := Op.exec_sound hs ha
  rw [hrun] at hrun'
  cases hrun'
  rwa [hgives]

/-- A heap without objects. -/
def Memory.empty : Memory where
  heap := ⟨fun _ => none, []⟩
  val _ := none
  made := 0

theorem Memory.empty_sound : Memory.empty.Sound 0 := by
  refine ⟨⟨∅, ⟨fun q => ?_, fun q o ho => ?_, fun q o ho => ?_, ?_⟩, Nat.le_refl 0⟩, fun ho _ => ?_⟩
  · exact ⟨fun h => absurd h (Finset.notMem_empty q), fun h => by cases h⟩
  · cases ho
  · cases ho
  · exact ⟨fun q hq => absurd hq (Finset.notMem_empty q), fun q hq => absurd hq (Multiset.notMem_zero q),
      fun q hq => absurd hq (Finset.notMem_empty q)⟩
  · cases ho

/-- A tuple, in which a pointer to the tuple is put. -/
def selfTuple : List Op := [.tuple 1 1, .ptr 2 1, .tupleSet 1 0 (some 2), .delReference 1]

/-- The condition on what is replaced is needed. The slot of the tuple still leads to the old value while
this is freed, so the collection counts a reference more than it has, and aborts. -/
example : (([.tuple 1 1, .tuple 2 1, .addReference 1, .tupleSet 2 0 (some 1), .tupleSet 1 0 (some 2),
    .tupleSet 1 0 none] : List Op).foldlM (fun m op => Op.exec op m) Memory.empty).isNone = true := rfl

end PyLinda.Values
