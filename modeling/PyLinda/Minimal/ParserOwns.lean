import PyLinda.Lib.Forest
import PyLinda.Minimal.Parser
import PyLinda.Minimal.TreeDrop

/-!
# Owned nodes

The parser owns the values on its stack: it may use each of them once, and all that is below it.
What an action does is told by what it needs, what it leaves, and what it does not touch.
-/

namespace PyLinda.Parser

open Lib RefCount

theorem Node.leaf_of_token {n : Node} (h : n.isToken = true) : n.refs = [] ∧ n.drops = [] := by
  cases n with
  | identifier s | integer i | string s => exact ⟨rfl, rfl⟩
  | _ => cases h

theorem Node.drops_atLeast (n : Node) :
    n.drops = n.refs ∨ n.drops = n.refs ++ [nowhere] ∨ n.drops = nowhere :: n.refs := by
  cases n with
  | pointer ptr => exact .inr (.inl rfl)
  | letExpr var letexpr code => exact .inr (.inr rfl)
  | functionCall function arguments =>
    cases arguments with
    | none => exact .inr (.inl rfl)
    | some a => exact .inl rfl
  | _ => exact .inl rfl

namespace Memory
variable (m : Memory)

def refs (a : Addr) : List Addr := (m.node a).refs

/-- One of the nodes leads to it. -/
def Under (vs : List Addr) (a : Addr) : Prop := ∃ v ∈ vs, Leads m.refs v a

/-- The objects are nodes that were allocated, and the lexer's last value is a token. -/
structure Coherent : Prop where
  objs : ∀ {a o}, m.heap.objs a = some o →
    o.refs = (m.node a).refs ∧ o.drops = (m.node a).drops ∧ a < m.next
  nowhere : m.heap.objs Node.nowhere = none
  pos : Node.nowhere < m.next
  yylval : ∀ a, m.yylval = some a → a < m.next ∧ (m.node a).isToken = true

/-- An object with one reference to it. -/
def Sole (a : Addr) : Prop := m.heap.objs a = some ⟨1, (m.node a).refs, (m.node a).drops⟩

/-- There is one reference to each of the nodes and to each below them. -/
def Owned (vs : List Addr) : Prop :=
  ∃ ns, Forest m.refs vs ns ∧ ns.Nodup ∧ ∀ a ∈ ns, m.Sole a

end Memory

section
variable {m m' m1 m2 : Memory} {vs ws us loose : List Addr} {a b v : Addr} {n : Node}

theorem Memory.Owned.mem {ns : List Addr} (hf : Forest m.refs vs ns) : a ∈ ns ↔ m.Under vs a :=
  hf.mem_iff a

theorem Memory.Under.of_mem (h : v ∈ vs) : m.Under vs v := ⟨v, h, .refl v⟩

theorem Memory.under_append : m.Under (vs ++ ws) a ↔ m.Under vs a ∨ m.Under ws a := by
  constructor
  · intro ⟨v, hv, hl⟩
    exact (List.mem_append.1 hv).imp (fun hv => ⟨v, hv, hl⟩) fun hv => ⟨v, hv, hl⟩
  · intro h
    cases h with
    | inl h =>
      obtain ⟨v, hv, hl⟩ := h
      exact ⟨v, List.mem_append_left _ hv, hl⟩
    | inr h =>
      obtain ⟨v, hv, hl⟩ := h
      exact ⟨v, List.mem_append_right _ hv, hl⟩

theorem Memory.Under.mono (h : m.Under vs a) (hsub : ∀ v ∈ vs, v ∈ ws) : m.Under ws a := by
  obtain ⟨v, hv, hl⟩ := h
  exact ⟨v, hsub v hv, hl⟩

theorem Memory.Owned.sole (h : m.Owned vs) (ha : m.Under vs a) : m.Sole a := by
  obtain ⟨ns, hf, _, hsole⟩ := h
  exact hsole a ((hf.mem_iff a).2 ha)

theorem Memory.Owned.lt (hc : m.Coherent) (h : m.Owned vs) (ha : m.Under vs a) : a < m.next :=
  (hc.objs (h.sole ha)).2.2

theorem Memory.Owned.perm (h : m.Owned vs) (hp : vs.Perm ws) : m.Owned ws := by
  obtain ⟨ns, hf, hnodup, hsole⟩ := h
  obtain ⟨ms, hpm, hf'⟩ := hf.perm hp
  exact ⟨ms, hf', hpm.nodup_iff.1 hnodup, fun a ha => hsole a (hpm.mem_iff.2 ha)⟩

theorem Memory.owned_nil : m.Owned [] := ⟨[], .nil, List.nodup_nil, fun _ ha => by cases ha⟩

/-- What two groups of nodes own is apart. -/
theorem Memory.owned_append : m.Owned (vs ++ ws) ↔
    m.Owned vs ∧ m.Owned ws ∧ ∀ a, m.Under vs a → ¬ m.Under ws a := by
  constructor
  · intro ⟨ns, hf, hnodup, hsole⟩
    obtain ⟨n1, n2, rfl, h1, h2⟩ := hf.split
    obtain ⟨hn1, hn2, hapart⟩ := List.nodup_append.1 hnodup
    refine ⟨⟨n1, h1, hn1, fun a ha => hsole a (List.mem_append_left _ ha)⟩,
      ⟨n2, h2, hn2, fun a ha => hsole a (List.mem_append_right _ ha)⟩, fun a h1' h2' => ?_⟩
    exact hapart a ((h1.mem_iff a).2 h1') a ((h2.mem_iff a).2 h2') rfl
  · intro ⟨⟨n1, h1, hn1, hs1⟩, ⟨n2, h2, hn2, hs2⟩, hapart⟩
    refine ⟨n1 ++ n2, h1.append h2, List.nodup_append.2 ⟨hn1, hn2, fun a ha b hb hab => ?_⟩,
      fun a ha => ?_⟩
    · exact hapart a ((h1.mem_iff a).1 ha) ((h2.mem_iff a).1 (hab ▸ hb))
    · exact (List.mem_append.1 ha).elim (hs1 a) (hs2 a)

theorem Memory.owned_cons : m.Owned (v :: ws) ↔
    m.Owned [v] ∧ m.Owned ws ∧ ∀ a, m.Under [v] a → ¬ m.Under ws a :=
  @Memory.owned_append m [v] ws

/-! ## What is not touched -/

/-- From `m` to `m'`: the nodes `vs` and what was below them has become `ws`; apart from that only
the objects `loose` have changed, and what was allocated. -/
structure Framed (m m' : Memory) (vs ws loose : List Addr) : Prop where
  coherent : m'.Coherent
  next : m.next ≤ m'.next
  yylval : m'.yylval = m.yylval
  token : ∀ a < m.next, (m'.node a).isToken = (m.node a).isToken
  inside : ∀ a, m'.Under ws a → m.Under vs a ∨ m.next ≤ a
  outside : ∀ a < m.next, ¬ m.Under vs a →
    m'.node a = m.node a ∧ (a ∉ loose → m'.heap.objs a = m.heap.objs a)

theorem Framed.refl (hc : m.Coherent) (hsub : ∀ v ∈ ws, v ∈ vs) : Framed m m vs ws loose where
  coherent := hc
  next := Nat.le_refl _
  yylval := rfl
  token _ _ := rfl
  inside _ ha := .inl (ha.mono hsub)
  outside _ _ _ := ⟨rfl, fun _ => rfl⟩

theorem Framed.trans (h1 : Framed m m1 vs ws loose) (h2 : Framed m1 m2 ws us loose) :
    Framed m m2 vs us loose where
  coherent := h2.coherent
  next := Nat.le_trans h1.next h2.next
  yylval := h2.yylval.trans h1.yylval
  token a ha := (h2.token a (Nat.lt_of_lt_of_le ha h1.next)).trans (h1.token a ha)
  inside a ha := by
    cases h2.inside a ha with
    | inl ha => exact h1.inside a ha
    | inr ha => exact .inr (Nat.le_trans h1.next ha)
  outside a ha hn := by
    have hn' : ¬ m1.Under ws a := by
      intro hu
      cases h1.inside a hu with
      | inl hu => exact hn hu
      | inr hge => exact Nat.not_lt_of_le hge ha
    obtain ⟨hnode, hobjs⟩ := h1.outside a ha hn
    obtain ⟨hnode', hobjs'⟩ := h2.outside a (Nat.lt_of_lt_of_le ha h1.next) hn'
    exact ⟨hnode'.trans hnode, fun hl => (hobjs' hl).trans (hobjs hl)⟩

/-- Fewer nodes are left, from more nodes. -/
theorem Framed.weaken {vs' ws' : List Addr} (h : Framed m m' vs ws loose) (hvs : ∀ v ∈ vs, v ∈ vs')
    (hws : ∀ w ∈ ws', w ∈ ws) : Framed m m' vs' ws' loose where
  coherent := h.coherent
  next := h.next
  yylval := h.yylval
  token := h.token
  inside a ha := (h.inside a (ha.mono hws)).imp (fun hu => hu.mono hvs) id
  outside a ha hn := h.outside a ha fun hu => hn (hu.mono hvs)

theorem Framed.loosen {loose' : List Addr} (h : Framed m m' vs ws loose)
    (hsub : ∀ a ∈ loose, a ∈ loose') : Framed m m' vs ws loose' where
  coherent := h.coherent
  next := h.next
  yylval := h.yylval
  token := h.token
  inside := h.inside
  outside a ha hn := ⟨(h.outside a ha hn).1, fun hl => (h.outside a ha hn).2 fun ha' => hl (hsub a ha')⟩

/-- What is owned apart from the nodes that an action uses. -/
theorem Framed.rest (h : Framed m m' vs ws loose) (hc : m.Coherent) (how : m.Owned us)
    (hapart : ∀ a, m.Under vs a → ¬ m.Under us a) (hloose : ∀ a ∈ loose, ¬ m.Under us a) :
    m'.Owned us ∧ (∀ a, m'.Under us a ↔ m.Under us a) ∧
      ∀ a, m.Under us a → m'.node a = m.node a := by
  obtain ⟨ns, hf, hnodup, hsole⟩ := how
  have hnode : ∀ a ∈ ns, m'.node a = m.node a ∧ m'.heap.objs a = m.heap.objs a := by
    intro a ha
    have hu := (hf.mem_iff a).1 ha
    have hlt : a < m.next := (hc.objs (hsole a ha)).2.2
    obtain ⟨hn, ho⟩ := h.outside a hlt fun hv => hapart a hv hu
    exact ⟨hn, ho fun hl => hloose a hl hu⟩
  have hrefs : ∀ a ∈ ns, m'.refs a = m.refs a := fun a ha => congrArg Node.refs (hnode a ha).1
  have hf' : Forest m'.refs us ns := hf.congr hrefs
  refine ⟨⟨ns, hf', hnodup, fun a ha => ?_⟩, fun a => ?_, fun a ha => ?_⟩
  · unfold Memory.Sole
    rw [(hnode a ha).1, (hnode a ha).2]
    exact hsole a ha
  · rw [← Memory.Owned.mem hf', Memory.Owned.mem hf]
  · exact (hnode a ((hf.mem_iff a).2 ha)).1

/-- An action that used some of the nodes, beside others. -/
theorem Framed.beside (h : Framed m m' vs ws loose) (hc : m.Coherent) (how : m.Owned (vs ++ us))
    (hws : m'.Owned ws) (hloose : ∀ a ∈ loose, ¬ m.Under us a) :
    m'.Owned (ws ++ us) ∧ Framed m m' (vs ++ us) (ws ++ us) loose := by
  obtain ⟨_, hus, hapart⟩ := Memory.owned_append.1 how
  obtain ⟨hus', hsame, hnode⟩ := h.rest hc hus hapart hloose
  refine ⟨Memory.owned_append.2 ⟨hws, hus', fun a hw hu => ?_⟩, ?_⟩
  · have hu' := (hsame a).1 hu
    cases h.inside a hw with
    | inl hv => exact hapart a hv hu'
    | inr hge => exact absurd (hus.lt hc hu') (Nat.not_lt_of_le hge)
  · refine ⟨h.coherent, h.next, h.yylval, h.token, fun a ha => ?_, fun a ha hn => ?_⟩
    · cases Memory.under_append.1 ha with
      | inl hw => exact (h.inside a hw).imp (fun hv => Memory.under_append.2 (.inl hv)) id
      | inr hu => exact .inl (Memory.under_append.2 (.inr ((hsame a).1 hu)))
    · exact h.outside a ha fun hv => hn (Memory.under_append.2 (.inl hv))

/-! ## New nodes -/

theorem Memory.alloc_new : (m.alloc n).heap.objs m.next = some ⟨1, n.refs, n.drops⟩ ∧
    (m.alloc n).node m.next = n := ⟨Heap.set_same _ _ _, if_pos rfl⟩

theorem Memory.alloc_old (h : a < m.next) : (m.alloc n).heap.objs a = m.heap.objs a ∧
    (m.alloc n).node a = m.node a := by
  have hne : a ≠ m.next := Nat.ne_of_lt h
  exact ⟨Heap.set_other _ hne _, if_neg hne⟩

theorem Memory.Coherent.alloc (hc : m.Coherent) (n : Node) : (m.alloc n).Coherent where
  objs := by
    intro a o ho
    by_cases ha : a = m.next
    · subst ha
      rw [Memory.alloc_new.1] at ho
      cases ho
      exact ⟨congrArg Node.refs Memory.alloc_new.2.symm, congrArg Node.drops Memory.alloc_new.2.symm,
        Nat.lt_succ_self _⟩
    · have ho' : m.heap.objs a = some o := (Heap.set_other _ ha _).symm.trans ho
      obtain ⟨hrefs, hdrops, hlt⟩ := hc.objs ho'
      rw [(Memory.alloc_old hlt).2]
      exact ⟨hrefs, hdrops, Nat.lt_succ_of_lt hlt⟩
  nowhere := (Memory.alloc_old hc.pos).1.trans hc.nowhere
  pos := Nat.lt_succ_of_lt hc.pos
  yylval a ha := by
    obtain ⟨hlt, htoken⟩ := hc.yylval a ha
    rw [(Memory.alloc_old hlt).2]
    exact ⟨Nat.lt_succ_of_lt hlt, htoken⟩

/-- A new node owns what it refers to. -/
theorem Memory.Owned.alloc (hc : m.Coherent) (how : m.Owned n.refs) :
    (m.alloc n).Owned [m.next] ∧ Framed m (m.alloc n) n.refs [m.next] [] := by
  obtain ⟨ns, hf, hnodup, hsole⟩ := how
  have hlt : ∀ a ∈ ns, a < m.next := fun a ha => (hc.objs (hsole a ha)).2.2
  have hrefs : ∀ a ∈ ns, (m.alloc n).refs a = m.refs a := fun a ha =>
    congrArg Node.refs (Memory.alloc_old (hlt a ha)).2
  have hnew : (m.alloc n).refs m.next = n.refs := congrArg Node.refs Memory.alloc_new.2
  have hf' : Forest (m.alloc n).refs [m.next] (m.next :: ns) := by
    refine Forest.single ?_
    rw [hnew]
    exact hf.congr hrefs
  refine ⟨⟨m.next :: ns, hf', List.nodup_cons.2 ⟨fun ha => Nat.lt_irrefl _ (hlt _ ha), hnodup⟩,
    fun a ha => ?_⟩, hc.alloc n, Nat.le_succ _, rfl, fun a ha => ?_, fun a ha => ?_, fun a ha _ => ?_⟩
  · unfold Memory.Sole
    cases List.mem_cons.1 ha with
    | inl ha =>
      rw [ha, Memory.alloc_new.1, Memory.alloc_new.2]
    | inr ha =>
      rw [(Memory.alloc_old (hlt a ha)).1, (Memory.alloc_old (hlt a ha)).2]
      exact hsole a ha
  · rw [(Memory.alloc_old ha).2]
  · cases List.mem_cons.1 ((hf'.mem_iff a).2 ha) with
    | inl ha => exact .inr (Nat.le_of_eq ha.symm)
    | inr ha => exact .inl ((hf.mem_iff a).1 ha)
  · exact ⟨(Memory.alloc_old ha).2, fun _ => (Memory.alloc_old ha).1⟩

/-! ## Nodes that are filled -/

theorem Memory.put_other {o : Obj} (h : a ≠ b) : (m.put b o n).heap.objs a = m.heap.objs a ∧
    (m.put b o n).node a = m.node a := ⟨Heap.set_other _ h _, if_neg h⟩

theorem Memory.put_same {o : Obj} : (m.put b o n).heap.objs b = some o ∧ (m.put b o n).node b = n :=
  ⟨Heap.set_same _ _ _, if_pos rfl⟩

theorem Memory.Coherent.put (hc : m.Coherent) {c : Int} (hb : b < m.next) (hnowhere : b ≠ Node.nowhere)
    (htoken : n.isToken = (m.node b).isToken) : (m.put b ⟨c, n.refs, n.drops⟩ n).Coherent where
  objs := by
    intro a o ho
    by_cases ha : a = b
    · subst ha
      rw [Memory.put_same.1] at ho
      cases ho
      exact ⟨congrArg Node.refs Memory.put_same.2.symm, congrArg Node.drops Memory.put_same.2.symm, hb⟩
    · rw [(Memory.put_other ha).1] at ho
      rw [(Memory.put_other ha).2]
      exact hc.objs ho
  nowhere := (Memory.put_other hnowhere.symm).1.trans hc.nowhere
  pos := hc.pos
  yylval a ha := by
    obtain ⟨hlt, ht⟩ := hc.yylval a ha
    refine ⟨hlt, ?_⟩
    by_cases hab : a = b
    · subst hab
      rw [Memory.put_same.2, htoken]
      exact ht
    · rw [(Memory.put_other hab).2]
      exact ht

theorem Memory.Sole.ne_nowhere (hc : m.Coherent) (h : m.Sole a) : a ≠ Node.nowhere := by
  intro ha
  subst ha
  have hnone := hc.nowhere.symm.trans h
  cases hnone

theorem write_sole (h : m.Sole b) : write b n m = (.ok (), m.put b ⟨1, n.refs, n.drops⟩ n) := by
  unfold write
  rw [show m.heap.objs b = _ from h]

/-- A node that is put into another one is owned by it. -/
theorem Memory.Owned.put (hc : m.Coherent) (how : m.Owned (vs ++ [v])) (hb : m.Under vs b)
    (hrefs : n.refs.Perm (v :: m.refs b)) (htoken : n.isToken = (m.node b).isToken) :
    (m.put b ⟨1, n.refs, n.drops⟩ n).Owned vs ∧
      Framed m (m.put b ⟨1, n.refs, n.drops⟩ n) (vs ++ [v]) vs [] := by
  obtain ⟨ns, hf, hnodup, hsole⟩ := how
  obtain ⟨n1, n2, rfl, h1, h2⟩ := hf.split
  have hbn : b ∈ n1 := (h1.mem_iff b).2 hb
  have hsole_b : m.Sole b := hsole b (List.mem_append_left _ hbn)
  have hlt : b < m.next := (hc.objs hsole_b).2.2
  have hgraft : ((m.put b ⟨1, n.refs, n.drops⟩ n).refs b).Perm (v :: m.refs b) := by
    show ((m.put b ⟨1, n.refs, n.drops⟩ n).node b).refs.Perm _
    rw [Memory.put_same.2]
    exact hrefs
  obtain ⟨ns', hf', hp⟩ := h1.graft hnodup hbn h2 hgraft
    fun a ha => congrArg Node.refs (Memory.put_other ha).2
  refine ⟨⟨ns', hf', hp.nodup_iff.2 hnodup, fun a ha => ?_⟩, hc.put hlt (hsole_b.ne_nowhere hc) htoken,
    Nat.le_refl _, rfl, fun a ha => ?_, fun a ha => ?_, fun a ha hn => ?_⟩
  · unfold Memory.Sole
    by_cases hab : a = b
    · rw [hab, Memory.put_same.1, Memory.put_same.2]
    · rw [(Memory.put_other hab).1, (Memory.put_other hab).2]
      exact hsole a (hp.mem_iff.1 ha)
  · by_cases hab : a = b
    · rw [hab, Memory.put_same.2, htoken]
    · rw [(Memory.put_other hab).2]
  · exact .inl ((hf.mem_iff a).1 (hp.mem_iff.1 ((hf'.mem_iff a).2 ha)))
  · have hab : a ≠ b := fun hab => hn (hab ▸ Memory.under_append.2 (.inl hb))
    exact ⟨(Memory.put_other hab).2, fun _ => (Memory.put_other hab).1⟩

/-! ## References that are given up -/

theorem delReference_inv (h : delReference (some v) m = (.ok (), m')) :
    ∃ heap, RefCount.delReference (m.next + 2) v m.heap = some heap ∧
      m' = { m with heap := heap } := by
  unfold delReference at h
  cases hrun : RefCount.delReference (m.next + 2) v m.heap with
  | none =>
    simp only [hrun] at h
    cases h
  | some heap =>
    simp only [hrun] at h
    cases h
    exact ⟨heap, rfl, rfl⟩

theorem Memory.Coherent.heap (hc : m.Coherent) {h : RefCount.Heap}
    (hobjs : ∀ a o, h.objs a = some o → ∃ c, m.heap.objs a = some ⟨c, o.refs, o.drops⟩) :
    Memory.Coherent { m with heap := h } where
  objs := by
    intro a o ho
    obtain ⟨c, ho'⟩ := hobjs a o ho
    obtain ⟨hrefs, hdrops, hlt⟩ := hc.objs ho'
    exact ⟨hrefs, hdrops, hlt⟩
  nowhere := by
    cases ho : h.objs Node.nowhere with
    | none => rfl
    | some o =>
      obtain ⟨c, ho'⟩ := hobjs _ o ho
      have hnone := hc.nowhere.symm.trans ho'
      cases hnone
  pos := hc.pos
  yylval := hc.yylval

theorem length_le_of_lt {ns : List Addr} (hnodup : ns.Nodup) {k : Nat} (hlt : ∀ a ∈ ns, a < k) :
    ns.length ≤ k := by
  have hsub := (hnodup.subperm fun a ha => List.mem_range.2 (hlt a ha)).length_le
  rw [List.length_range] at hsub
  exact hsub

/-- A tree is freed, if that succeeds. -/
theorem Memory.Owned.drop (hc : m.Coherent) (how : m.Owned [v])
    (h : delReference (some v) m = (.ok (), m')) : m'.node = m.node ∧ Framed m m' [v] [] [] := by
  obtain ⟨heap, hrun, rfl⟩ := delReference_inv h
  obtain ⟨ns, hf, hnodup, hsole⟩ := how
  have hlen : ns.length ≤ m.next + 2 :=
    Nat.le_trans (length_le_of_lt hnodup fun a ha => (hc.objs (hsole a ha)).2.2) (Nat.le_add_right _ _)
  have hone : each (RefCount.delReference (m.next + 2)) [v] m.heap = some heap := each_some hrun
  have hdrops := each_delReference_drops hf hnodup hsole hc.nowhere
    (fun a _ => (m.node a).drops_atLeast) hlen hone
  have hobj : ∀ a ∈ ns, m.heap.objs a = some ⟨1, m.refs a, m.refs a⟩ := by
    intro a ha
    have ho : m.heap.objs a = some ⟨1, (m.node a).refs, (m.node a).drops⟩ := hsole a ha
    rw [ho, hdrops a ha]
    rfl
  obtain ⟨heap', hrun', hobjs⟩ := each_delReference_forest hf hnodup hobj hlen
  rw [hone] at hrun'
  cases hrun'
  have hkept : ∀ a o, heap.objs a = some o → a ∉ ns ∧ m.heap.objs a = some o := by
    intro a o ho
    rw [hobjs] at ho
    by_cases ha : a ∈ ns
    · rw [if_pos ha] at ho
      cases ho
    · rw [if_neg ha] at ho
      exact ⟨ha, ho⟩
  refine ⟨rfl, hc.heap fun a o ho => ⟨o.refCount, (hkept a o ho).2⟩, Nat.le_refl _, rfl, fun _ _ => rfl,
    fun a ha => ?_, fun a _ hn => ⟨rfl, fun _ => ?_⟩⟩
  · obtain ⟨w, hw, _⟩ := ha
    cases hw
  · exact (hobjs a).trans (if_neg fun ha => hn ((hf.mem_iff a).1 ha))

/-- A leaf loses a reference. -/
theorem Framed.drop_leaf (hc : m.Coherent) (hleaf : (m.node a).refs = [] ∧ (m.node a).drops = [])
    (h : delReference (some a) m = (.ok (), m')) :
    m'.node = m.node ∧ Framed m m' vs vs [a] := by
  obtain ⟨heap, hrun, rfl⟩ := delReference_inv h
  refine ⟨rfl, ?_⟩
  obtain ⟨d, hnext⟩ := Nat.exists_eq_add_of_lt hc.pos
  have hd : m.next + 2 = d + 3 := by
    rw [hnext]
    show 0 + d + 1 + 2 = d + 3
    omega
  rw [hd] at hrun
  cases ho : m.heap.objs a with
  | none =>
    rw [RefCount.delReference, ho] at hrun
    cases hrun
  | some o =>
    obtain ⟨c, rs, ds⟩ := o
    obtain ⟨hrefs, hdrops, hlt⟩ := hc.objs ho
    have hobj : m.heap.objs a = some ⟨c, [], []⟩ := by
      rw [ho, show rs = [] from hrefs.trans hleaf.1, show ds = [] from hdrops.trans hleaf.2]
    obtain ⟨heap', hrun', hother, hself⟩ := @delReference_leaf _ _ d _ hobj
    rw [hrun'] at hrun
    cases hrun
    refine ⟨hc.heap fun b o hb => ?_, Nat.le_refl _, rfl, fun _ _ => rfl, fun b hb => .inl hb,
      fun b _ _ => ⟨rfl, fun hb => hother b fun hba => hb (hba ▸ List.mem_cons_self)⟩⟩
    by_cases hba : b = a
    · subst hba
      obtain ⟨h1, h2⟩ := hself o hb
      exact ⟨c, by rw [hobj, h1, h2]⟩
    · rw [hother b hba] at hb
      exact ⟨o.refCount, hb⟩

end

end PyLinda.Parser
