import PyLinda.Lib.Bag
import PyLinda.Partition.Conserve

/-!
# A partition is a bag

On tuples of atoms every operation of a partition comes to acts of a bag that can be waited on: an
`out` puts its tuple in and wakes the readers that asked for just this tuple, one after another.
-/

namespace PyLinda

open Lib

/-- The scans of the stored tuples find `t` for the template `p`. -/
def Meets (p t : Tuple) : Prop := Matches t p

def Blocked.ask (b : Blocked) : Ask Tuple := ⟨b.pattern, b.destructive⟩

/-- The requests that wait. -/
def asks (l : List (Tid × Blocked)) : Multiset (Tid × Ask Tuple) := (l.map fun x => (x.1, x.2.ask) : List _)

/-- The bag that a partition is. -/
def TupleSpace.bag (s : TupleSpace) : Bag Tid Tuple Tuple := ⟨s.ts.contain, asks s.blockedList.entries⟩

/-- What the wake-up of a thread that is blocked in `s` is to the bag. -/
def Spawn.act (s : TupleSpace) : Spawn → Option (Bag.Act Tid Tuple Tuple)
  | .returnTuple tid matched _ => (s.blockedList.get? tid).map fun b => .wake tid b.ask matched
  | _ => none

/-- What the return of `_rd` or `_in` is to it. -/
def readActs (tid : Tid) (a : Ask Tuple) : Except PyExc (Option Tuple) → List (Bag.Act Tid Tuple Tuple)
  | .ok (some t) => [.answer tid a t]
  | .ok none => [.wait tid a]
  | .error _ => []

/-- What a step of the partition is to it. -/
def Op.acts (s : TupleSpace) : Op → List (Bag.Act Tid Tuple Tuple)
  | out tup =>
    match (s._out tup).result with
    | .ok () => .put tup :: (s._out tup).spawned.filterMap (Spawn.act s)
    | .error _ => []
  | rd tid pattern u => readActs tid ⟨pattern, false⟩ (s._rd tid pattern u).result
  | take tid pattern u => readActs tid ⟨pattern, true⟩ (s._in tid pattern u).result
  | collect pattern =>
    match (s.collect pattern).result with
    | .ok l => [.collect pattern l]
    | .error _ => []
  | copyCollect pattern =>
    match (s.copyCollect pattern).result with
    | .ok l => [.copy pattern l]
    | .error _ => []
  | unblockRandom =>
    match s.unblockRandom.2 with
    | some tid => (s.blockedList.get? tid).toList.map fun b => .release tid b.ask
    | none => []
  | _ => []

variable {s : TupleSpace} {op : Op} {tup t p : Tuple} {tid : Tid} {b : Blocked}

/-- From `s` to `s'` by these acts. -/
def Comes (s : Bag Tid Tuple Tuple) (acts : List (Bag.Act Tid Tuple Tuple)) (s' : Bag Tid Tuple Tuple) : Prop :=
  ∃ tr, Run (Bag.Step Meets) s tr s' ∧ tr.map Prod.snd = acts

theorem Comes.nil (s : Bag Tid Tuple Tuple) : Comes s [] s := ⟨[], .nil s, rfl⟩

theorem Comes.cons {a s s' : Bag Tid Tuple Tuple} {act : Bag.Act Tid Tuple Tuple}
    {acts : List (Bag.Act Tid Tuple Tuple)} (h : Bag.Step Meets a act s) (hs : Comes s acts s') :
    Comes a (act :: acts) s' := by
  obtain ⟨tr, hrun, hacts⟩ := hs
  exact ⟨_, .cons h hrun, by rw [List.map_cons, hacts]⟩

theorem Comes.eq_of_nil {a b : Bag Tid Tuple Tuple} (h : Comes a [] b) : a = b := by
  obtain ⟨tr, hrun, hacts⟩ := h
  cases hrun with
  | nil => rfl
  | cons => cases hacts

theorem Comes.uncons {a b : Bag Tid Tuple Tuple} {act : Bag.Act Tid Tuple Tuple}
    {acts : List (Bag.Act Tid Tuple Tuple)} (h : Comes a (act :: acts) b) :
    ∃ c, Bag.Step Meets a act c ∧ Comes c acts b := by
  obtain ⟨tr, hrun, hacts⟩ := h
  cases hrun with
  | nil => cases hacts
  | cons hstep hrun =>
    rw [List.map_cons, List.cons.injEq] at hacts
    exact ⟨_, hacts.1 ▸ hstep, _, hrun, hacts.2⟩

theorem Comes.step {a b : Bag Tid Tuple Tuple} {act : Bag.Act Tid Tuple Tuple} (h : Comes a [act] b) :
    Bag.Step Meets a act b := by
  obtain ⟨c, hstep, hnil⟩ := h.uncons
  exact hnil.eq_of_nil ▸ hstep

theorem asks_cons (x : Tid × Blocked) (l : List (Tid × Blocked)) :
    asks (x :: l) = (x.1, x.2.ask) ::ₘ asks l := rfl

theorem asks_perm {l l' : List (Tid × Blocked)} (h : l.Perm l') : asks l = asks l' :=
  Multiset.coe_eq_coe.2 (h.map _)

/-! ## Waking up -/

/-- What is left of the tuple that was put in, behind a scan that ended so. -/
def Scan.kept (tup : Tuple) (items : Multiset Tuple) : Scan → Multiset Tuple
  | .taken => items
  | .passed | .raised _ => tup ::ₘ items

theorem wake_comes (items : Multiset Tuple) (htup : tup.IsAtoms) {l : List (Tid × Blocked)}
    (hl : ∀ x ∈ l, x.2.pattern.IsTemplate ∧ s.blockedList.get? x.1 = some x.2) :
    Comes ⟨tup ::ₘ items, asks l⟩ ((checkBlocked tup l).2.1.filterMap (Spawn.act s))
      ⟨(checkBlocked tup l).2.2.kept tup items, asks (checkBlocked tup l).1⟩ := by
  induction l with
  | nil => exact .nil _
  | cons x l ih =>
    obtain ⟨tid, b⟩ := x
    rw [List.forall_mem_cons] at hl
    obtain ⟨⟨htempl, hget⟩, hl⟩ := hl
    have hself : Meets tup tup := (matches_atoms_iff htup.isTemplate htup).2 rfl
    have hact : ∀ m, Spawn.act s (.returnTuple tid m m) = some (.wake tid b.ask m) := fun m => by
      simp [Spawn.act, hget]
    rcases checkBlocked_cons tup tid b l with ⟨-, he⟩ | ⟨e, ⟨hne, hr⟩, -⟩ | ⟨hm, hd, he⟩ | ⟨hm, hd, he⟩
    · -- the reader stays
      obtain ⟨tr, hrun, hacts⟩ := ih hl
      obtain ⟨tr', hrun', hacts'⟩ := Bag.run_frame hrun (tid, b.ask)
      rw [he]
      exact ⟨tr', hrun', hacts'.trans hacts⟩
    · rcases doesMatch_atoms htempl htup with ⟨h, -⟩ | ⟨h, -⟩
      · rw [Matches, hr] at h
        cases h
      · rw [hr] at h
        exact absurd (Except.error.inj h) hne
    · obtain rfl := (matches_atoms_iff htempl htup).1 hm
      have hstep : Bag.Step Meets ⟨b.pattern ::ₘ items, asks ((tid, b) :: l)⟩
          (.wake tid b.ask b.pattern) ⟨Bag.rest b.ask b.pattern items, asks l⟩ := by
        rw [asks_cons]
        exact .wake hself
      have hrest : Bag.rest b.ask b.pattern items = items := if_pos hd
      rw [he, List.filterMap_cons, hact]
      rw [hrest] at hstep
      exact .cons hstep (.nil _)
    · obtain rfl := (matches_atoms_iff htempl htup).1 hm
      have hstep : Bag.Step Meets ⟨b.pattern ::ₘ items, asks ((tid, b) :: l)⟩
          (.wake tid b.ask b.pattern) ⟨Bag.rest b.ask b.pattern items, asks l⟩ := by
        rw [asks_cons]
        exact .wake hself
      have hrest : Bag.rest b.ask b.pattern items = b.pattern ::ₘ items := if_neg (by simp [Blocked.ask, hd])
      rw [he, List.filterMap_cons, hact]
      rw [hrest] at hstep
      exact .cons hstep (ih hl)

/-- Whom the scan wakes is in the list, and does not stay in it. -/
theorem checkBlocked_woken (tup : Tuple) (l : List (Tid × Blocked)) :
    ∃ w, (checkBlocked tup l).2.1 = w.map (fun x => Spawn.returnTuple x.1 x.2.pattern x.2.pattern) ∧
      (w ++ (checkBlocked tup l).1).Perm l := by
  induction l with
  | nil => exact ⟨[], rfl, .refl _⟩
  | cons x l ih =>
    obtain ⟨tid, b⟩ := x
    obtain ⟨w, hw, hperm⟩ := ih
    rcases checkBlocked_cons tup tid b l with ⟨-, he⟩ | ⟨e, -, he⟩ | ⟨-, -, he⟩ | ⟨-, -, he⟩ <;> rw [he]
    · exact ⟨w, hw, List.perm_middle.trans (hperm.cons _)⟩
    · exact ⟨[], rfl, .refl _⟩
    · exact ⟨[(tid, b)], rfl, .refl _⟩
    · exact ⟨(tid, b) :: w, by rw [hw, List.map_cons], hperm.cons _⟩

/-! ## The operations -/

section
variable (hs : Atomic s)
include hs

theorem not_raised (htup : tup.IsAtoms) (e : PyExc) :
    (checkBlocked tup s.blockedList.entries).2.2 ≠ .raised e := by
  intro he
  rcases checkBlocked_end tup s.blockedList.entries with ⟨hend, -⟩ | ⟨_, _, _, -, -, -, -, hend⟩ |
    ⟨pre, x, post, e', hl, -, ⟨hne, hr⟩, -⟩
  · rw [hend] at he
    cases he
  · rw [hend] at he
    cases he
  · rcases doesMatch_atoms (hs.blocked x (hl ▸ List.mem_append_right pre List.mem_cons_self)) htup with
      ⟨h, -⟩ | ⟨h, -⟩
    · rw [Matches, hr] at h
      cases h
    · rw [hr] at h
      exact hne (Except.error.inj h)

theorem out_returns (htup : tup.IsAtoms) : (s._out tup).result = .ok () := by
  rcases TupleSpace._out_cases hs.requests tup with ⟨-, -, hr⟩ | ⟨-, -, hr⟩ | ⟨e, hend, -⟩
  · exact hr
  · exact hr
  · exact absurd hend (not_raised hs htup e)

theorem out_comes (htup : tup.IsAtoms) :
    Comes s.bag ((Op.out tup).acts s) (s._out tup).ts.bag := by
  have hwake := wake_comes (s := s) (s.ts.contain : Multiset Tuple) htup
    fun x hx => ⟨hs.blocked x hx, Dict.get?_eq_some hx⟩
  have hput : Bag.Step Meets s.bag (.put tup) ⟨tup ::ₘ s.ts.contain, asks s.blockedList.entries⟩ := .put
  unfold Op.acts TupleSpace.bag
  dsimp only
  rw [TupleSpace._out_spawned hs.requests, TupleSpace._out_blockedList]
  rcases TupleSpace._out_cases hs.requests tup with ⟨hend, hc, hr⟩ | ⟨hend, hc, hr⟩ | ⟨e, hend, -⟩
  · rw [hr, hc]
    rw [hend] at hwake
    have hitems : ((s.ts.contain ++ [tup] : List Tuple) : Multiset Tuple) = tup ::ₘ s.ts.contain :=
      Multiset.coe_eq_coe.2 List.perm_append_comm
    rw [hitems]
    exact .cons hput hwake
  · rw [hr, hc]
    rw [hend] at hwake
    exact .cons hput hwake
  · exact absurd hend (not_raised hs htup e)

/-- An `out` puts its tuple in and wakes some readers. -/
theorem out_wakes (htup : tup.IsAtoms) :
    ∃ w, (s._out tup).spawned = w.map (fun x => Spawn.returnTuple x.1 x.2.pattern x.2.pattern) ∧
      (w ++ (s._out tup).ts.blockedList.entries).Perm s.blockedList.entries ∧
      Comes s.bag (.put tup :: w.map fun x => .wake x.1 x.2.ask x.2.pattern) (s._out tup).ts.bag := by
  obtain ⟨w, hw, hperm⟩ := checkBlocked_woken tup s.blockedList.entries
  rw [← TupleSpace._out_spawned hs.requests] at hw
  rw [← TupleSpace._out_blockedList] at hperm
  refine ⟨w, hw, hperm, ?_⟩
  have hacts : w.filterMap (fun x => Spawn.act s (.returnTuple x.1 x.2.pattern x.2.pattern)) =
      w.map fun x => .wake x.1 x.2.ask x.2.pattern := by
    rw [← List.filterMap_eq_map]
    refine List.filterMap_congr fun x hx => ?_
    have hx : x ∈ s.blockedList.entries := hperm.subset (List.mem_append_left _ hx)
    rw [Spawn.act, Dict.get?_eq_some hx]
    rfl
  have hcomes := out_comes hs htup
  unfold Op.acts at hcomes
  simp only [out_returns hs htup, hw, List.filterMap_map] at hcomes
  rw [← hacts]
  exact hcomes

/-- A search for a stored tuple deletes just this tuple. -/
theorem deleteFirst_perm {c : List Tuple} (ht : t ∈ s.ts.contain) (hd : deleteFirst t s.ts.contain = .ok c) :
    s.ts.contain.Perm (t :: c) := by
  have hatoms := hs.contain t ht
  rcases deleteFirst_cases t s.ts.contain with ⟨hnone, -⟩ | ⟨pre, r, post, hl, -, hm, he⟩ | ⟨e, -, he⟩
  · exact absurd ((matches_atoms_iff hatoms.isTemplate hatoms).2 rfl).not_skips
      (not_not.2 (matchFirst_none hnone t ht))
  · rw [he] at hd
    cases hd
    have hr : r.IsAtoms := hs.contain r (hl ▸ List.mem_append_right pre List.mem_cons_self)
    obtain rfl := (matches_atoms_iff hr.isTemplate hatoms).1 hm
    rw [hl]
    exact List.perm_middle
  · rw [he] at hd
    cases hd

omit hs in
theorem block_comes {a : Blocked} (hfree : tid ∉ s.blockedList.keys)
    (hskip : ∀ t ∈ s.ts.contain, Skips t a.pattern) :
    Comes s.bag [.wait tid a.ask] (s.block tid a).ts.bag := by
  have hset : (s.blockedList.set tid a).entries = (tid, a) :: s.blockedList.entries := by
    exact congrArg _ (Dict.erase_of_notMem hfree)
  have hstep : Bag.Step Meets s.bag (.wait tid a.ask) (s.block tid a).ts.bag := by
    unfold TupleSpace.bag TupleSpace.block
    rw [hset, asks_cons]
    exact .wait fun t ht hm => hm.not_skips (hskip t ht)
  exact .cons hstep (.nil _)

/-- A stored tuple meets a request, and is deleted if that takes it. -/
theorem answer_step {d : Bool} {c : List Tuple} (ht : t ∈ s.ts.contain) (hm : Matches t p)
    (hc : if d then deleteFirst t s.ts.contain = .ok c else c = s.ts.contain) :
    Bag.Step Meets s.bag (.answer tid ⟨p, d⟩ t) ⟨c, asks s.blockedList.entries⟩ := by
  unfold TupleSpace.bag
  cases d with
  | true =>
    have hitems : (s.ts.contain : Multiset Tuple) = t ::ₘ (c : Multiset Tuple) :=
      Multiset.coe_eq_coe.2 (deleteFirst_perm hs ht hc)
    rw [hitems]
    exact .answer (a := ⟨p, true⟩) hm
  | false =>
    obtain ⟨pre, post, hl⟩ := List.append_of_mem ht
    have hitems : (s.ts.contain : Multiset Tuple) = t ::ₘ ((pre ++ post : List Tuple) : Multiset Tuple) :=
      Multiset.coe_eq_coe.2 (hl ▸ List.perm_middle)
    have hc' : c = s.ts.contain := hc
    rw [hc', hitems]
    exact .answer (a := ⟨p, false⟩) hm

theorem rd_comes (hfree : tid ∉ s.blockedList.keys) (u : Bool) :
    Comes s.bag ((Op.rd tid p u).acts s) (s._rd tid p u).ts.bag := by
  unfold Op.acts
  dsimp only
  rcases TupleSpace._rd_cases (s := s) tid p u with ⟨hskip, he⟩ | ⟨pre, t, post, hl, -, hm, he⟩ | ⟨e, he⟩
  · rw [he]
    exact block_comes (a := ⟨p, u, false⟩) hfree hskip
  · rw [he]
    have ht : t ∈ s.ts.contain := hl ▸ List.mem_append_right pre List.mem_cons_self
    exact .cons (answer_step hs (d := false) ht hm rfl) (.nil _)
  · rw [he]
    exact .nil _

theorem in_comes (hfree : tid ∉ s.blockedList.keys) (u : Bool) :
    Comes s.bag ((Op.take tid p u).acts s) (s._in tid p u).ts.bag := by
  unfold Op.acts
  dsimp only
  rcases TupleSpace._in_cases (s := s) tid p u with
    ⟨hskip, he⟩ | ⟨pre, t, post, c, hl, -, hm, hd, he⟩ | ⟨e, -, he⟩
  · rw [he]
    exact block_comes (a := ⟨p, u, true⟩) hfree hskip
  · rw [he]
    have ht : t ∈ s.ts.contain := hl ▸ List.mem_append_right pre List.mem_cons_self
    exact .cons (answer_step hs (d := true) ht hm hd) (.nil _)
  · rw [he]
    exact .nil _

omit hs in
theorem finds_add (p : Tuple) (c : List Tuple) :
    (c : Multiset Tuple) = (finds p c : Multiset Tuple) + (c.filter fun t => ¬ Matches t p : List Tuple) :=
  Multiset.coe_eq_coe.2 ((filter_perm p c).trans List.perm_append_comm)

omit hs in
theorem finds_meet (p : Tuple) (c : List Tuple) :
    (∀ t ∈ (finds p c : Multiset Tuple), Meets p t) ∧
      ∀ t ∈ (c.filter fun t => ¬ Matches t p : List Tuple), ¬ Meets p t := by
  constructor <;> intro t ht
  · simpa [Meets] using (List.mem_filter.1 (Multiset.mem_coe.1 ht)).2
  · simpa [Meets] using (List.mem_filter.1 ht).2

theorem collect_comes (hp : p.IsTemplate) :
    Comes s.bag ((Op.collect p).acts s) (s.collect p).ts.bag := by
  unfold Op.acts
  dsimp only
  rcases hm : s.ts.matchTuples p with e | found
  · rw [TupleSpace.collect_error hm]
    exact .nil _
  · obtain ⟨rfl, -⟩ := matchAll_ok hm
    have hself : ∀ t ∈ s.ts.contain, Matches t t := fun t ht =>
      (matches_atoms_iff (hs.contain t ht).isTemplate (hs.contain t ht)).2 rfl
    have htold : ToldApart p [] s.ts.contain := by
      have hbooks : KeepsBooks s (.collect p) := keepsBooks_atoms hs hp
      rcases hbooks with ⟨e, he⟩ | htold | ⟨r, l, hfinds, e, he⟩
      · rw [hm] at he
        cases he
      · exact htold
      · -- no search raises on atoms
        have hr : r ∈ s.ts.contain := by
          have hr : r ∈ s.ts.contain.filter fun t => Matches t p := hfinds ▸ List.mem_cons_self
          exact (List.mem_filter.1 hr).1
        rcases matchFirst_cases r s.ts.contain with ⟨h, -⟩ | ⟨_, _, _, -, -, -, h⟩ |
          ⟨pre, t, post, e', hl, -, ⟨hne, hraise⟩, -⟩
        · rw [h] at he
          cases he
        · rw [h] at he
          cases he
        · have ht : t ∈ s.ts.contain := hl ▸ List.mem_append_right pre List.mem_cons_self
          rcases doesMatch_atoms (hs.contain t ht).isTemplate (hs.contain r hr) with ⟨h, -⟩ | ⟨h, -⟩
          · rw [Matches, hraise] at h
            cases h
          · rw [hraise] at h
            exact absurd (Except.error.inj h) hne
    have hdelete := deleteFound_toldApart hself (fun t ht => by cases ht) htold
    rw [List.nil_append, List.nil_append] at hdelete
    have hstep : Bag.Step Meets s.bag (.collect p (finds p s.ts.contain))
        ⟨(s.ts.contain.filter fun t => ¬ Matches t p : List Tuple), asks s.blockedList.entries⟩ := by
      unfold TupleSpace.bag
      rw [finds_add p s.ts.contain]
      exact .collect (finds_meet p _).1 (finds_meet p _).2
    rw [TupleSpace.collect_ok hm]
    unfold TupleSpace.bag
    simp only [deleteFound] at hdelete
    simp only [hdelete, List.map_map]
    rw [show (Prod.snd ∘ fun t : Tuple => (t, t)) = id from rfl, List.map_id]
    exact .cons hstep (.nil _)

omit hs in
theorem copyCollect_comes : Comes s.bag ((Op.copyCollect p).acts s) s.bag := by
  unfold Op.acts TupleSpace.copyCollect
  dsimp only
  rcases hm : s.ts.matchTuples p with e | found
  · exact .nil _
  · obtain ⟨rfl, -⟩ := matchAll_ok hm
    have hstep : Bag.Step Meets s.bag (.copy p (finds p s.ts.contain)) s.bag := by
      unfold TupleSpace.bag
      rw [finds_add p s.ts.contain]
      exact .copy (finds_meet p _).1 (finds_meet p _).2
    simp only [List.map_map]
    rw [show (Prod.snd ∘ fun t : Tuple => (t, t)) = id from rfl, List.map_id]
    exact .cons hstep (.nil _)

omit hs in
theorem unblockRandom_comes : Comes s.bag (Op.unblockRandom.acts s) s.unblockRandom.1.bag := by
  unfold Op.acts TupleSpace.unblockRandom
  dsimp only
  rcases hpick : pickUnblockable s.blockedList.entries with _ | tid
  · exact .nil _
  · obtain ⟨⟨tid, b⟩, hfind, rfl⟩ := Option.map_eq_some_iff.1 hpick
    have hget : s.blockedList.get? tid = some b := Dict.get?_eq_some (List.mem_of_find?_eq_some hfind)
    have hstep : Bag.Step Meets s.bag (.release tid b.ask)
        ⟨s.ts.contain, asks (s.blockedList.erase tid).entries⟩ := by
      unfold TupleSpace.bag
      rw [asks_perm (Dict.perm_erase hget), asks_cons]
      exact .release
    simp only [hget]
    exact .cons hstep (.nil _)

end

/-! ## Runs -/

theorem step_comes (hs : Atomic s) (hop : AtomOp s op) : Comes s.bag (op.acts s) (op.after s).bag := by
  cases op with
  | out tup => exact out_comes hs hop
  | rd tid p u => exact rd_comes hs hop.2 u
  | take tid p u => exact in_comes hs hop.2 u
  | collect p => exact collect_comes hs hop
  | copyCollect p =>
    show Comes s.bag _ (s.copyCollect p).ts.bag
    rw [copyCollect_ts]
    exact copyCollect_comes
  | unblockRandom => exact unblockRandom_comes
  | rehash blocked =>
    have hbag : (Op.after s (.rehash blocked)).bag = s.bag :=
      congrArg (Bag.mk _) (asks_perm hop.symm)
    rw [hbag]
    exact .nil _
  | tupleRequest | cancelRequest => cases hop

theorem atomic_init (id : TsId) : Atomic (TupleSpace.init id) where
  requests := rfl
  contain := nofun
  blocked := nofun

variable {id : TsId} {tr : List (TupleSpace × Op)} {s' : TupleSpace}

def tidD : Tid := ⟨⟨4⟩, 1⟩

/-- `in((5,))` blocks, then `out((5,))` wakes it. -/
def wakeOps : List Op := [.take tidD [.integer 5] false, .out [.integer 5]]

theorem wakeOps_run : Run (PartitionStep AtomOp) (.init .uts) (trace Op.after (.init .uts) wakeOps)
    (exec Op.after (.init .uts) wakeOps) := by
  refine .of_exec ?_
  simp [wakeOps, trace, PartitionStep, AtomOp, Tuple.IsTemplate, Tuple.IsAtoms, Value.IsAtom,
    TupleSpace.init, Dict.empty, Dict.keys]

end PyLinda
