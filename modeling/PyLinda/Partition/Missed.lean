import PyLinda.Partition.Step

/-!
# No missed match

Readers scan the stored tuples with `doesMatch(t, pattern)`, writers scan the
blocked patterns with `doesMatch(pattern, t)`. The two agree on atoms, but a type
formal is a formal only on the right, so the writer's scan never wakes a reader
whose pattern holds one.
-/

namespace PyLinda

open Lib

/-- No stored tuple passes the test of `matchTuples` for a blocked pattern. -/
def NoMissed (s : TupleSpace) : Prop :=
  ∀ t ∈ s.ts.contain, ∀ x ∈ s.blockedList.entries,
    ¬ (t.length = x.2.pattern.length ∧ Matches t x.2.pattern)

/-- Tuples of atoms, templates with formals, and no request from a thread that
is still blocked. -/
def AtomOp (s : TupleSpace) : Op → Prop
  | .out tup => tup.IsAtoms
  | .rd tid pattern _ | .take tid pattern _ => pattern.IsTemplate ∧ tid ∉ s.blockedList.keys
  | .collect pattern | .copyCollect pattern => pattern.IsTemplate
  | .tupleRequest _ _ | .cancelRequest _ _ => False
  | .unblockRandom => True
  | .rehash blocked => s.blockedList.Rehash blocked

/-- An `out` of `tup` leaves nothing behind when a blocked taker asks for just
`tup`, or when no blocked pattern that `tup` matches holds a type formal. -/
def SeesMatches (s : TupleSpace) : Op → Prop
  | .out tup =>
    (∃ x ∈ s.blockedList.entries, x.2.destructive = true ∧ x.2.pattern = tup) ∨
      ∀ x ∈ s.blockedList.entries, Matches tup x.2.pattern → ¬ x.2.pattern.HasFormal
  | _ => True

/-- What the steps keep without any condition. -/
structure Atomic (s : TupleSpace) : Prop where
  requests : s.requests = []
  contain : ∀ t ∈ s.ts.contain, t.IsAtoms
  blocked : ∀ x ∈ s.blockedList.entries, x.2.pattern.IsTemplate

variable {s : TupleSpace} {op : Op}

theorem AtomOp.anyOp (h : AtomOp s op) : AnyOp s op := by
  cases op <;> first | exact trivial | exact h

theorem AtomOp.isLocal (h : AtomOp s op) : op.IsLocal := by
  cases op <;> first | exact trivial | exact h

theorem AtomOp.request (h : AtomOp s op) {tid : Tid} {p : Tuple}
    (hr : op.request = some (tid, p)) : p.IsTemplate := by
  cases op with
  | rd | take =>
    simp only [Op.request, Option.some.injEq, Prod.mk.injEq] at hr
    exact hr.2 ▸ h.1
  | _ => cases hr

theorem Atomic.after (hs : Atomic s) (hop : AtomOp s op) : Atomic (op.after s) where
  requests := by rw [after_requests hop.isLocal, hs.requests]
  contain t ht := by
    rcases mem_after_contain ht with h | ⟨rfl, -, -⟩
    · exact hs.contain t h
    · exact hop
  blocked x hx := by
    rcases mem_after_blocked hop.anyOp hx with h | ⟨h, -, -⟩
    · exact hs.blocked x h
    · exact hop.request h

/-- On templates and atoms nothing but a taker stops the scan. -/
theorem stops_atoms_iff {x : Tid × Blocked} {tup : Tuple} (hx : x.2.pattern.IsTemplate)
    (ht : tup.IsAtoms) : Stops tup x ↔ x.2.destructive = true ∧ x.2.pattern = tup := by
  rw [Stops, matches_atoms_iff hx ht, and_comm, or_iff_left]
  rintro ⟨e, he, hr⟩
  rcases doesMatch_atoms hx ht with ⟨h, -⟩ | ⟨h, -⟩
  · rw [Matches, hr] at h; cases h
  · rw [hr] at h
    cases h
    exact he rfl

/-- The tuple that `out` stores is missed by a reader exactly when it matches a
pattern with a formal. -/
theorem noMissed_out_iff (hs : Atomic s) (hm : NoMissed s) {tup : Tuple} (ht : tup.IsAtoms) :
    NoMissed (s._out tup).ts ↔ SeesMatches s (.out tup) := by
  have hsub := (checkBlocked_sublist tup s.blockedList.entries).subset
  rcases checkBlocked_end tup s.blockedList.entries with
    ⟨hend, hno, hstay⟩ | ⟨pre, x, post, hl, -, hxm, hxd, hend⟩ | ⟨pre, x, post, e, hl, -, hr, hend⟩
  · -- nobody takes the tuple: it is stored next to the readers that were passed over
    have hc : (s._out tup).ts.ts.contain = s.ts.contain ++ [tup] := by
      rcases TupleSpace._out_cases hs.requests tup with ⟨-, h, -⟩ | ⟨h, -⟩ | ⟨e, h, -⟩
      · exact h
      · rw [hend] at h; cases h
      · rw [hend] at h; cases h
    have hleft : ¬ ∃ x ∈ s.blockedList.entries, x.2.destructive = true ∧ x.2.pattern = tup := by
      rintro ⟨x, hx, hd, hp⟩
      exact hno x hx ((stops_atoms_iff (hs.blocked x hx) ht).2 ⟨hd, hp⟩)
    simp only [NoMissed, hc, TupleSpace._out_blockedList, SeesMatches, or_iff_right hleft]
    constructor
    · intro h x hx hmx hf
      have hskip : Skips x.2.pattern tup := by
        rcases doesMatch_atoms (hs.blocked x hx) ht with ⟨-, he⟩ | ⟨h', -⟩
        · exact absurd hf (he ▸ ht.not_hasFormal)
        · exact h'
      exact h tup (by simp) x (mem_stay_of_skips hx hskip) ⟨hmx.length_eq, hmx⟩
    · rintro h t htm x hx ⟨hlen, hmx⟩
      rcases List.mem_append.1 htm with htm | htm
      · exact hm t htm x (hsub hx) ⟨hlen, hmx⟩
      · obtain rfl := List.mem_singleton.1 htm
        have hpa : x.2.pattern.IsAtoms := (hs.blocked x (hsub hx)).isAtoms (h x (hsub hx) hmx)
        have he : t = x.2.pattern := (matches_atoms_iff ht.isTemplate hpa).1 hmx
        exact ((matches_atoms_iff hpa.isTemplate ht).2 he.symm).not_skips (hstay x hx)
  · -- a taker gets it
    have hx : x ∈ s.blockedList.entries := hl ▸ List.mem_append_right pre List.mem_cons_self
    have hc : (s._out tup).ts.ts = s.ts := by
      rcases TupleSpace._out_cases hs.requests tup with ⟨h, -⟩ | ⟨-, h, -⟩ | ⟨e, h, -⟩
      · rw [hend] at h; cases h
      · exact h
      · rw [hend] at h; cases h
    have hsees : SeesMatches s (.out tup) :=
      .inl ⟨x, hx, hxd, (matches_atoms_iff (hs.blocked x hx) ht).1 hxm⟩
    refine iff_of_true ?_ hsees
    simp only [NoMissed, hc, TupleSpace._out_blockedList]
    exact fun t htm y hy => hm t htm y (hsub hy)
  · have hx : x ∈ s.blockedList.entries := hl ▸ List.mem_append_right pre List.mem_cons_self
    have hst : Stops tup x := .inr ⟨e, hr⟩
    have hxm := (matches_atoms_iff (hs.blocked x hx) ht).2
      ((stops_atoms_iff (hs.blocked x hx) ht).1 hst).2
    rw [Matches, hr.2] at hxm
    cases hxm

/-- No other step misses a match. -/
theorem NoMissed.after (hm : NoMissed s) (hop : AtomOp s op) (hput : op.put = []) :
    NoMissed (op.after s) := by
  rintro t ht x hx ⟨hlen, hmx⟩
  rcases mem_after_blocked hop.anyOp hx with h | ⟨-, hskip, hts⟩
  · rcases mem_after_contain ht with h' | ⟨rfl, -, -⟩
    · exact hm t h' x h ⟨hlen, hmx⟩
    · cases hput
  · exact hmx.not_skips (hskip t (hts ▸ ht))

theorem noMissed_after_iff (hs : Atomic s) (hm : NoMissed s) (hop : AtomOp s op) :
    NoMissed (op.after s) ↔ SeesMatches s op := by
  cases op with
  | out tup => exact noMissed_out_iff hs hm hop
  | _ => exact iff_of_true (hm.after hop rfl) trivial

/-- A run from the empty partition misses no match exactly when each of its
outs sees the matches there are. -/
theorem noMissed_throughout_iff {id : TsId} {tr : List (TupleSpace × Op)} {s' : TupleSpace}
    (h : Run (PartitionStep AtomOp) (TupleSpace.init id) tr s') :
    Throughout NoMissed tr s' ↔ ∀ x ∈ tr, SeesMatches x.1 x.2 := by
  have hinit : Atomic (TupleSpace.init id) :=
    ⟨rfl, by simp [TupleSpace.init], by simp [TupleSpace.init, Dict.empty]⟩
  refine h.throughout_iff (I := Atomic) ?_ ?_ hinit (by simp [NoMissed, TupleSpace.init])
  · rintro s op _ hs - - ⟨hop, rfl⟩
    exact hs.after hop
  · rintro s op _ hs hm ⟨hop, rfl⟩
    exact noMissed_after_iff hs hm hop

/-! ## A reader with a formal -/

def tidA : Tid := ⟨⟨1⟩, 1⟩

/-- `in((int,))` blocks, then `out((5,))` leaves `(5,)` in store. -/
theorem missed_formal :
    let ops := [.take tidA [.type longType] false, .out [.integer 5]]
    Run (PartitionStep AtomOp) (.init .uts) (trace Op.after (.init .uts) ops)
      (exec Op.after (.init .uts) ops) ∧ ¬ NoMissed (exec Op.after (.init .uts) ops) := by
  refine ⟨.of_exec ?_, fun h => ?_⟩
  · simp [trace, PartitionStep, AtomOp, Tuple.IsTemplate, Tuple.IsAtoms, Value.IsAtom,
      Value.isType, TupleSpace.init, Dict.empty, Dict.keys]
  · exact h [.integer 5] List.mem_cons_self _ List.mem_cons_self ⟨rfl, by decide⟩

/-- With `in((5,))` the writer's scan sees the reader. -/
theorem noMissed_throughout_value :
    let ops := [.take tidA [.integer 5] false, .out [.integer 5]]
    Throughout NoMissed (trace Op.after (.init .uts) ops) (exec Op.after (.init .uts) ops) := by
  refine (@noMissed_throughout_iff .uts _ _ (.of_exec ?_)).2 ?_
  · simp [trace, PartitionStep, AtomOp, Tuple.IsTemplate, Tuple.IsAtoms, Value.IsAtom,
      TupleSpace.init, Dict.empty, Dict.keys]
  · simp only [trace, List.forall_mem_cons]
    exact ⟨trivial, .inl ⟨_, List.mem_cons_self, rfl, rfl⟩, by simp⟩

end PyLinda
