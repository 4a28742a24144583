import PyLinda.Lib.Run
import PyLinda.TupleSpace

/-!
# Runs of one partition

Each operation of a `TupleSpace` holds its lock, so a run of one partition is a
sequence of whole operations, in any order. `rehash` lets the iteration order of
`blocked_list` change between them.
-/

namespace PyLinda

open Lib

/-- One step of a partition. -/
inductive Op where
  | out (tup : Tuple)
  | rd (tid : Tid) (pattern : Tuple) (unblockable : Bool)
  | take (tid : Tid) (pattern : Tuple) (unblockable : Bool)
  | collect (pattern : Tuple)
  | copyCollect (pattern : Tuple)
  | tupleRequest (node : NodeId) (pattern : Tuple)
  | cancelRequest (node : NodeId) (pattern : Tuple)
  | unblockRandom
  | rehash (blocked : Dict Tid Blocked)

namespace Op

/-- The partition after the step, exceptions included. -/
def after (s : TupleSpace) : Op → TupleSpace
  | out tup => (s._out tup).ts
  | rd tid pattern u => (s._rd tid pattern u).ts
  | take tid pattern u => (s._in tid pattern u).ts
  | collect pattern => (s.collect pattern).ts
  | copyCollect pattern => (s.copyCollect pattern).ts
  | tupleRequest node pattern => (s.tupleRequest node pattern).ts
  | cancelRequest node pattern => s.cancelRequest node pattern
  | unblockRandom => s.unblockRandom.1
  | rehash blocked => { s with blockedList := blocked }

/-- The request a step makes: the thread and its pattern. -/
def request : Op → Option (Tid × Tuple)
  | rd tid pattern _ | take tid pattern _ => some (tid, pattern)
  | _ => none

/-- The tuple a step passes to `_out`. -/
def put : Op → List Tuple
  | out tup => [tup]
  | _ => []

/-- The tuple of an `_out` that returns normally. -/
def accepted (s : TupleSpace) : Op → List Tuple
  | out tup =>
    match (s._out tup).result with
    | .ok () => [tup]
    | .error _ => []
  | _ => []

/-- Operations of clients of this server: no other node takes part. -/
def IsLocal : Op → Prop
  | tupleRequest _ _ | cancelRequest _ _ => False
  | _ => True

end Op

/-- A step that `Legal` admits. -/
def PartitionStep (Legal : TupleSpace → Op → Prop) (s : TupleSpace) (op : Op) (s' : TupleSpace) :
    Prop :=
  Legal s op ∧ s' = op.after s

/-- Any operation; a rehash keeps the entries. -/
def AnyOp (s : TupleSpace) : Op → Prop
  | .rehash blocked => s.blockedList.Rehash blocked
  | _ => True

variable {s : TupleSpace} {op : Op}

/-! ## What a step can change -/

@[simp] theorem block_ts (tid : Tid) (b : Blocked) : (s.block tid b).ts.ts = s.ts := rfl

@[simp] theorem block_requests (tid : Tid) (b : Blocked) :
    (s.block tid b).ts.requests = s.requests := rfl

theorem mem_block {tid : Tid} {b : Blocked} {x : Tid × Blocked} :
    x ∈ (s.block tid b).ts.blockedList.entries ↔
      x = (tid, b) ∨ x ∈ s.blockedList.entries ∧ x.1 ≠ tid :=
  Dict.mem_set

theorem collect_frame (pattern : Tuple) :
    (s.collect pattern).ts = { s with ts := (s.collect pattern).ts.ts } ∧
      (s.collect pattern).ts.ts.contain.Sublist s.ts.contain := by
  rcases h : s.ts.matchTuples pattern with e | l
  · rw [TupleSpace.collect_error h]
    exact ⟨rfl, List.Sublist.refl _⟩
  · rw [TupleSpace.collect_ok h]
    exact ⟨rfl, deleteAll_sublist s.ts l⟩

theorem copyCollect_ts (pattern : Tuple) : (s.copyCollect pattern).ts = s := by
  unfold TupleSpace.copyCollect
  rcases s.ts.matchTuples pattern with e | l <;> rfl

theorem unblockRandom_frame :
    s.unblockRandom.1.ts = s.ts ∧ s.unblockRandom.1.requests = s.requests ∧
      s.unblockRandom.1.blockedList.entries.Sublist s.blockedList.entries := by
  unfold TupleSpace.unblockRandom
  rcases pickUnblockable s.blockedList.entries with _ | p
  · exact ⟨rfl, rfl, List.Sublist.refl _⟩
  · exact ⟨rfl, rfl, List.filter_sublist⟩

theorem after_requests (hop : op.IsLocal) : (op.after s).requests = s.requests := by
  cases op with
  | out tup => exact TupleSpace._out_requests tup
  | rd tid p u =>
    rcases TupleSpace._rd_cases (s := s) tid p u with ⟨-, h⟩ | ⟨_, _, _, -, -, -, h⟩ | ⟨_, h⟩ <;>
      simp [Op.after, h]
  | take tid p u =>
    rcases TupleSpace._in_cases (s := s) tid p u with
      ⟨-, h⟩ | ⟨_, _, _, _, -, -, -, -, h⟩ | ⟨_, -, h⟩ <;> simp [Op.after, h]
  | collect p => simp only [Op.after]; rw [(collect_frame p).1]
  | copyCollect p => simp only [Op.after, copyCollect_ts]
  | tupleRequest | cancelRequest => cases hop
  | unblockRandom => exact unblockRandom_frame.2.1
  | rehash d => rfl

/-- A stored tuple was stored before, or this step put it in: then the scan of the
blocked readers passed it over. -/
theorem mem_after_contain {t : Tuple} (h : t ∈ (op.after s).ts.contain) :
    t ∈ s.ts.contain ∨
      op = .out t ∧ op.accepted s = [t] ∧
        (checkBlocked t s.blockedList.entries).2.2 = .passed := by
  cases op with
  | out tup =>
    rcases TupleSpace._out_contain (s := s) tup with hc | ⟨hp, hc, hr⟩
    · exact .inl (by simpa [Op.after, hc] using h)
    · simp only [Op.after, hc, List.mem_append, List.mem_singleton] at h
      rcases h with h | rfl
      · exact .inl h
      · exact .inr ⟨rfl, by simp [Op.accepted, hr], hp⟩
  | rd tid p u =>
    rcases TupleSpace._rd_cases (s := s) tid p u with ⟨-, he⟩ | ⟨_, _, _, -, -, -, he⟩ | ⟨_, he⟩ <;>
      exact .inl (by simpa [Op.after, he] using h)
  | take tid p u =>
    rcases TupleSpace._in_cases (s := s) tid p u with
      ⟨-, he⟩ | ⟨_, _, _, c, -, -, -, hd, he⟩ | ⟨_, -, he⟩
    · exact .inl (by simpa [Op.after, he] using h)
    · exact .inl ((deleteFirst_sublist hd).subset (by simpa [Op.after, he] using h))
    · exact .inl (by simpa [Op.after, he] using h)
  | collect p => exact .inl ((collect_frame p).2.subset h)
  | copyCollect p => exact .inl (by simpa [Op.after, copyCollect_ts] using h)
  | tupleRequest n p => exact .inl ((TupleSpace.tupleRequest_frame n p).1.subset h)
  | cancelRequest n p => exact .inl h
  | unblockRandom => exact .inl (by simpa [Op.after, unblockRandom_frame.1] using h)
  | rehash d => exact .inl h

/-- A blocked reader was blocked before, or this step blocked it: then nothing
stored matched its pattern. -/
theorem mem_after_blocked (hop : AnyOp s op) {x : Tid × Blocked}
    (h : x ∈ (op.after s).blockedList.entries) :
    x ∈ s.blockedList.entries ∨
      op.request = some (x.1, x.2.pattern) ∧ (∀ t ∈ s.ts.contain, Skips t x.2.pattern) ∧
        (op.after s).ts = s.ts := by
  cases op with
  | out tup => exact .inl ((checkBlocked_sublist tup _).subset (by simpa [Op.after] using h))
  | rd tid p u =>
    rcases TupleSpace._rd_cases (s := s) tid p u with
      ⟨hs, he⟩ | ⟨_, _, _, -, -, -, he⟩ | ⟨_, he⟩
    · simp only [Op.after, he, mem_block] at h
      rcases h with rfl | ⟨h, -⟩
      · exact .inr ⟨rfl, hs, by simp [Op.after, he]⟩
      · exact .inl h
    · exact .inl (by simpa [Op.after, he] using h)
    · exact .inl (by simpa [Op.after, he] using h)
  | take tid p u =>
    rcases TupleSpace._in_cases (s := s) tid p u with
      ⟨hs, he⟩ | ⟨_, _, _, _, -, -, -, -, he⟩ | ⟨_, -, he⟩
    · simp only [Op.after, he, mem_block] at h
      rcases h with rfl | ⟨h, -⟩
      · exact .inr ⟨rfl, hs, by simp [Op.after, he]⟩
      · exact .inl h
    · exact .inl (by simpa [Op.after, he] using h)
    · exact .inl (by simpa [Op.after, he] using h)
  | collect p =>
    simp only [Op.after] at h
    rw [(collect_frame p).1] at h
    exact .inl h
  | copyCollect p => exact .inl (by simpa [Op.after, copyCollect_ts] using h)
  | tupleRequest n p =>
    simp only [Op.after, (TupleSpace.tupleRequest_frame n p).2] at h
    exact .inl h
  | cancelRequest n p => exact .inl h
  | unblockRandom => exact .inl (unblockRandom_frame.2.2.subset h)
  | rehash d => exact .inl ((Dict.Rehash.mem_iff hop).1 h)

end PyLinda
