import PyLinda.Lib.Dict
import PyLinda.TupleContainer

/-!
# TupleSpace

One partition of a tuplespace and its operations. Each operation here holds
`self.lock` from its first access to its last, so it is one step; what it starts
in a new thread is listed in the outcome and runs later.
-/

namespace PyLinda

open Lib

/-- An owner in a list of references. Where the server passes the `TupleSpace`
object instead of its id, the entry it looks for is that object. -/
inductive Holder where
  | proc (pid : Pid)
  | ts (tsid : TsId)
  | obj (tsid : TsId)
  deriving DecidableEq, Repr

/-- An entry of `blocked_list`. -/
structure Blocked where
  pattern : Tuple
  unblockable : Bool
  destructive : Bool

structure TupleSpace where
  id : TsId
  ts : TupleContainer
  refs : List Holder
  blockedList : Dict Tid Blocked
  requests : List (NodeId × Tuple)
  partitions : List NodeId
  /-- The counter of the semaphore. -/
  killlock : Nat

/-- A thread an operation starts: `do_return_tuple` for a woken reader or for a
remote request, and `add_tuples` after a reader has blocked. -/
inductive Spawn where
  | returnTuple (tid : Tid) (matched pattern : Tuple)
  | forward (node : NodeId) (matched : Tuple)
  | addTuples (pattern : Tuple)

/-- What an operation leaves behind, whether it returned or raised. -/
structure Outcome (α : Type) where
  ts : TupleSpace
  spawned : List Spawn
  result : Except PyExc α

/-- How the scan of the blocked readers ended. -/
inductive Scan where
  | passed
  | taken
  | raised (e : PyExc)

/-- The loop over `blocked_list` in `_out`: the entries that stay, the threads
that wake, and how the loop ended. -/
def checkBlocked (tup : Tuple) : List (Tid × Blocked) → List (Tid × Blocked) × List Spawn × Scan
  | [] => ([], [], .passed)
  | (tid, b) :: rest =>
    match doesMatch b.pattern tup with
    | .error .noTupleMatch =>
      let (stay, woken, s) := checkBlocked tup rest
      ((tid, b) :: stay, woken, s)
    | .error e => ((tid, b) :: rest, [], .raised e)
    | .ok matched =>
      if b.destructive then (rest, [.returnTuple tid matched b.pattern], .taken)
      else
        let (stay, woken, s) := checkBlocked tup rest
        (stay, .returnTuple tid matched b.pattern :: woken, s)

/-- The loop over `requests` in `_out`: the first that matches gets the tuple. -/
def checkRequests (tup : Tuple) : List (NodeId × Tuple) → Except PyExc (Option Spawn)
  | [] => .ok none
  | (node, pattern) :: rest =>
    match doesMatch pattern tup with
    | .error .noTupleMatch => checkRequests tup rest
    | .error e => .error e
    | .ok matched => .ok (some (.forward node matched))

theorem checkBlocked_sublist (tup : Tuple) (l : List (Tid × Blocked)) :
    (checkBlocked tup l).1.Sublist l := by
  induction l with
  | nil => exact List.Sublist.refl []
  | cons x rest ih =>
    obtain ⟨tid, b⟩ := x
    simp only [checkBlocked]
    split
    · exact ih.cons_cons _
    · exact List.Sublist.refl _
    · split
      · exact List.sublist_cons_self _ _
      · exact ih.cons _

/-- The entry `unblockRandom` settles on: the first that may be unblocked. -/
def pickUnblockable (l : List (Tid × Blocked)) : Option Tid :=
  (l.find? fun e => e.2.unblockable).map Prod.fst

/-- `collect`'s loop of deletions; what was deleted before an exception stays
deleted. -/
def deleteAll (c : TupleContainer) : List (Tuple × Tuple) → TupleContainer × Option PyExc
  | [] => (c, none)
  | t :: ts =>
    match c.delete t.1 with
    | .error e => (c, some e)
    | .ok c' => deleteAll c' ts

namespace TupleSpace

/-- `__init__` for a tuplespace no other node knows. -/
def init (id : TsId) : TupleSpace :=
  { id, ts := ⟨[]⟩, refs := [], blockedList := .empty, requests := [], partitions := [],
    killlock := 1 }

def _out (self : TupleSpace) (tup : Tuple) : Outcome Unit :=
  let r := checkBlocked tup self.blockedList.entries
  let self' := { self with
    blockedList := self.blockedList.restrict r.1 (checkBlocked_sublist tup _) }
  match r.2.2 with
  | .raised e => ⟨self', r.2.1, .error e⟩
  | .taken => ⟨self', r.2.1, .ok ()⟩
  | .passed =>
    match checkRequests tup self.requests with
    | .error e => ⟨self', r.2.1, .error e⟩
    | .ok (some f) => ⟨self', r.2.1 ++ [f], .ok ()⟩
    | .ok none => ⟨{ self' with ts := self.ts.add tup }, r.2.1, .ok ()⟩

/-- The `StopIteration` branch of `_rd` and `_in`. -/
def block (self : TupleSpace) (tid : Tid) (b : Blocked) : Outcome (Option Tuple) :=
  ⟨{ self with blockedList := self.blockedList.set tid b }, [.addTuples b.pattern], .ok none⟩

/-- `none` is Python's `None`: the reader is blocked. -/
def _rd (self : TupleSpace) (tid : Tid) (pattern : Tuple) (unblockable : Bool) :
    Outcome (Option Tuple) :=
  match self.ts.matchOneTuple pattern with
  | .error e => ⟨self, [], .error e⟩
  | .ok none => self.block tid ⟨pattern, unblockable, false⟩
  | .ok (some (_, matched)) => ⟨self, [], .ok (some matched)⟩

def _in (self : TupleSpace) (tid : Tid) (pattern : Tuple) (unblockable : Bool) :
    Outcome (Option Tuple) :=
  match self.ts.matchOneTuple pattern with
  | .error e => ⟨self, [], .error e⟩
  | .ok none => self.block tid ⟨pattern, unblockable, true⟩
  | .ok (some (real, matched)) =>
    match self.ts.delete real with
    | .error e => ⟨self, [], .error e⟩
    | .ok c => ⟨{ self with ts := c }, [], .ok (some matched)⟩

/-- The thread taken off `blocked_list`, which `unblock_thread` is to answer. -/
def unblockRandom (self : TupleSpace) : TupleSpace × Option Tid :=
  match pickUnblockable self.blockedList.entries with
  | none => (self, none)
  | some p => ({ self with blockedList := self.blockedList.erase p }, some p)

def collect (self : TupleSpace) (pattern : Tuple) : Outcome (List Tuple) :=
  match self.ts.matchTuples pattern with
  | .error e => ⟨self, [], .error e⟩
  | .ok tups =>
    match deleteAll self.ts tups with
    | (c, some e) => ⟨{ self with ts := c }, [], .error e⟩
    | (c, none) => ⟨{ self with ts := c }, [], .ok (tups.map Prod.snd)⟩

/-- The request is remembered whether or not a tuple is found, and the tuple is
returned as the pair that `matchOneTuple` found. -/
def tupleRequest (self : TupleSpace) (node : NodeId) (pattern : Tuple) :
    Outcome (List (Tuple × Tuple)) :=
  let self' := { self with requests := self.requests ++ [(node, pattern)] }
  match self.ts.matchOneTuple pattern with
  | .error e => ⟨self', [], .error e⟩
  | .ok none => ⟨self', [], .ok []⟩
  | .ok (some t) =>
    match self.ts.delete t.1 with
    | .error e => ⟨self', [], .error e⟩
    | .ok c => ⟨{ self' with ts := c }, [], .ok [t]⟩

/-- `ValueError` is caught and only reported. -/
def cancelRequest (self : TupleSpace) (node : NodeId) (pattern : Tuple) : TupleSpace :=
  { self with requests := self.requests.eraseP fun r => r.1 = node && Tuple.pyEq r.2 pattern }

def copyCollect (self : TupleSpace) (pattern : Tuple) : Outcome (List Tuple) :=
  match self.ts.matchTuples pattern with
  | .error e => ⟨self, [], .error e⟩
  | .ok tups => ⟨self, [], .ok (tups.map Prod.snd)⟩

end TupleSpace

/-! ## The scan of the blocked readers -/

/-- The scan ends at this entry: a taker whose pattern matches, or an exception. -/
def Stops (tup : Tuple) (x : Tid × Blocked) : Prop :=
  Matches x.2.pattern tup ∧ x.2.destructive = true ∨ ∃ e, Raises x.2.pattern tup e

/-- The scan for `tup` gets to the entry `x`. -/
def Visited (tup : Tuple) (l : List (Tid × Blocked)) (x : Tid × Blocked) : Prop :=
  ∃ pre post, l = pre ++ x :: post ∧ ∀ y ∈ pre, ¬ Stops tup y

theorem visited_cons_self (tup : Tuple) (x : Tid × Blocked) (l : List (Tid × Blocked)) :
    Visited tup (x :: l) x :=
  ⟨[], l, rfl, by simp⟩

theorem Visited.cons {tup : Tuple} {x y : Tid × Blocked} {l : List (Tid × Blocked)}
    (h : Visited tup l x) (hy : ¬ Stops tup y) : Visited tup (y :: l) x := by
  obtain ⟨pre, post, rfl, hpre⟩ := h
  exact ⟨y :: pre, post, rfl, List.forall_mem_cons.2 ⟨hy, hpre⟩⟩

theorem visited_cons_iff {tup : Tuple} {x y : Tid × Blocked} {l : List (Tid × Blocked)} :
    Visited tup (y :: l) x ↔ x = y ∨ ¬ Stops tup y ∧ Visited tup l x := by
  constructor
  · rintro ⟨_ | ⟨z, pre⟩, post, h, hpre⟩
    · cases h
      exact .inl rfl
    · cases h
      rw [List.forall_mem_cons] at hpre
      exact .inr ⟨hpre.1, pre, post, rfl, hpre.2⟩
  · rintro (rfl | ⟨hy, h⟩)
    · exact visited_cons_self tup x l
    · exact h.cons hy

theorem Skips.not_stops {tup : Tuple} {x : Tid × Blocked} (h : Skips x.2.pattern tup) :
    ¬ Stops tup x := by
  rintro (⟨hm, -⟩ | ⟨e, he, hr⟩)
  · exact hm.not_skips h
  · rw [Skips, hr] at h
    cases h
    exact he rfl

theorem not_stops_of_read {tup : Tuple} {x : Tid × Blocked} (h : Matches x.2.pattern tup)
    (hd : x.2.destructive = false) : ¬ Stops tup x := by
  rintro (⟨-, h'⟩ | ⟨e, he, hr⟩)
  · rw [hd] at h'; cases h'
  · rw [Matches, hr] at h; cases h

theorem Visited.mem {tup : Tuple} {l : List (Tid × Blocked)} {x : Tid × Blocked}
    (h : Visited tup l x) : x ∈ l := by
  obtain ⟨pre, post, rfl, -⟩ := h
  simp

/-- The scan gets to one entry that stops it at most. -/
theorem Visited.stops_unique {tup : Tuple} {l : List (Tid × Blocked)} {x y : Tid × Blocked}
    (hx : Visited tup l x) (hy : Visited tup l y) (hsx : Stops tup x) (hsy : Stops tup y) :
    x = y := by
  induction l with
  | nil => cases hx.mem
  | cons z l ih =>
    rcases visited_cons_iff.1 hx with rfl | ⟨hz, hx⟩
    · rcases visited_cons_iff.1 hy with rfl | ⟨hz, -⟩
      · rfl
      · exact absurd hsx hz
    · rcases visited_cons_iff.1 hy with rfl | ⟨-, hy⟩
      · exact absurd hsy hz
      · exact ih hx hy

/-- What one entry does to the scan. -/
theorem checkBlocked_cons (tup : Tuple) (tid : Tid) (b : Blocked) (l : List (Tid × Blocked)) :
    (Skips b.pattern tup ∧ checkBlocked tup ((tid, b) :: l) =
      ((tid, b) :: (checkBlocked tup l).1, (checkBlocked tup l).2)) ∨
    (∃ e, Raises b.pattern tup e ∧
      checkBlocked tup ((tid, b) :: l) = ((tid, b) :: l, [], .raised e)) ∨
    (Matches b.pattern tup ∧ b.destructive = true ∧ checkBlocked tup ((tid, b) :: l) =
      (l, [.returnTuple tid b.pattern b.pattern], .taken)) ∨
    (Matches b.pattern tup ∧ b.destructive = false ∧ checkBlocked tup ((tid, b) :: l) =
      ((checkBlocked tup l).1, .returnTuple tid b.pattern b.pattern :: (checkBlocked tup l).2.1,
        (checkBlocked tup l).2.2)) := by
  rcases doesMatch_cases b.pattern tup with h | h | ⟨e, he, h⟩
  · have hm : doesMatch b.pattern tup = .ok b.pattern := h
    rcases hd : b.destructive with _ | _
    · exact .inr (.inr (.inr ⟨h, rfl, by simp [checkBlocked, hm, hd]⟩))
    · exact .inr (.inr (.inl ⟨h, rfl, by simp [checkBlocked, hm, hd]⟩))
  · exact .inl ⟨h, by simp only [checkBlocked, h]⟩
  · exact .inr (.inl ⟨e, ⟨he, h⟩, by cases e <;> simp_all [checkBlocked]⟩)

/-- The threads the scan wakes: one for each entry it gets to whose pattern
matches, each handed its own pattern. -/
theorem mem_woken_iff {tup : Tuple} {l : List (Tid × Blocked)} {sp : Spawn} :
    sp ∈ (checkBlocked tup l).2.1 ↔ ∃ x, Visited tup l x ∧ Matches x.2.pattern tup ∧
      sp = .returnTuple x.1 x.2.pattern x.2.pattern := by
  induction l with
  | nil => simp [checkBlocked, Visited]
  | cons y l ih =>
    obtain ⟨tid, b⟩ := y
    simp only [visited_cons_iff, or_and_right, exists_or, exists_eq_left]
    rcases checkBlocked_cons tup tid b l with ⟨hs, he⟩ | ⟨e, hr, he⟩ | ⟨hm, hd, he⟩ | ⟨hm, hd, he⟩
    · have hns : ¬ Stops tup (tid, b) := Skips.not_stops hs
      have hnm : ¬ Matches b.pattern tup := fun hm => hm.not_skips hs
      simp [he, ih, hns, hnm]
    · have hst : Stops tup (tid, b) := .inr ⟨e, hr⟩
      have hnm : ¬ Matches b.pattern tup := by
        intro hm
        rw [Matches, hr.2] at hm
        cases hm
      simp [he, hst, hnm]
    · have hst : Stops tup (tid, b) := .inl ⟨hm, hd⟩
      simp [he, hst, hm]
    · have hns : ¬ Stops tup (tid, b) := not_stops_of_read (x := (tid, b)) hm hd
      simp [he, ih, hns, hm]

/-- How the scan ends, and what stays: with nobody stopping it, the entries
passed over; otherwise those and everything behind the entry that stopped it,
with the entry itself when it raised. -/
theorem checkBlocked_end (tup : Tuple) (l : List (Tid × Blocked)) :
    ((checkBlocked tup l).2.2 = .passed ∧ (∀ x ∈ l, ¬ Stops tup x) ∧
      ∀ x ∈ (checkBlocked tup l).1, Skips x.2.pattern tup) ∨
    (∃ pre x post, l = pre ++ x :: post ∧ (∀ y ∈ pre, ¬ Stops tup y) ∧
      Matches x.2.pattern tup ∧ x.2.destructive = true ∧ (checkBlocked tup l).2.2 = .taken) ∨
    (∃ pre x post e, l = pre ++ x :: post ∧ (∀ y ∈ pre, ¬ Stops tup y) ∧
      Raises x.2.pattern tup e ∧ (checkBlocked tup l).2.2 = .raised e) := by
  induction l with
  | nil => exact .inl ⟨rfl, by simp, by simp [checkBlocked]⟩
  | cons y l ih =>
    obtain ⟨tid, b⟩ := y
    rcases checkBlocked_cons tup tid b l with ⟨hs, he⟩ | ⟨e, hr, he⟩ | ⟨hm, hd, he⟩ | ⟨hm, hd, he⟩
    · have hns : ¬ Stops tup (tid, b) := Skips.not_stops hs
      rw [he]
      rcases ih with ⟨h1, h2, h3⟩ | ⟨pre, x, post, rfl, h2, h3⟩ | ⟨pre, x, post, e, rfl, h2, h3⟩
      · exact .inl ⟨h1, List.forall_mem_cons.2 ⟨hns, h2⟩, List.forall_mem_cons.2 ⟨hs, h3⟩⟩
      · exact .inr (.inl ⟨_ :: pre, x, post, rfl, List.forall_mem_cons.2 ⟨hns, h2⟩, h3⟩)
      · exact .inr (.inr ⟨_ :: pre, x, post, e, rfl, List.forall_mem_cons.2 ⟨hns, h2⟩, h3⟩)
    · exact .inr (.inr ⟨[], (tid, b), l, e, rfl, by simp, hr, by rw [he]⟩)
    · exact .inr (.inl ⟨[], (tid, b), l, rfl, by simp, hm, hd, by rw [he]⟩)
    · have hns : ¬ Stops tup (tid, b) := not_stops_of_read (x := (tid, b)) hm hd
      rw [he]
      rcases ih with ⟨h1, h2, h3⟩ | ⟨pre, x, post, rfl, h2, h3⟩ | ⟨pre, x, post, e, rfl, h2, h3⟩
      · exact .inl ⟨h1, List.forall_mem_cons.2 ⟨hns, h2⟩, h3⟩
      · exact .inr (.inl ⟨_ :: pre, x, post, rfl, List.forall_mem_cons.2 ⟨hns, h2⟩, h3⟩)
      · exact .inr (.inr ⟨_ :: pre, x, post, e, rfl, List.forall_mem_cons.2 ⟨hns, h2⟩, h3⟩)

/-- An entry whose pattern does not match stays. -/
theorem mem_stay_of_skips {tup : Tuple} {l : List (Tid × Blocked)} {x : Tid × Blocked}
    (hx : x ∈ l) (hs : Skips x.2.pattern tup) : x ∈ (checkBlocked tup l).1 := by
  induction l with
  | nil => cases hx
  | cons y l ih =>
    obtain ⟨tid, b⟩ := y
    rcases checkBlocked_cons tup tid b l with ⟨-, he⟩ | ⟨e, -, he⟩ | ⟨hm, -, he⟩ | ⟨hm, -, he⟩
    · rw [he]
      rcases List.mem_cons.1 hx with rfl | hx
      · exact List.mem_cons_self
      · exact List.mem_cons_of_mem _ (ih hx)
    · rw [he]
      exact hx
    · rw [he]
      rcases List.mem_cons.1 hx with rfl | hx
      · exact absurd hs hm.not_skips
      · exact hx
    · rw [he]
      rcases List.mem_cons.1 hx with rfl | hx
      · exact absurd hs hm.not_skips
      · exact ih hx

/-! ## What the operations do -/

namespace TupleSpace

variable {s : TupleSpace}

@[simp] theorem _out_blockedList (tup : Tuple) :
    (s._out tup).ts.blockedList.entries = (checkBlocked tup s.blockedList.entries).1 := by
  rcases h : (checkBlocked tup s.blockedList.entries).2.2 with _ | _ | e
  · rcases hr : checkRequests tup s.requests with e | _ | f <;> simp [_out, h, hr, Dict.restrict]
  all_goals simp [_out, h, Dict.restrict]

@[simp] theorem _out_requests (tup : Tuple) :
    (s._out tup).ts.requests = s.requests := by
  rcases h : (checkBlocked tup s.blockedList.entries).2.2 with _ | _ | e
  · rcases hr : checkRequests tup s.requests with e | _ | f <;> simp [_out, h, hr]
  all_goals simp [_out, h]

@[simp] theorem _out_id (tup : Tuple) : (s._out tup).ts.id = s.id := by
  rcases h : (checkBlocked tup s.blockedList.entries).2.2 with _ | _ | e
  · rcases hr : checkRequests tup s.requests with e | _ | f <;> simp [_out, h, hr]
  all_goals simp [_out, h]

@[simp] theorem _out_refs (tup : Tuple) : (s._out tup).ts.refs = s.refs := by
  rcases h : (checkBlocked tup s.blockedList.entries).2.2 with _ | _ | e
  · rcases hr : checkRequests tup s.requests with e | _ | f <;> simp [_out, h, hr]
  all_goals simp [_out, h]

theorem _out_killlock (tup : Tuple) : (s._out tup).ts.killlock = s.killlock := by
  rcases h : (checkBlocked tup s.blockedList.entries).2.2 with _ | _ | e
  · rcases hr : checkRequests tup s.requests with e | _ | f <;> simp [_out, h, hr]
  all_goals simp [_out, h]

/-- `_out` stores the tuple at the end, and only after a scan nobody stopped. -/
theorem _out_contain (tup : Tuple) :
    (s._out tup).ts.ts = s.ts ∨
      (checkBlocked tup s.blockedList.entries).2.2 = .passed ∧
        (s._out tup).ts.ts.contain = s.ts.contain ++ [tup] ∧
        (s._out tup).result = .ok () := by
  rcases h : (checkBlocked tup s.blockedList.entries).2.2 with _ | _ | e
  · rcases hr : checkRequests tup s.requests with e | _ | f <;>
      simp [_out, h, hr, TupleContainer.add]
  all_goals simp [_out, h]

theorem checkRequests_some {tup : Tuple} {l : List (NodeId × Tuple)} {sp : Spawn}
    (h : checkRequests tup l = .ok (some sp)) : ∃ node matched, sp = .forward node matched := by
  induction l with
  | nil => simp [checkRequests] at h
  | cons r l ih =>
    simp only [checkRequests] at h
    split at h
    · exact ih h
    · cases h
    · exact ⟨_, _, by simpa [eq_comm] using h⟩

/-- The readers `_out` wakes are those of the scan. -/
theorem returnTuple_mem_spawned {tup : Tuple} {tid : Tid} {matched pattern : Tuple} :
    .returnTuple tid matched pattern ∈ (s._out tup).spawned ↔
      .returnTuple tid matched pattern ∈ (checkBlocked tup s.blockedList.entries).2.1 := by
  rcases h : (checkBlocked tup s.blockedList.entries).2.2 with _ | _ | e
  · rcases hr : checkRequests tup s.requests with e | _ | f
    · simp [_out, h, hr]
    · simp [_out, h, hr]
    · obtain ⟨node, m, rfl⟩ := checkRequests_some hr
      simp [_out, h, hr]
  all_goals simp [_out, h]

theorem _out_spawned (hreq : s.requests = []) (tup : Tuple) :
    (s._out tup).spawned = (checkBlocked tup s.blockedList.entries).2.1 := by
  rcases h : (checkBlocked tup s.blockedList.entries).2.2 with _ | _ | e <;>
    simp [_out, h, hreq, checkRequests]

/-- Without remote requests the end of the scan decides what becomes of the tuple. -/
theorem _out_cases (hreq : s.requests = []) (tup : Tuple) :
    ((checkBlocked tup s.blockedList.entries).2.2 = .passed ∧
      (s._out tup).ts.ts.contain = s.ts.contain ++ [tup] ∧
      (s._out tup).result = .ok ()) ∨
    ((checkBlocked tup s.blockedList.entries).2.2 = .taken ∧
      (s._out tup).ts.ts = s.ts ∧ (s._out tup).result = .ok ()) ∨
    (∃ e, (checkBlocked tup s.blockedList.entries).2.2 = .raised e ∧
      (s._out tup).ts.ts = s.ts ∧ (s._out tup).result = .error e) := by
  rcases h : (checkBlocked tup s.blockedList.entries).2.2 with _ | _ | e <;>
    simp [_out, h, hreq, checkRequests, TupleContainer.add]

/-- `_rd` blocks, returns a stored tuple as it is, or raises. -/
theorem _rd_cases (tid : Tid) (pattern : Tuple) (unblockable : Bool) :
    ((∀ t ∈ s.ts.contain, Skips t pattern) ∧
      s._rd tid pattern unblockable = s.block tid ⟨pattern, unblockable, false⟩) ∨
    (∃ pre t post, s.ts.contain = pre ++ t :: post ∧ (∀ x ∈ pre, Skips x pattern) ∧
      Matches t pattern ∧ s._rd tid pattern unblockable = ⟨s, [], .ok (some t)⟩) ∨
    (∃ e, s._rd tid pattern unblockable = ⟨s, [], .error e⟩) := by
  unfold _rd TupleContainer.matchOneTuple
  rcases matchFirst_cases pattern s.ts.contain with ⟨h1, h2⟩ | ⟨pre, t, post, h1, h2, h3, h4⟩ |
    ⟨_, _, _, e, -, -, -, h4⟩
  · exact .inl ⟨h2, by rw [h1]⟩
  · exact .inr (.inl ⟨pre, t, post, h1, h2, h3, by rw [h4]⟩)
  · exact .inr (.inr ⟨e, by rw [h4]⟩)

/-- `_in` blocks, returns the stored tuple `t` it finds while deleting what a
search for `t` finds, or raises. -/
theorem _in_cases (tid : Tid) (pattern : Tuple) (unblockable : Bool) :
    ((∀ t ∈ s.ts.contain, Skips t pattern) ∧
      s._in tid pattern unblockable = s.block tid ⟨pattern, unblockable, true⟩) ∨
    (∃ pre t post c, s.ts.contain = pre ++ t :: post ∧ (∀ x ∈ pre, Skips x pattern) ∧
      Matches t pattern ∧ deleteFirst t s.ts.contain = .ok c ∧
      s._in tid pattern unblockable = ⟨{ s with ts := ⟨c⟩ }, [], .ok (some t)⟩) ∨
    (∃ e, (∀ t, matchFirst pattern s.ts.contain = .ok (some (t, t)) →
        deleteFirst t s.ts.contain = .error e) ∧
      s._in tid pattern unblockable = ⟨s, [], .error e⟩) := by
  unfold _in TupleContainer.matchOneTuple TupleContainer.delete
  rcases matchFirst_cases pattern s.ts.contain with ⟨h1, h2⟩ | ⟨pre, t, post, h1, h2, h3, h4⟩ |
    ⟨_, _, _, e, -, -, -, h4⟩
  · exact .inl ⟨h2, by rw [h1]⟩
  · rcases hd : deleteFirst t s.ts.contain with e | c
    · refine .inr (.inr ⟨e, fun t' ht' => ?_, by simp [h4, hd]⟩)
      rw [h4] at ht'
      cases ht'
      exact hd
    · exact .inr (.inl ⟨pre, t, post, c, h1, h2, h3, hd, by simp [h4, hd]⟩)
  · exact .inr (.inr ⟨e, fun t' ht' => (by rw [h4] at ht'; cases ht'), by rw [h4]⟩)

theorem collect_error {pattern : Tuple} {e : PyExc} (h : s.ts.matchTuples pattern = .error e) :
    s.collect pattern = ⟨s, [], .error e⟩ := by
  simp [collect, h]

theorem collect_ok {pattern : Tuple} {l : List (Tuple × Tuple)}
    (h : s.ts.matchTuples pattern = .ok l) :
    s.collect pattern = ⟨{ s with ts := (deleteAll s.ts l).1 }, [],
      match (deleteAll s.ts l).2 with
      | none => .ok (l.map Prod.snd)
      | some e => .error e⟩ := by
  rcases hd : deleteAll s.ts l with ⟨c, _ | e⟩ <;> simp [collect, h, hd]

theorem tupleRequest_frame (node : NodeId) (pattern : Tuple) :
    (s.tupleRequest node pattern).ts.ts.contain.Sublist s.ts.contain ∧
      (s.tupleRequest node pattern).ts.blockedList = s.blockedList := by
  rcases hm : s.ts.matchOneTuple pattern with e | _ | t
  · simp [tupleRequest, hm]
  · simp [tupleRequest, hm]
  · rcases hd : deleteFirst t.1 s.ts.contain with e | c
    · simp [tupleRequest, hm, TupleContainer.delete, hd]
    · simpa [tupleRequest, hm, TupleContainer.delete, hd] using deleteFirst_sublist hd

end TupleSpace

theorem deleteAll_sublist (c : TupleContainer) (l : List (Tuple × Tuple)) :
    (deleteAll c l).1.contain.Sublist c.contain := by
  induction l generalizing c with
  | nil => exact List.Sublist.refl _
  | cons t l ih =>
    unfold deleteAll TupleContainer.delete
    rcases h : deleteFirst t.1 c.contain with e | ts
    · exact List.Sublist.refl _
    · exact (ih ⟨ts⟩).trans (deleteFirst_sublist h)

end PyLinda
