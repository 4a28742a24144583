import PyLinda.TupleSpace

/-!
# The tables of a server

One server without neighbours: every broadcast goes to nobody and returns at
once. A `TupleSpace` object lives on a heap, for a thread can hold one that
`local_ts` no longer has or has replaced.
-/

namespace PyLinda

open Lib

/-- The identity of a `TupleSpace` object, its place on the heap. -/
abbrev ObjId := Nat

structure Server where
  /-- Every object ever made. -/
  objs : List TupleSpace
  localTs : Dict TsId ObjId
  /-- The tuplespace a thread waits for; the connection is that of the thread. -/
  blockedThreads : Dict Tid TsId
  threads : List Tid
  pthreads : Dict Pid (List Tid)
  /-- `guid.generate` never returns a value twice. -/
  nextGuid : Nat

namespace Server

def obj? (s : Server) (o : ObjId) : Option TupleSpace := s.objs[o]?

def setObj (s : Server) (o : ObjId) (t : TupleSpace) : Server :=
  { s with objs := s.objs.set o t }

/-- `local_ts[ts]`. -/
def lookup (s : Server) (ts : TsId) : Option ObjId := s.localTs.get? ts

/-- `newTupleSpace`. -/
def newTupleSpace (s : Server) (ts : TsId) : Server :=
  { s with
    objs := s.objs ++ [.init ts]
    localTs := s.localTs.set ts s.objs.length }

/-- A server that has just started. -/
def init : Server where
  objs := [.init .uts]
  localTs := Dict.empty.set .uts 0
  blockedThreads := .empty
  threads := []
  pthreads := .empty
  nextGuid := 0

/-- `register_process`. -/
def registerProcess (s : Server) : Server :=
  { s with pthreads := s.pthreads.set ⟨s.nextGuid⟩ [], nextGuid := s.nextGuid + 1 }

/-- `register_thread` for a process with the threads `tids`. -/
def registerThread (s : Server) (tid : Tid) (tids : List Tid) : Server :=
  { s with
    pthreads := s.pthreads.set tid.pid (tids ++ [tid])
    threads := s.threads ++ [tid] }

end Server

section
variable {s : Server} {o o' : ObjId} {t t' : TupleSpace}

theorem obj?_setObj_self (ht : s.obj? o = some t) (t' : TupleSpace) :
    (s.setObj o t').obj? o = some t' := by
  obtain ⟨hlt, -⟩ := List.getElem?_eq_some_iff.1 ht
  simp [Server.obj?, Server.setObj, hlt]

theorem obj?_setObj_ne (h : o' ≠ o) : (s.setObj o t').obj? o' = s.obj? o' := by
  simp [Server.obj?, Server.setObj, List.getElem?_set_ne (Ne.symm h)]

@[simp] theorem lookup_setObj (ts : TsId) : (s.setObj o t).lookup ts = s.lookup ts := rfl

@[simp] theorem setObj_setObj : (s.setObj o t).setObj o t' = s.setObj o t' := by
  simp [Server.setObj]

theorem obj?_newTupleSpace {ts : TsId} (h : (s.newTupleSpace ts).obj? o = some t') :
    s.obj? o = some t' ∨ o = s.objs.length ∧ t' = .init ts := by
  simp only [Server.obj?, Server.newTupleSpace] at h ⊢
  rcases Nat.lt_trichotomy o s.objs.length with ho | ho | ho
  · rw [List.getElem?_append_left ho] at h
    exact .inl h
  · rw [ho, List.getElem?_append_right (Nat.le_refl _), Nat.sub_self] at h
    exact .inr ⟨ho, by simpa [eq_comm] using h⟩
  · rw [List.getElem?_eq_none (by simp; omega)] at h
    cases h

end

/-! ## Requests and replies -/

/-- The four messages that read a tuple. -/
inductive ReadMsg where
  | rd
  | rdp
  | in_
  | inp
  deriving DecidableEq, Repr

/-- Both handlers compare the message with `inp_tuple`, so `rdp` never is. -/
def ReadMsg.unblockable (m : ReadMsg) : Bool := m = .inp

/-- `rd` and `rdp` go to `read_tuple`, the others to `in_tuple`. -/
def ReadMsg.destructive : ReadMsg → Bool
  | rd | rdp => false
  | in_ | inp => true

/-- A read request under way. -/
structure Request where
  tid : Tid
  msg : ReadMsg
  template : Tuple

/-- What the server sends back. -/
inductive Reply where
  | tuple (t : Tuple)
  | unblock
  | done
  | string (ts : TsId)
  | int (n : Nat)

/-- A request of a client. -/
inductive Msg where
  | createTuplespace
  | out (ts : TsId) (tup : Tuple)
  | read (msg : ReadMsg) (ts : TsId) (template : Tuple)
  | collect (copy : Bool) (ts destTs : TsId) (template : Tuple)
  | addReference (ts : TsId) (ref : Holder)
  | deleteReference (ts : TsId)

/-! ## References in tuples -/

/-- The test of `addReference`, `delReference` and `changeOwner` on an element. -/
def Value.tsRef? : Value → Option TsId
  | .tsref .uts => none
  | .tsref ts => some ts
  | _ => none

/-- The elements these helpers act on: they look at the top level only. -/
def Tuple.tsRefs (t : Tuple) : List TsId := t.filterMap Value.tsRef?

mutual

/-- `Linda_scanValueForTSRef`: the client looks at every depth. -/
def Value.scan : Value → List TsId
  | .tsref ts => [ts]
  | .tuple vs => scanTuple vs
  | .sum v _ => v.scan
  | _ => []

/-- `Linda_scanTuple2`. -/
def Value.scanTuple : List Value → List TsId
  | [] => []
  | v :: vs => v.scan ++ scanTuple vs

end

end PyLinda
