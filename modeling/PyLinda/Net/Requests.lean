import Mathlib.Data.Fintype.Defs
import Mathlib.Data.List.Nodup
import Mathlib.Logic.Function.Basic
import PyLinda.Lib.Pool
import PyLinda.Lib.Run
import PyLinda.TupleSpace

/-!
# What a partition has been asked for

The lists `requests` of the partitions of one tuplespace. A reader that finds nothing
parks, and its thread `add_tuples` asks the other partitions one after another; the
thread that hands it a tuple later tells them that it waits no more. A message and its
answer are one step, and so is what happens under `self.lock`; everything else
interleaves.

This is the build with types and without registered ones: there
`getTypesFromServer` returns what it is given, and `convertTupleForServer` does not
exist, so a tuple that matches a remote request is lost.
-/

namespace PyLinda.Requests

open Lib

/-- What `tuplecontainer` knows of a tuple; `both` makes the tuple of two. -/
structure Matcher (T : Type) where
  doesMatch : T → T → Except PyExc T
  len : T → Nat
  both : T → T → T

/-- An entry of `blocked_list`. -/
structure Waiter (T : Type) where
  pattern : T
  unblockable : Bool
  destructive : Bool
  deriving DecidableEq

/-- Where the thread `register` of a `TupleSpace` is. -/
inductive Phase (N : Type) where
  | announce (todo : List N)
  | getPartitions (todo : List N)
  | getRequests (todo : List N)
  | idle
  deriving DecidableEq

/-- A `TupleSpace`; its lock is free when it is idle. -/
structure Part (N R T : Type) where
  contain : List T := []
  blockedList : Dict R (Waiter T) := .empty
  requests : List (N × T) := []
  partitions : List N := []
  phase : Phase N

/-- What a thread of a server does next; the lists are those still to be visited. -/
inductive Task (N R T : Type) where
  | read (tid : R) (w : Waiter T)
  | addTuples (pattern : T)
  | request (pattern : T) (todo : List N) (found : List T)
  | outs (found : List T)
  | check
  | unblockRandom
  | returnTuple (tid : R) (pattern : T)
  | withdraw (pattern : T)
  | cancel (pattern : T) (todo : List N)
  | hung (pattern : T) (todo : List N) -- the handler has raised, so the answer does not come
  deriving DecidableEq

/-- `add_tuples` goes on with the answer of one partition, if there is one. -/
def Task.received {N R T : Type} (pattern : T) (todo : List N) (found : List T) :
    Option (List T) → Task N R T
  | none => .hung pattern todo
  | some l => .request pattern todo (found ++ l)

structure Node (N R T : Type) where
  part : Option (Part N R T) := none
  blockedThreads : List R := []
  tasks : List (Task N R T) := []

/-- The servers. -/
def Cluster (N R T : Type) : Type := N → Node N R T

/-- `verdict` is what `isLocallyDeadlocked` returns, `order` the order in which a broadcast
visits the other nodes. -/
inductive Event (N R T : Type) where
  | request (n : N) (tid : R) (w : Waiter T)
  | out (n : N) (tup : T)
  | rehash (n : N) (blocked : Dict R (Waiter T))
  | depart (n : N) (tids : List R)
  | recheck (n : N)
  | run (n : N) (task : Task N R T) (verdict : Bool)
  | create (n : N) (order : List N)
  | announce (n : N)
  | announced (n : N) (order : List N)
  | getPartitions (n : N)
  | getRequests (n : N)

section

variable {N R T : Type} [DecidableEq N] [DecidableEq R] [DecidableEq T] (M : Matcher T)

/-! ## One partition -/

/-- The loop over `blocked_list` in `_out`: the entries that stay, the threads that wake
with their patterns, and how the loop ended. -/
def checkBlocked (tup : T) :
    List (R × Waiter T) → List (R × Waiter T) × List (R × T) × Scan
  | [] => ([], [], .passed)
  | (tid, w) :: rest =>
    match M.doesMatch w.pattern tup with
    | .error .noTupleMatch =>
      let (stay, woken, s) := checkBlocked tup rest
      ((tid, w) :: stay, woken, s)
    | .error e => ((tid, w) :: rest, [], .raised e)
    | .ok _ =>
      if w.destructive then (rest, [(tid, w.pattern)], .taken)
      else
        let (stay, woken, s) := checkBlocked tup rest
        (stay, (tid, w.pattern) :: woken, s)

omit [DecidableEq R] [DecidableEq T] in
theorem checkBlocked_sublist (tup : T) (l : List (R × Waiter T)) :
    (checkBlocked M tup l).1.Sublist l := by
  induction l with
  | nil => exact List.Sublist.refl []
  | cons x rest ih =>
    obtain ⟨tid, w⟩ := x
    unfold checkBlocked
    split
    · exact ih.cons_cons _
    · exact List.Sublist.refl _
    · split
      · exact List.sublist_cons_self _ _
      · exact ih.cons _

/-- The loop over `requests` in `_out`: whether one of them gets the tuple. -/
def checkRequests (tup : T) : List (N × T) → Except PyExc Bool
  | [] => .ok false
  | (_, pattern) :: rest =>
    match M.doesMatch pattern tup with
    | .error .noTupleMatch => checkRequests tup rest
    | .error e => .error e
    | .ok _ => .ok true

/-- `TupleContainer.matchOneTuple`. -/
def matchOneTuple (template : T) : List T → Except PyExc (Option (T × T))
  | [] => .ok none
  | t :: ts =>
    if M.len template = M.len t then
      match M.doesMatch t template with
      | .error .noTupleMatch => matchOneTuple template ts
      | .error e => .error e
      | .ok matched => .ok (some (t, matched))
    else matchOneTuple template ts

/-- `TupleContainer.delete`. -/
def delete (tup : T) : List T → Except PyExc (List T)
  | [] => .ok []
  | t :: ts =>
    if M.len tup = M.len t then
      match M.doesMatch t tup with
      | .error .noTupleMatch => (delete tup ts).map (t :: ·)
      | .error e => .error e
      | .ok _ => .ok ts
    else (delete tup ts).map (t :: ·)

namespace Part

variable (ts : Part N R T)

/-- The partition, the threads `do_return_tuple` with their patterns, and whether the call
returned. -/
def out (tup : T) : Part N R T × List (R × T) × Bool :=
  let r := checkBlocked M tup ts.blockedList.entries
  let ts' := { ts with
    blockedList := ts.blockedList.restrict r.1 (checkBlocked_sublist M tup _) }
  match r.2.2 with
  | .raised _ => (ts', r.2.1, false)
  | .taken => (ts', r.2.1, true)
  | .passed => match checkRequests M tup ts.requests with
    | .error _ => (ts', r.2.1, false)
    | .ok true => (ts', r.2.1, true) -- its thread raises before it sends the tuple
    | .ok false => ({ ts' with contain := ts.contain ++ [tup] }, r.2.1, true)

/-- The tuples of the answer, `none` when the handler raises. -/
def tupleRequest (node : N) (pattern : T) : Part N R T × Option (List T) :=
  let ts' := { ts with requests := ts.requests ++ [(node, pattern)] }
  match matchOneTuple M pattern ts.contain with
  | .error _ => (ts', none)
  | .ok none => (ts', some [])
  | .ok (some (real, matched)) => match delete M real ts.contain with
    | .error _ => (ts', none)
    | .ok c => ({ ts' with contain := c }, some [M.both real matched])

def cancelRequest (node : N) (pattern : T) : Part N R T :=
  { ts with requests := ts.requests.erase (node, pattern) }

/-- What `get_requests` at `node` answers. -/
def getRequests (node : N) : List (N × T) :=
  ts.requests ++ ts.blockedList.entries.map fun e => (node, e.2.pattern)

end Part

/-! ## One server -/

namespace Node

variable (s : Node N R T)

/-- The thread takes `task` and goes on with `next`. -/
def goOn (task : Task N R T) (next : List (Task N R T)) : Node N R T :=
  { s with tasks := s.tasks.erase task ++ next }

/-- `del blocked_threads[tid]`. -/
def unblock (tid : R) : Node N R T :=
  { s with blockedThreads := s.blockedThreads.filter (· ≠ tid) }

/-- `_out` of a tuple, by a thread that goes on with `next` when it returns. -/
def outTuple (ts : Part N R T) (tup : T) (next : List (Task N R T)) : Node N R T :=
  let r := ts.out M tup
  { s with part := some r.1,
           tasks := s.tasks ++ (r.2.1.map fun x => .returnTuple x.1 x.2) ++
             if r.2.2 then next else [] }

/-- `_rd` or `_in` in the handler of a request. -/
def read (ts : Part N R T) (tid : R) (w : Waiter T) : Node N R T :=
  match matchOneTuple M w.pattern ts.contain with
  | .error _ => s
  | .ok none => { s with part := some { ts with blockedList := ts.blockedList.set tid w },
                         tasks := s.tasks ++ [.addTuples w.pattern] }
  | .ok (some (real, _)) =>
    if w.destructive then match delete M real ts.contain with
      | .error _ => s
      | .ok c => { s.unblock tid with part := some { ts with contain := c } }
    else s.unblock tid

/-- `unblockRandom`, with `unblock_thread` for the thread it finds. -/
def unblockRandom (ts : Part N R T) : Node N R T :=
  match ts.blockedList.entries.find? fun e => e.2.unblockable with
  | none => s
  | some (tid, _) =>
    { s.unblock tid with part := some { ts with blockedList := ts.blockedList.erase tid } }

/-- A step of the server at `n` in which nobody else takes part. -/
def run (n : N) (verdict : Bool) (task : Task N R T) : Option (Node N R T) :=
  let s' := s.goOn task []
  match task, s.part with
  | .read _ _, none => some s' -- `assert local_ts.has_key(ts)`
  | .read tid w, some ts => if ts.phase = .idle then some (s'.read M ts tid w) else none
  | .addTuples p, some ts => some (s.goOn task [.request p ts.partitions []])
  | .request _ [] found, _ => some (s.goOn task [.outs found])
  | .outs [], _ => some (s.goOn task [.check])
  | .outs (t :: found), some ts =>
    if ts.phase = .idle then some (s'.outTuple M ts t [.outs found]) else none
  -- `is_deadlocked` is a message that is not sent
  | .check, some ts =>
    some (if verdict = true ∧ ts.partitions = [] then s.goOn task [.unblockRandom] else s')
  | .unblockRandom, some ts => if ts.phase = .idle then some (s'.unblockRandom ts) else none
  | .returnTuple tid p, _ =>
    some (if tid ∈ s.blockedThreads then (s.unblock tid).goOn task [.withdraw p] else s')
  | .withdraw p, some ts => some (s.goOn task [.cancel p ts.partitions])
  | .cancel _ [], _ => some s'
  -- `assert node != server.node_id`
  | .request _ (m :: _) _, _ | .cancel _ (m :: _), _ => if m = n then some s' else none
  | _, _ => none

end Node

/-! ## The cluster -/

namespace Cluster

variable (c : Cluster N R T)

def init : Cluster N R T := fun _ => {}

def set (n : N) (s : Node N R T) : Cluster N R T := Function.update c n s

def onPart (n : N) (f : Part N R T → Option (Cluster N R T)) : Option (Cluster N R T) :=
  (c n).part.bind f

/-- The partition at `n` becomes `ts`. -/
def setPart (n : N) (ts : Part N R T) : Cluster N R T := c.set n { c n with part := some ts }

/-- `sendMessageToNode(m, None, tuple_request, self._id, pattern)` by the server at `n`. -/
def sendRequest (n : N) (p : T) (m : N) (todo : List N) (found : List T) :
    Option (Cluster N R T) :=
  let go next := (c n).goOn (.request p (m :: todo) found) [next]
  match (c m).part with
  | none => some (c.set n (go (.request p todo found)))
  | some ts => if ts.phase = .idle then
      let r := ts.tupleRequest M n p
      some ((c.set n (go (.received p todo found r.2))).setPart m r.1)
    else none

/-- `sendMessageToNode(m, None, cancel_request, self._id, pattern)` by the server at `n`. -/
def sendCancel (n : N) (p : T) (m : N) (todo : List N) : Option (Cluster N R T) :=
  let s := (c n).goOn (.cancel p (m :: todo)) [.cancel p todo]
  match (c m).part with
  | none => some (c.set n s)
  | some ts => if ts.phase = .idle then some ((c.set n s).setPart m (ts.cancelRequest n p))
    else none

/-- The handler of `register_partition` at `m`. -/
def registerPartition (m nid : N) : Cluster N R T := match (c m).part with
  | none => c -- dont_know
  | some ts => c.setPart m { ts with partitions := ts.partitions ++ [nid] }

/-- A step of thread `task` of the server at `n`. -/
def run (n : N) (task : Task N R T) (verdict : Bool) : Option (Cluster N R T) :=
  match (c n).run M n verdict task, task with
  | some s, _ => some (c.set n s)
  | none, .request p (m :: todo) found => c.sendRequest M n p m todo found
  | none, .cancel p (m :: todo) => c.sendCancel n p m todo
  | none, _ => none

def next : Event N R T → Option (Cluster N R T)
  -- `blocked_threads[tid] = (req, ts)`
  | .request n tid w => some (c.set n { c n with
      blockedThreads := tid :: (c n).blockedThreads, tasks := (c n).tasks ++ [.read tid w] })
  | .out n tup => c.onPart n fun ts =>
    if ts.phase = .idle then some (c.set n ((c n).outTuple M ts tup [])) else none
  | .rehash n blocked => c.onPart n fun ts =>
    some (c.setPart n { ts with blockedList := blocked })
  -- `removeProcess`, of a process with these threads
  | .depart n tids => some (c.set n { c n with
      blockedThreads := (c n).blockedThreads.filter (· ∉ tids) })
  -- a reference is dropped, or a thread has left
  | .recheck n => some (c.set n { c n with tasks := (c n).tasks ++ [.check] })
  | .run n task verdict =>
    if task ∈ (c n).tasks then c.run M n task verdict else none
  -- `newTupleSpace`, with the thread `register`
  | .create n order =>
    if (c n).part.isNone then some (c.setPart n { phase := .announce order }) else none
  -- `broadcast_message(register_partition, self._id, server.node_id)`
  | .announce n => c.onPart n fun ts => match ts.phase with
    | .announce (m :: todo) => if m = n then none else
      some ((c.registerPartition m n).setPart n { ts with phase := .announce todo })
    | _ => none
  | .announced n order => c.onPart n fun ts => match ts.phase with
    | .announce [] => some (c.setPart n { ts with phase := .getPartitions order })
    | _ => none
  -- `broadcast_firstreplyonly(get_partitions, self._id)`
  | .getPartitions n => c.onPart n fun ts => match ts.phase with
    | .getPartitions [] => some (c.setPart n { ts with phase := .getRequests ts.partitions })
    | .getPartitions (m :: todo) => some (c.setPart n (match (c m).part with
      | none => { ts with phase := .getPartitions todo }
      | some q =>
        let ps := ts.partitions ++ (q.partitions ++ [m]).filter (· ≠ n)
        { ts with partitions := ps, phase := .getRequests ps }))
    | _ => none
  -- `broadcast_tonodes(self.partitions, True, get_requests, self._id)`
  | .getRequests n => c.onPart n fun ts => match ts.phase with
    | .getRequests [] => some (c.setPart n { ts with phase := .idle })
    | .getRequests (m :: todo) => match (c m).part with
      | none => some (c.setPart n { ts with phase := .getRequests todo })
      | some q => if q.phase = .idle then
          some (c.setPart n { ts with requests := ts.requests ++ q.getRequests m, phase := .idle })
        else none
    | _ => none

end Cluster

/-! ## What is claimed of a run -/

/-- The threads of the server that are blocked with this pattern. -/
def Node.waiting (s : Node N R T) (p : T) : Nat := match s.part with
  | none => 0
  | some ts => ts.blockedList.entries.countP fun e =>
      decide (e.2.pattern = p ∧ e.1 ∈ s.blockedThreads)

/-- The threads that have a request of this thread in hand, with its entry in `blocked_list`. -/
def Task.holds (tid : R) : Task N R T → Nat
  | .read r _ | .returnTuple r _ => if r = tid then 1 else 0
  | _ => 0

def Node.places (s : Node N R T) (tid : R) : Nat :=
  (s.part.elim 0 fun ts => ts.blockedList.entries.countP fun e => decide (e.1 = tid)) +
    weight (Task.holds tid) s.tasks

namespace Cluster

variable (c : Cluster N R T)

/-- No `register` is under way. -/
def Settled : Prop := ∀ n ts, (c n).part = some ts → ts.phase = .idle

def Quiescent : Prop := c.Settled ∧ ∀ n, (c n).tasks = []

/-- A partition has one entry for each thread that is blocked at another node. -/
def Accurate : Prop :=
  ∀ m ts, (c m).part = some ts → ∀ n, n ≠ m → ∀ p, ts.requests.count (n, p) = (c n).waiting p

end Cluster

/-- A thread has one request at a time, and a broadcast visits every other node once. -/
def Event.Proper (nodes : List N) (c : Cluster N R T) : Event N R T → Prop
  | .request n tid _ => tid ∉ (c n).blockedThreads ∧ (c n).places tid = 0
  | .rehash n blocked => ∀ ts ∈ (c n).part, ts.blockedList.Rehash blocked
  | .create n order => n ∈ nodes ∧ order.Perm (nodes.erase n)
  | .announced n order => order.Perm (nodes.erase n)
  | _ => True

/-- A partition joins while nothing else happens, no thread leaves while it is blocked, and
a cancelled request has arrived. -/
def Event.Orderly (c : Cluster N R T) : Event N R T → Prop
  | .request _ _ _ | .out _ _ | .rehash _ _ | .recheck _ => c.Settled
  | .depart n tids => c.Settled ∧
      ∀ ts ∈ (c n).part, ∀ e ∈ ts.blockedList.entries, e.1 ∉ tids
  | .run n task _ => c.Settled ∧ match task with
    | .read tid w => tid ∈ (c n).blockedThreads ∨
        ∀ ts ∈ (c n).part, matchOneTuple M w.pattern ts.contain ≠ .ok none
    | .returnTuple tid _ => tid ∈ (c n).blockedThreads
    | .cancel p (m :: _) => ∀ ts ∈ (c m).part, (n, p) ∈ ts.requests
    | _ => True
  | .create _ _ => c.Quiescent
  | .announce _ | .announced _ _ | .getPartitions _ | .getRequests _ => True

instance [Fintype N] (c : Cluster N R T) : Decidable c.Settled :=
  decidable_of_iff (∀ n, ∀ ts ∈ (c n).part, ts.phase = .idle) Iff.rfl

instance [Fintype N] (c : Cluster N R T) : Decidable c.Quiescent :=
  inferInstanceAs (Decidable (c.Settled ∧ ∀ n, (c n).tasks = []))

instance (nodes : List N) (c : Cluster N R T) (e : Event N R T) : Decidable (e.Proper nodes c) := by
  cases e <;> unfold Event.Proper <;> try unfold Dict.Rehash
  all_goals infer_instance

instance [Fintype N] (c : Cluster N R T) (e : Event N R T) : Decidable (e.Orderly M c) := by
  cases e <;> unfold Event.Orderly <;> try infer_instance
  rename_i task _
  cases task <;> try infer_instance
  rename_i todo
  cases todo <;> infer_instance

end

end PyLinda.Requests
