import PyLinda.Server.Act

/-!
# A server and its clients

The threads of the server run interleaved, one step of one thread at a time. A
client thread sends one message, waits for the answer, and only then sends the
next; its connection can break at any moment.
-/

namespace PyLinda

open Lib

/-- An operation of a client. -/
inductive ClientOp where
  | createTuplespace
  | out (ts : TsId) (tup : Tuple)
  | read (msg : ReadMsg) (ts : TsId) (template : Tuple)
  | collect (copy : Bool) (ts destTs : TsId) (template : Tuple)
  | deleteReference (ts : TsId)

/-- The messages the client library sends for it: `Linda_out` announces the
references in the tuple first (`Linda_scanTuple`). -/
def ClientOp.script : ClientOp → List Msg
  | createTuplespace => [.createTuplespace]
  | out ts tup => (Value.scanTuple tup).map (fun e => .addReference e (.ts ts)) ++ [.out ts tup]
  | read msg ts template => [.read msg ts template]
  | collect copy ts destTs template => [.collect copy ts destTs template]
  | deleteReference ts => [.deleteReference ts]

/-- The client side of a thread. -/
structure Client where
  /-- Messages of the current operation still to send. -/
  script : List Msg := []
  /-- A message is out and unanswered. -/
  waiting : Bool := false
  /-- What came back since the last message was sent. -/
  answers : List Reply := []

/-- The references to tuplespaces, the universal one apart, that an answer hands
to the client. -/
def Reply.refs : Reply → List TsId
  | tuple t => (Value.scanTuple t).filter (· ≠ .uts)
  | string ts => [ts]
  | _ => []

structure World where
  server : Server
  /-- The counters of `pthread_count`, which only `register_thread` reads. -/
  pthreadCount : Pid → Nat
  /-- The running threads of the server. -/
  pool : List (List Act)
  clients : Tid → Client
  /-- The client threads with an open connection. -/
  live : List Tid
  /-- The references to tuplespaces each process holds. -/
  handles : Pid → List TsId
  /-- Objects that have been through `__del__`. -/
  finalised : List ObjId

inductive Event where
  | registerProcess
  | registerThread (pid : Pid)
  | begin (tid : Tid) (op : ClientOp)
  /-- The next message of the current operation. -/
  | send (tid : Tid)
  /-- One step of a thread of the server. -/
  | act (i : Nat)
  /-- The connection of a thread breaks. -/
  | depart (tid : Tid)
  /-- `__del__` of an object nobody refers to any more. -/
  | finalise (o : ObjId)
  /-- The order of a `blocked_list` changes. -/
  | rehash (o : ObjId) (blocked : Dict Tid Blocked)

namespace World

def init : World where
  server := .init
  pthreadCount := fun _ => 0
  pool := []
  clients := fun _ => {}
  live := []
  handles := fun _ => []
  finalised := []

def setClient (w : World) (tid : Tid) (c : Client) : World :=
  { w with clients := fun t => if t = tid then c else w.clients t }

def setHandles (w : World) (pid : Pid) (l : List TsId) : World :=
  { w with handles := fun p => if p = pid then l else w.handles p }

/-- A message of the server arrives; on a broken connection it is lost. -/
def receive (w : World) (m : Tid × Reply) : World :=
  if m.1 ∈ w.live then
    (w.setClient m.1 { w.clients m.1 with
      waiting := false, answers := (w.clients m.1).answers ++ [m.2] }).setHandles
        m.1.pid (w.handles m.1.pid ++ m.2.refs)
  else w

/-- What is left of a thread after a step. -/
def rest (eff : Effect) (acts : List Act) : List Act :=
  match eff.raised with
  | some _ => []
  | none => eff.next ++ acts

/-- Thread `i`, with `acts` behind its current step, has taken the step. -/
def stepped (w : World) (i : Nat) (eff : Effect) (acts : List Act) : World :=
  let w' := { w with server := eff.server, pool := w.pool.set i (rest eff acts) ++ eff.spawned }
  match eff.sent with
  | none => w'
  | some m => w'.receive m

/-- A client thread starts an operation. Deleting a reference, it drops its own. -/
def begun (w : World) (tid : Tid) (op : ClientOp) : World :=
  let w' := w.setClient tid { w.clients tid with script := op.script }
  match op with
  | .deleteReference ts => w'.setHandles tid.pid ((w.handles tid.pid).erase ts)
  | _ => w'

/-- A client thread sends `m`, with `script` still to send afterwards. -/
def sent (w : World) (tid : Tid) (m : Msg) (script : List Msg) : World :=
  { w.setClient tid { script, waiting := true, answers := [] } with
    pool := w.pool ++ [m.handler tid] }

/-- No client thread of the process is connected any more. -/
def gone (live : List Tid) (pid : Pid) : Bool := live.all fun t => t.pid ≠ pid

/-- The connection of `tid` breaks; with the last one the process is gone. -/
def departed (w : World) (tid : Tid) : World :=
  let live := w.live.filter (· ≠ tid)
  let w' := { w with live, pool := w.pool ++ [removeProcess tid] }
  if gone live tid.pid then w'.setHandles tid.pid [] else w'

/-- A thread joins the process, whose threads are `tids`. -/
def registered (w : World) (pid : Pid) (tids : List Tid) : World :=
  let tid : Tid := ⟨pid, w.pthreadCount pid + 1⟩
  { w with
    server := w.server.registerThread tid tids
    pthreadCount := fun p => if p = pid then w.pthreadCount pid + 1 else w.pthreadCount p
    live := w.live ++ [tid] }

/-- Nobody refers to the object any more. -/
def unreferenced (w : World) (o : ObjId) : Prop :=
  o ∉ w.server.localTs.entries.map Prod.snd ∧ ∀ acts ∈ w.pool, ∀ a ∈ acts, o ∉ a.objs

instance (w : World) (o : ObjId) : Decidable (w.unreferenced o) := by
  unfold unreferenced; infer_instance

/-- `__del__` without partitions: the tuples give up their references. -/
def finaliser (t : TupleSpace) : List Act :=
  t.ts.contain.flatMap fun tup => delReferences tup (.ts t.id)

/-- The state after an event, `none` where the event cannot happen. -/
def next (w : World) : Event → Option World
  | .registerProcess => some { w with server := w.server.registerProcess }
  | .registerThread pid => (w.server.pthreads.get? pid).map (w.registered pid)
  | .begin tid op =>
    if tid ∈ w.live ∧ (w.clients tid).waiting = false ∧ (w.clients tid).script = [] then
      some (w.begun tid op)
    else none
  | .send tid =>
    if tid ∈ w.live ∧ (w.clients tid).waiting = false then
      match (w.clients tid).script with
      | [] => none
      | m :: script => some (w.sent tid m script)
    else none
  | .act i =>
    match w.pool[i]? with
    | some (a :: acts) => (a.exec w.server).map fun eff => w.stepped i eff acts
    | _ => none
  | .depart tid => if tid ∈ w.live then some (w.departed tid) else none
  | .finalise o => (w.server.obj? o).bind fun t =>
    if w.unreferenced o ∧ o ∉ w.finalised then
      some { w with finalised := o :: w.finalised, pool := w.pool ++ [finaliser t] }
    else none
  | .rehash o blocked => (w.server.obj? o).map fun t =>
    { w with server := w.server.setObj o { t with blockedList := blocked } }

end World

/-- A rehash keeps the entries. -/
def Event.Proper (w : World) : Event → Prop
  | .rehash o blocked => ∀ t, w.server.obj? o = some t → t.blockedList.Rehash blocked
  | _ => True

/-- The steps of a server and its clients. -/
def WorldStep (w : World) (e : Event) (w' : World) : Prop := e.Proper w ∧ w.next e = some w'

/-! ## The parts of the state after an event -/

variable {w w' : World}

namespace World

@[simp] theorem begun_server (tid : Tid) (op : ClientOp) : (w.begun tid op).server = w.server := by
  cases op <;> rfl

@[simp] theorem begun_pool (tid : Tid) (op : ClientOp) : (w.begun tid op).pool = w.pool := by
  cases op <;> rfl

@[simp] theorem begun_live (tid : Tid) (op : ClientOp) : (w.begun tid op).live = w.live := by
  cases op <;> rfl

@[simp] theorem begun_pthreadCount (tid : Tid) (op : ClientOp) :
    (w.begun tid op).pthreadCount = w.pthreadCount := by
  cases op <;> rfl

theorem begun_clients (tid t : Tid) (op : ClientOp) : (w.begun tid op).clients t =
    if t = tid then { w.clients tid with script := op.script } else w.clients t := by
  cases op <;> rfl

@[simp] theorem departed_server (tid : Tid) : (w.departed tid).server = w.server := by
  simp only [departed]; split <;> rfl

@[simp] theorem departed_pool (tid : Tid) :
    (w.departed tid).pool = w.pool ++ [removeProcess tid] := by
  simp only [departed]; split <;> rfl

@[simp] theorem departed_live (tid : Tid) :
    (w.departed tid).live = w.live.filter (· ≠ tid) := by
  simp only [departed]; split <;> rfl

@[simp] theorem departed_clients (tid : Tid) : (w.departed tid).clients = w.clients := by
  simp only [departed]; split <;> rfl

@[simp] theorem departed_pthreadCount (tid : Tid) :
    (w.departed tid).pthreadCount = w.pthreadCount := by
  simp only [departed]; split <;> rfl

@[simp] theorem receive_server (m : Tid × Reply) : (w.receive m).server = w.server := by
  simp only [receive]; split <;> rfl

@[simp] theorem receive_pool (m : Tid × Reply) : (w.receive m).pool = w.pool := by
  simp only [receive]; split <;> rfl

@[simp] theorem receive_live (m : Tid × Reply) : (w.receive m).live = w.live := by
  simp only [receive]; split <;> rfl

@[simp] theorem receive_pthreadCount (m : Tid × Reply) :
    (w.receive m).pthreadCount = w.pthreadCount := by
  simp only [receive]; split <;> rfl

theorem receive_clients (m : Tid × Reply) (t : Tid) : (w.receive m).clients t =
    if m.1 ∈ w.live ∧ t = m.1 then { w.clients m.1 with
      waiting := false, answers := (w.clients m.1).answers ++ [m.2] } else w.clients t := by
  unfold receive
  by_cases h : m.1 ∈ w.live
  · simp [h, setClient, setHandles]
  · simp [h]

variable {i : Nat} {eff : Effect} {acts : List Act}

@[simp] theorem stepped_server : (w.stepped i eff acts).server = eff.server := by
  simp only [stepped]; split <;> simp

@[simp] theorem stepped_pool :
    (w.stepped i eff acts).pool = w.pool.set i (rest eff acts) ++ eff.spawned := by
  simp only [stepped]; split <;> simp

@[simp] theorem stepped_live : (w.stepped i eff acts).live = w.live := by
  simp only [stepped]; split <;> simp

@[simp] theorem stepped_pthreadCount :
    (w.stepped i eff acts).pthreadCount = w.pthreadCount := by
  simp only [stepped]; split <;> simp

/-- A client whose connection is open notices the message sent to it. -/
theorem stepped_clients (t : Tid) : (w.stepped i eff acts).clients t =
    match eff.sent with
    | none => w.clients t
    | some m => if m.1 ∈ w.live ∧ t = m.1 then { w.clients m.1 with
        waiting := false, answers := (w.clients m.1).answers ++ [m.2] } else w.clients t := by
  unfold stepped
  rcases eff.sent with _ | m
  · rfl
  · exact receive_clients m t

end World

/-! ## What an event needs and does -/

theorem World.next_begin {tid : Tid} {op : ClientOp} (h : w.next (.begin tid op) = some w') :
    tid ∈ w.live ∧ (w.clients tid).waiting = false ∧ (w.clients tid).script = [] ∧
      w' = w.begun tid op := by
  simp only [next] at h
  split at h <;> cases h
  rename_i h
  exact ⟨h.1, h.2.1, h.2.2, rfl⟩

theorem World.next_send {tid : Tid} (h : w.next (.send tid) = some w') :
    tid ∈ w.live ∧ (w.clients tid).waiting = false ∧
      ∃ m script, (w.clients tid).script = m :: script ∧ w' = w.sent tid m script := by
  simp only [next] at h
  split at h
  · rename_i hc
    rcases hs : (w.clients tid).script with _ | ⟨m, script⟩ <;> rw [hs] at h <;> cases h
    exact ⟨hc.1, hc.2, m, script, rfl, rfl⟩
  · cases h

theorem World.next_act {i : Nat} (h : w.next (.act i) = some w') :
    ∃ a acts eff, w.pool[i]? = some (a :: acts) ∧ a.exec w.server = some eff ∧
      w' = w.stepped i eff acts := by
  simp only [next] at h
  split at h
  · rename_i a acts hi
    obtain ⟨eff, he, rfl⟩ := Option.map_eq_some_iff.1 h
    exact ⟨a, acts, eff, hi, he, rfl⟩
  · cases h

theorem World.next_registerThread {pid : Pid} (h : w.next (.registerThread pid) = some w') :
    ∃ tids, w.server.pthreads.get? pid = some tids ∧ w' = w.registered pid tids := by
  obtain ⟨tids, ht, rfl⟩ := Option.map_eq_some_iff.1 h
  exact ⟨tids, ht, rfl⟩

theorem World.next_depart {tid : Tid} (h : w.next (.depart tid) = some w') :
    tid ∈ w.live ∧ w' = w.departed tid := by
  simp only [next] at h
  split at h <;> cases h
  exact ⟨‹_›, rfl⟩

theorem World.next_finalise {o : ObjId} (h : w.next (.finalise o) = some w') :
    ∃ t, w.server.obj? o = some t ∧ w.unreferenced o ∧ o ∉ w.finalised ∧
      w' = { w with finalised := o :: w.finalised, pool := w.pool ++ [finaliser t] } := by
  obtain ⟨t, ht, h⟩ := Option.bind_eq_some_iff.1 h
  split at h <;> cases h
  rename_i hc
  exact ⟨t, ht, hc.1, hc.2, rfl⟩

theorem World.next_rehash {o : ObjId} {blocked : Dict Tid Blocked}
    (hp : (Event.rehash o blocked).Proper w) (h : w.next (.rehash o blocked) = some w') :
    ∃ t, w.server.obj? o = some t ∧ t.blockedList.Rehash blocked ∧
      w' = { w with server := w.server.setObj o { t with blockedList := blocked } } := by
  obtain ⟨t, ht, rfl⟩ := Option.map_eq_some_iff.1 h
  exact ⟨t, ht, hp t ht, rfl⟩

end PyLinda
