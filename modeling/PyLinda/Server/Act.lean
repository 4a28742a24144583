import PyLinda.Server.State

/-!
# What the server's threads do

A Python thread is the list of what it still has to do, one atomic step after
another. A step works on the tables, may put further steps in front of the rest,
start threads and send one message; an exception ends the thread.
-/

namespace PyLinda

open Lib

/-- An entry of the list that `isLocallyDeadlocked` works off. -/
inductive Node where
  | holder (ref : Holder)
  | thread (tid : Tid)
  deriving DecidableEq, Repr

inductive Act where
  /-- `blocked_threads[tid] = (req, ts)` at the head of `read_tuple` and `in_tuple`. -/
  | setBlocked (ts : TsId) (r : Request)
  /-- `blocked_threads[tid]`, and the assertion that it is there. -/
  | getBlocked (tid : Tid)
  /-- `del blocked_threads[tid]`. -/
  | delBlocked (tid : Tid)
  /-- `local_ts[ts]` of `read_tuple` and `in_tuple`. -/
  | read (ts : TsId) (r : Request)
  /-- `_rd` or `_in`. -/
  | readAt (o : ObjId) (r : Request)
  /-- `local_ts[ts]` in front of an `_out`, raising `missing` when it is not there. -/
  | out (ts : TsId) (tup : Tuple) (missing : PyExc)
  | outAt (o : ObjId) (tup : Tuple)
  | reply (tid : Tid) (r : Reply)
  /-- `local_ts.addReference` up to the object. -/
  | addReference (ts : TsId) (ref : Holder)
  | addreference (o : ObjId) (ref : Holder)
  /-- `local_ts.deleteReference` up to the object. -/
  | deleteReference (ts : TsId) (ref : Holder)
  /-- `removereference` up to the release of the kill lock. -/
  | removereference (o : ObjId) (ref : Holder)
  | deleteAllReferences (ts : TsId) (ref : Holder)
  | removeanyreferences (o : ObjId) (ref : Holder)
  /-- `killlock.acquire()`. -/
  | acquire (o : ObjId)
  /-- The loop of `removeanyreferences` and the release of the kill lock. -/
  | removeAll (o : ObjId) (ref : Holder)
  /-- `if isDeadLocked(): unblockRandom()`; with a `ts` both are called on `local_ts[ts]`. -/
  | isDeadLocked (o : ObjId) (again : Option TsId)
  /-- One turn of the loop of `isLocallyDeadlocked`. -/
  | walk (o : ObjId) (again : Option TsId) (refs : List Node) (threads : List Tid)
  | unblockRandom (o : ObjId)
  | unblockAgain (ts : TsId)
  | doGarbageCollection (o : ObjId)
  /-- One turn of the loop of `doGarbageCollection`. -/
  | gcWalk (o : ObjId) (toCheck memo : List Holder)
  | garbage (o : ObjId)
  /-- `del self.ts[ts._id]` of `garbage`. -/
  | dropTs (ts : TsId)
  | newTupleSpace (ts : TsId)
  /-- `if not local_ts.has_key(ts)` of `add_reference`. -/
  | ensure (ts : TsId)
  | create (tid : Tid)
  /-- `collect` and `copy_collect`: find the source, the destination, and scan. -/
  | collect (tid : Tid) (copy : Bool) (ts destTs : TsId) (template : Tuple)
  | collectDest (tid : Tid) (copy new : Bool) (o : ObjId) (destTs : TsId) (template : Tuple)
  | collectAt (tid : Tid) (copy new : Bool) (o dest : ObjId) (template : Tuple)
  /-- `sendMessageToNode` to somebody who is not a node. -/
  | sendNowhere
  /-- `local_ts[ts].killlock.acquire()` of `delete_reference`. -/
  | deleteRequest (tid : Tid) (ts : TsId) (ref : Holder)
  /-- Start a thread for `local_ts.deleteReference`. -/
  | forkDelete (ts : TsId) (ref : Holder)
  -- `removeProcess`
  | dropThread (tid : Tid)
  | dropPthread (tid : Tid)
  | ifLast (pid : Pid)
  | dropBlocked (pid : Pid)
  | dropProcess (pid : Pid)
  | dropReferences (pid : Pid)
  | sweep (ts : TsId)

/-- What a step does. -/
structure Effect where
  server : Server
  next : List Act := []
  spawned : List (List Act) := []
  sent : Option (Tid × Reply) := none
  raised : Option PyExc := none

/-- The objects a thread holds on to with this step still ahead. -/
def Act.objs : Act → List ObjId
  | readAt o _ | outAt o _ | addreference o _ | removereference o _ | removeanyreferences o _
  | acquire o | removeAll o _ | isDeadLocked o _ | walk o _ _ _ | unblockRandom o
  | doGarbageCollection o | gcWalk o _ _ | garbage o | collectDest _ _ _ o _ _ => [o]
  | collectAt _ _ _ o dest _ => [o, dest]
  | _ => []

/-! ## The lists of steps the helpers are -/

/-- `utils.addReference(tup, new)`. -/
def addReferences (tup : Tuple) (new : Holder) : List Act :=
  tup.tsRefs.map fun e => .addReference e new

/-- `utils.delReference(tup, cur)`. -/
def delReferences (tup : Tuple) (cur : Holder) : List Act :=
  tup.tsRefs.map fun e => .deleteReference e cur

/-- `utils.changeOwner(tup, cur, new)`. -/
def changeOwner (tup : Tuple) (cur new : Holder) : List Act :=
  tup.tsRefs.flatMap fun e => [.addReference e new, .deleteReference e cur]

/-- `utils.addReference(tup, ts, node)` when `node` is not the id of a node. -/
def addReferencesNowhere (tup : Tuple) : List Act := tup.tsRefs.map fun _ => .sendNowhere

/-- The thread that a `Spawn` of the tuplespace `o` with id `ts` runs. No other
node has sent a request. -/
def Spawn.thread (o : ObjId) (ts : TsId) : Spawn → List Act
  | .returnTuple tid matched _ =>
    [.getBlocked tid, .delBlocked tid] ++ changeOwner matched (.ts ts) (.proc tid.pid) ++
      [.reply tid (.tuple matched)]
  | .forward _ _ => []
  | .addTuples _ => [.isDeadLocked o none]

/-- What the handler does with the tuple of `_rd` or `_in`. -/
def Request.answered (r : Request) (ts : TsId) (t : Tuple) : List Act :=
  .delBlocked r.tid ::
    (if r.msg.destructive then changeOwner t (.ts ts) (.proc r.tid.pid)
      else addReferences t (.proc r.tid.pid)) ++
    [.reply r.tid (.tuple t)]

/-- The loop of `collect` or `copy_collect` over the tuples it found in `src`. -/
def collectLoop (copy : Bool) (src destTs : TsId) (tups : List Tuple) : List Act :=
  tups.flatMap fun t =>
    (if copy then addReferencesNowhere t else changeOwner t (.obj src) (.ts destTs)) ++
      [.out destTs t .keyError]

/-- The handler of a message. -/
def Msg.handler (tid : Tid) : Msg → List Act
  | .createTuplespace => [.create tid]
  | .out ts tup => [.out ts tup .assertionError, .reply tid .done]
  | .read msg ts template => [.setBlocked ts ⟨tid, msg, template⟩]
  | .collect copy ts destTs template => [.collect tid copy ts destTs template]
  | .addReference ts ref => [.ensure ts, .addReference ts ref, .reply tid .done]
  | .deleteReference .uts => [.reply tid .done]
  | .deleteReference ts => [.deleteRequest tid ts (.proc tid.pid)]

/-- `removeProcess` for the connection of a thread. -/
def removeProcess (tid : Tid) : List Act := [.dropThread tid, .dropPthread tid, .ifLast tid.pid]

/-- The part of `removeProcess` for the last thread of a process. -/
def removeLast (pid : Pid) : List Act := [.dropBlocked pid, .dropProcess pid, .dropReferences pid]

/-! ## The two walks -/

/-- How a turn of the deadlock walk ends. -/
inductive Turn where
  | returned (b : Bool)
  | raised (e : PyExc)
  | next (refs : List Node) (threads : List Tid)

/-- One turn of the loop of `isLocallyDeadlocked`. -/
def Server.deadlockTurn (s : Server) (threads : List Tid) : List Node → Turn
  | [] => .returned true
  | .holder (.ts .uts) :: _ => .returned false
  | .holder (.ts ts) :: refs =>
    match (s.lookup ts).bind s.obj? with
    | some t => .next (refs ++ t.refs.map .holder) threads
    | none => .raised .keyError
  | .holder (.proc pid) :: refs =>
    match s.pthreads.get? pid with
    | some tids => .next (refs ++ tids.map .thread) threads
    | none => .raised .keyError
  | .thread tid :: refs =>
    if tid ∈ threads then .next refs threads
    else if (s.blockedThreads.get? tid).isSome then .next refs (tid :: threads)
    else .returned false
  | .holder (.obj _) :: _ => .raised .assertionError

/-- How a turn of the garbage walk ends. -/
inductive GcTurn where
  | alive
  | garbage
  | next (toCheck memo : List Holder)

/-- One turn of the loop of `doGarbageCollection`. -/
def Server.gcTurn (s : Server) (memo : List Holder) : List Holder → GcTurn
  | [] => .garbage
  | i :: toCheck =>
    if i ∈ memo then .next toCheck memo
    else match i with
      | .proc _ | .ts .uts => .alive
      | .ts ts =>
        match (s.lookup ts).bind s.obj? with
        | some t => .next (toCheck ++ t.refs) (memo ++ [i])
        | none => .next toCheck (memo ++ [i])
      | .obj _ => .next toCheck (memo ++ [i])

/-! ## One step -/

namespace Effect

/-- Go on with `acts`. -/
def go (s : Server) (acts : List Act) : Effect := { server := s, next := acts }

def raise (s : Server) (e : PyExc) : Effect := { server := s, raised := some e }

end Effect

/-- A step on an object. The thread holds it, so it is on the heap. -/
def Server.onObj (s : Server) (o : ObjId) (f : TupleSpace → Option Effect) : Option Effect :=
  (s.obj? o).bind f

/-- A step that begins with `local_ts[ts]`. -/
def Server.onTs (s : Server) (ts : TsId) (missing : Effect) (f : ObjId → Effect) : Effect :=
  match s.lookup ts with
  | none => missing
  | some o => f o

/-- The step a thread takes, `none` while it has to wait for a lock. -/
def Act.exec (s : Server) : Act → Option Effect
  | setBlocked ts r =>
    some (.go { s with blockedThreads := s.blockedThreads.set r.tid ts } [.read ts r])
  | getBlocked tid =>
    if (s.blockedThreads.get? tid).isSome then some (.go s []) else some (.raise s .keyError)
  | delBlocked tid =>
    if (s.blockedThreads.get? tid).isSome then
      some (.go { s with blockedThreads := s.blockedThreads.erase tid } [])
    else some (.raise s .keyError)
  | read ts r => some (s.onTs ts (.raise s .assertionError) fun o => .go s [.readAt o r])
  | readAt o r => s.onObj o fun t =>
    let out := if r.msg.destructive then t._in r.tid r.template r.msg.unblockable
      else t._rd r.tid r.template r.msg.unblockable
    let s' := s.setObj o out.ts
    let spawned := out.spawned.map (Spawn.thread o t.id)
    match out.result with
    | .error e => some { server := s', spawned, raised := some e }
    | .ok none => some { server := s', spawned }
    | .ok (some m) => some { server := s', next := r.answered t.id m, spawned }
  | out ts tup missing => some (s.onTs ts (.raise s missing) fun o => .go s [.outAt o tup])
  | outAt o tup => s.onObj o fun t =>
    let out := t._out tup
    let s' := s.setObj o out.ts
    let spawned := out.spawned.map (Spawn.thread o t.id)
    match out.result with
    | .error e => some { server := s', spawned, raised := some e }
    | .ok () => some { server := s', spawned }
  | reply tid r => some { server := s, sent := some (tid, r) }
  | addReference ts ref =>
    some (s.onTs ts (.raise s .keyError) fun o => .go s [.addreference o ref])
  | addreference o ref => s.onObj o fun t =>
    if t.id = .uts then some (.go s [])
    else some (.go (s.setObj o { t with refs := t.refs ++ [ref] }) [])
  | deleteReference ts ref =>
    some (s.onTs ts (.go s []) fun o => .go s [.removereference o ref, .garbage o])
  | removereference o ref => s.onObj o fun t =>
    if t.id = .uts then some (.go (s.setObj o { t with killlock := t.killlock + 1 }) [])
    else if ref ∈ t.refs then
      some (.go (s.setObj o { t with refs := t.refs.erase ref, killlock := t.killlock + 1 })
        [.isDeadLocked o none, .doGarbageCollection o])
    else some (.raise (s.setObj o { t with killlock := t.killlock + 1 }) .systemError)
  | deleteAllReferences ts ref =>
    some (s.onTs ts (.go s []) fun o => .go s [.removeanyreferences o ref, .garbage o])
  | removeanyreferences o ref => s.onObj o fun t =>
    if t.id = .uts then some (.go s [])
    else some (.go s [.acquire o, .removeAll o ref, .isDeadLocked o none, .doGarbageCollection o])
  | acquire o => s.onObj o fun t =>
    if t.killlock = 0 then none
    else some (.go (s.setObj o { t with killlock := t.killlock - 1 }) [])
  | removeAll o ref => s.onObj o fun t =>
    some (.go (s.setObj o { t with
      refs := t.refs.filter (· ≠ ref), killlock := t.killlock + 1 }) [])
  | isDeadLocked o again => s.onObj o fun t =>
    if t.id = .uts then some (.go s [])
    else some (.go s [.walk o again (t.refs.map .holder) []])
  | walk o again refs threads =>
    match s.deadlockTurn threads refs with
    | .returned true => some (.go s [match again with
        | none => .unblockRandom o
        | some ts => .unblockAgain ts])
    | .returned false => some (.go s [])
    | .raised e => some (.raise s e)
    | .next refs' threads' => some (.go s [.walk o again refs' threads'])
  | unblockAgain ts => some (s.onTs ts (.raise s .keyError) fun o => .go s [.unblockRandom o])
  | unblockRandom o => s.onObj o fun t =>
    match t.unblockRandom with
    | (_, none) => some (.go s [])
    | (t', some p) => some (.go (s.setObj o t') [.getBlocked p, .delBlocked p, .reply p .unblock])
  | doGarbageCollection o => s.onObj o fun t => some (.go s [.gcWalk o t.refs [.ts t.id]])
  | gcWalk o toCheck memo => s.onObj o fun t =>
    match s.gcTurn memo toCheck with
    | .alive => some (.go s [])
    | .garbage => some (.go (s.setObj o { t with refs := [] }) [])
    | .next toCheck' memo' => some (.go s [.gcWalk o toCheck' memo'])
  | garbage o => s.onObj o fun t =>
    if t.id = .uts ∨ t.refs ≠ [] then some (.go s []) else some (.go s [.dropTs t.id])
  | dropTs ts => some (.go { s with localTs := s.localTs.erase ts } [])
  | newTupleSpace ts => some (.go (s.newTupleSpace ts) [])
  | ensure ts => some (s.onTs ts (.go s [.newTupleSpace ts]) fun _ => .go s [])
  | create tid =>
    let ts := TsId.sid s.nextGuid
    some (.go { s with nextGuid := s.nextGuid + 1 }
      [.newTupleSpace ts, .addReference ts (.proc tid.pid), .reply tid (.string ts)])
  | collect tid copy ts destTs template =>
    -- for a missing source it sends the int 0, which `send` refuses
    some (s.onTs ts (.raise s .assertionError) fun o =>
      .go s [.collectDest tid copy false o destTs template])
  | collectDest tid copy new o destTs template =>
    some (s.onTs destTs
      (if new then .raise s .keyError
        else .go s [.newTupleSpace destTs, .collectDest tid copy true o destTs template])
      fun dest => .go s [.collectAt tid copy new o dest template])
  | collectAt tid copy new o dest template => s.onObj o fun t => (s.obj? dest).bind fun d =>
    let out := if copy then t.copyCollect template else t.collect template
    let s' := s.setObj o out.ts
    match out.result with
    | .error e => some (.raise s' e)
    | .ok tups => some (.go s' (collectLoop copy t.id d.id tups ++
        (if new then [.garbage dest] else []) ++ [.reply tid (.int tups.length)]))
  | sendNowhere => some (.raise s .assertionError)
  | deleteRequest tid ts ref =>
    some (s.onTs ts (.go s [.reply tid .done]) fun o =>
      .go s [.acquire o, .forkDelete ts ref, .reply tid .done])
  | forkDelete ts ref => some { server := s, spawned := [[.deleteReference ts ref]] }
  | dropThread tid =>
    if tid ∈ s.threads then some (.go { s with threads := s.threads.erase tid } [])
    else some (.raise s .keyError)
  | dropPthread tid =>
    match s.pthreads.get? tid.pid with
    | none => some (.raise s .keyError)
    | some tids =>
      if tid ∈ tids then
        some (.go { s with pthreads := s.pthreads.set tid.pid (tids.erase tid) } [])
      else some (.raise s .valueError)
  | ifLast pid =>
    match s.pthreads.get? pid with
    | none => some (.raise s .keyError)
    | some [] => some (.go s (removeLast pid))
    | some (_ :: _) => some (.go s (s.localTs.keys.map .sweep))
  | sweep ts => some (s.onTs ts (.go s []) fun o => .go s [.isDeadLocked o (some ts)])
  | dropBlocked pid =>
    some (.go s ((s.blockedThreads.keys.filter (·.pid = pid)).map .delBlocked))
  | dropProcess pid =>
    if (s.pthreads.get? pid).isSome then
      some (.go { s with pthreads := s.pthreads.erase pid } [])
    else some (.raise s .keyError)
  | dropReferences pid =>
    some (.go s (s.localTs.keys.map fun ts => .deleteAllReferences ts (.proc pid)))

variable {s : Server} {eff : Effect}

theorem Server.onObj_eq_some {o : ObjId} {f : TupleSpace → Option Effect} :
    s.onObj o f = some eff ↔ ∃ t, s.obj? o = some t ∧ f t = some eff :=
  Option.bind_eq_some_iff

/-- `_rd` or `_in` parks the reader, hands the handler a stored tuple, or raises. -/
theorem readAt_cases {o : ObjId} {r : Request} (h : (Act.readAt o r).exec s = some eff) :
    ∃ t, s.obj? o = some t ∧
      (((∀ m ∈ t.ts.contain, Skips m r.template) ∧
        eff = {
          server := s.setObj o
            (t.block r.tid ⟨r.template, r.msg.unblockable, r.msg.destructive⟩).ts
          spawned := [[.isDeadLocked o none]] }) ∨
      (∃ m c, m ∈ t.ts.contain ∧ Matches m r.template ∧
        (if r.msg.destructive then deleteFirst m t.ts.contain = .ok c else c = t.ts.contain) ∧
        eff = { server := s.setObj o { t with ts := ⟨c⟩ }, next := r.answered t.id m }) ∨
      ∃ e, eff = { server := s.setObj o t, raised := some e }) := by
  obtain ⟨t, ht, h⟩ := Server.onObj_eq_some.1 h
  refine ⟨t, ht, ?_⟩
  rcases hd : r.msg.destructive with _ | _
  · rcases TupleSpace._rd_cases (s := t) r.tid r.template r.msg.unblockable with
      ⟨hs, hx⟩ | ⟨pre, m, post, hl, -, hm, hx⟩ | ⟨e, hx⟩
    · simp only [hd, hx, TupleSpace.block] at h
      cases h
      exact .inl ⟨hs, rfl⟩
    · simp only [hd, hx] at h
      cases h
      exact .inr (.inl ⟨m, t.ts.contain, by simp [hl], hm, rfl, rfl⟩)
    · simp only [hd, hx] at h
      cases h
      exact .inr (.inr ⟨e, rfl⟩)
  · rcases TupleSpace._in_cases (s := t) r.tid r.template r.msg.unblockable with
      ⟨hs, hx⟩ | ⟨pre, m, post, c, hl, -, hm, hc, hx⟩ | ⟨e, -, hx⟩
    · simp only [hd, hx, TupleSpace.block] at h
      cases h
      exact .inl ⟨hs, rfl⟩
    · simp only [hd, hx] at h
      cases h
      exact .inr (.inl ⟨m, c, by simp [hl], hm, hc, rfl⟩)
    · simp only [hd, hx] at h
      cases h
      exact .inr (.inr ⟨e, rfl⟩)

/-- Where no stored tuple matches, the reader is parked. -/
theorem readAt_parks {o : ObjId} {r : Request} {t : TupleSpace} (ht : s.obj? o = some t)
    (hs : ∀ m ∈ t.ts.contain, Skips m r.template) : (Act.readAt o r).exec s = some {
      server := s.setObj o (t.block r.tid ⟨r.template, r.msg.unblockable, r.msg.destructive⟩).ts
      spawned := [[.isDeadLocked o none]] } := by
  have hm : t.ts.matchOneTuple r.template = .ok none := matchFirst_skips hs
  cases hd : r.msg.destructive <;>
    simp [Act.exec, Server.onObj, ht, hd, TupleSpace._in, TupleSpace._rd, hm, TupleSpace.block,
      Spawn.thread]

/-- `_out` on the object, whether it returned or raised. -/
theorem outAt_cases {o : ObjId} {tup : Tuple} (h : (Act.outAt o tup).exec s = some eff) :
    ∃ t, s.obj? o = some t ∧ ∃ raised, eff = {
      server := s.setObj o (t._out tup).ts
      spawned := (t._out tup).spawned.map (Spawn.thread o t.id)
      raised } := by
  obtain ⟨t, ht, h⟩ := Server.onObj_eq_some.1 h
  refine ⟨t, ht, ?_⟩
  simp only at h
  split at h <;> cases h
  · exact ⟨_, rfl⟩
  · exact ⟨_, rfl⟩

/-- A scan of `collect` or `copy_collect` takes some stored tuples out; it goes on
with what it found, or raises. -/
theorem collectAt_cases {tid : Tid} {copy new : Bool} {o dest : ObjId} {template : Tuple}
    (h : (Act.collectAt tid copy new o dest template).exec s = some eff) :
    ∃ t d c, s.obj? o = some t ∧ s.obj? dest = some d ∧ c.Sublist t.ts.contain ∧
      ((∃ e, eff = .raise (s.setObj o { t with ts := ⟨c⟩ }) e) ∨
      ∃ tups, eff = .go (s.setObj o { t with ts := ⟨c⟩ }) (collectLoop copy t.id d.id tups ++
        (if new then [.garbage dest] else []) ++ [.reply tid (.int tups.length)])) := by
  obtain ⟨t, ht, h⟩ := Server.onObj_eq_some.1 h
  obtain ⟨d, hd, h⟩ := Option.bind_eq_some_iff.1 h
  rcases copy with _ | _
  · rcases hm : t.ts.matchTuples template with e | l
    · simp only [TupleSpace.collect_error hm] at h
      cases h
      exact ⟨t, d, t.ts.contain, ht, hd, List.Sublist.refl _, .inl ⟨e, rfl⟩⟩
    · refine ⟨t, d, (deleteAll t.ts l).1.contain, ht, hd, deleteAll_sublist t.ts l, ?_⟩
      simp only [TupleSpace.collect_ok hm] at h
      rcases hr : (deleteAll t.ts l).2 with _ | e
      · simp only [hr] at h
        cases h
        exact .inr ⟨_, rfl⟩
      · simp only [hr] at h
        cases h
        exact .inl ⟨e, rfl⟩
  · refine ⟨t, d, t.ts.contain, ht, hd, List.Sublist.refl _, ?_⟩
    rcases hm : t.ts.matchTuples template with e | l
    · simp only [TupleSpace.copyCollect, hm] at h
      cases h
      exact .inl ⟨e, rfl⟩
    · simp only [TupleSpace.copyCollect, hm] at h
      cases h
      exact .inr ⟨_, rfl⟩

/-- `unblockRandom` finds nobody, or takes a reader off the `blocked_list`. -/
theorem unblockRandom_cases {o : ObjId} (h : (Act.unblockRandom o).exec s = some eff) :
    ∃ t, s.obj? o = some t ∧
      ((pickUnblockable t.blockedList.entries = none ∧ eff = .go s []) ∨
      ∃ p, pickUnblockable t.blockedList.entries = some p ∧
        eff = .go (s.setObj o { t with blockedList := t.blockedList.erase p })
          [.getBlocked p, .delBlocked p, .reply p .unblock]) := by
  obtain ⟨t, ht, h⟩ := Server.onObj_eq_some.1 h
  refine ⟨t, ht, ?_⟩
  rcases hp : pickUnblockable t.blockedList.entries with _ | p
  · simp only [TupleSpace.unblockRandom, hp] at h
    cases h
    exact .inl ⟨rfl, rfl⟩
  · simp only [TupleSpace.unblockRandom, hp] at h
    cases h
    exact .inr ⟨p, rfl, rfl⟩

end PyLinda
