import PyLinda.Lib.Pool
import PyLinda.Lib.Run
import PyLinda.Server.World

/-!
# At most one reply

A request is one token. It stands for the message that will answer the request:
it is carried by the handler, by the entry in a `blocked_list`, or by the thread
that wakes or unblocks the reader, and it is spent when the answer is sent. No
step makes a second one. Counted without the answers under way (`c = 0`), the
tokens are the requests nobody has decided yet.
-/

namespace PyLinda

open Lib

/-- The tokens of `tid` in a step, an answer under way counting `c`. -/
def Act.token (c : Nat) (tid : Tid) : Act → Nat
  | .setBlocked _ r | .read _ r | .readAt _ r => if r.tid = tid then 1 else 0
  | .reply t _ | .create t | .collect t _ _ _ _ | .collectDest t _ _ _ _ _
  | .collectAt t _ _ _ _ _ | .deleteRequest t _ _ => if t = tid then c else 0
  | _ => 0

/-- The entries of `tid` in a `blocked_list`. -/
def TupleSpace.parked (tid : Tid) (t : TupleSpace) : Nat :=
  t.blockedList.entries.countP fun x => x.1 = tid

/-- The message a step sends to `tid`. -/
def sentTo (tid : Tid) : Option (Tid × Reply) → Nat
  | some m => if m.1 = tid then 1 else 0
  | none => 0

def Server.parked (tid : Tid) (s : Server) : Nat := weight (TupleSpace.parked tid) s.objs

variable {c : Nat} {tid : Tid} {s : Server} {t : TupleSpace} {o : ObjId}

/-! ## The lists of steps -/

@[simp] theorem weight_token_addReferences (tup : Tuple) (h : Holder) :
    weight (Act.token c tid) (addReferences tup h) = 0 :=
  weight_eq_zero (by simp [addReferences, Act.token])

@[simp] theorem weight_token_delReferences (tup : Tuple) (h : Holder) :
    weight (Act.token c tid) (delReferences tup h) = 0 :=
  weight_eq_zero (by simp [delReferences, Act.token])

@[simp] theorem weight_token_changeOwner (tup : Tuple) (h h' : Holder) :
    weight (Act.token c tid) (changeOwner tup h h') = 0 :=
  weight_eq_zero (by
    simp only [changeOwner, List.mem_flatMap, List.mem_cons, List.not_mem_nil, or_false]
    rintro a ⟨e, -, rfl | rfl⟩ <;> rfl)

@[simp] theorem weight_token_answered (r : Request) (ts : TsId) (m : Tuple) :
    weight (Act.token c tid) (r.answered ts m) = if r.tid = tid then c else 0 := by
  unfold Request.answered
  split <;> simp [Act.token]

@[simp] theorem weight_token_collectLoop (copy : Bool) (ts destTs : TsId) (l : List Tuple) :
    weight (Act.token c tid) (collectLoop copy ts destTs l) = 0 :=
  weight_eq_zero (by
    simp only [collectLoop, List.mem_flatMap, List.mem_append, List.mem_singleton]
    rintro a ⟨m, -, h | rfl⟩
    · split at h
      · simp only [addReferencesNowhere, List.mem_map] at h
        obtain ⟨_, -, rfl⟩ := h
        rfl
      · simp only [changeOwner, List.mem_flatMap, List.mem_cons, List.not_mem_nil, or_false] at h
        obtain ⟨e, -, rfl | rfl⟩ := h <;> rfl
    · rfl)

theorem weight_token_handler (hc : c ≤ 1) (tid t : Tid) (m : Msg) :
    weight (Act.token c tid) (m.handler t) ≤ if t = tid then 1 else 0 := by
  have h : (if t = tid then c else 0) ≤ if t = tid then 1 else 0 := by split <;> omega
  rcases m with _ | _ | _ | _ | _ | ts
  case deleteReference => rcases ts with _ | g <;> simpa [Msg.handler, Act.token] using h
  case read => simp [Msg.handler, Act.token]
  all_goals simpa [Msg.handler, Act.token] using h

/-! ## The operations of a tuplespace -/

/-- The token of a woken reader moves from the entry to the thread that answers it. -/
theorem parked_checkBlocked (hc : c ≤ 1) (tup : Tuple) (l : List (Tid × Blocked)) (ts : TsId) :
    (checkBlocked tup l).1.countP (fun x => x.1 = tid) +
      poolWeight (Act.token c tid) ((checkBlocked tup l).2.1.map (Spawn.thread o ts)) ≤
    l.countP fun x => x.1 = tid := by
  induction l with
  | nil => exact Nat.le_refl 0
  | cons x l ih =>
    obtain ⟨p, b⟩ := x
    rcases checkBlocked_cons tup p b l with ⟨-, h⟩ | ⟨e, -, h⟩ | ⟨-, -, h⟩ | ⟨-, -, h⟩
    · simp only [h, List.countP_cons]
      omega
    · simp [h]
    · simp only [h, List.countP_cons, List.map_cons, List.map_nil, poolWeight_cons, poolWeight_nil,
        Spawn.thread, weight_append, weight_cons, weight_nil, Act.token, weight_token_changeOwner,
        decide_eq_true_eq]
      split <;> omega
    · rw [h, List.countP_cons]
      simp only [List.map_cons, poolWeight_cons, Spawn.thread, weight_append, weight_cons,
        weight_nil, Act.token, weight_token_changeOwner, decide_eq_true_eq]
      split <;> omega

/-- Besides the readers it wakes `_out` starts at most a thread for another node. -/
theorem _out_spawned_append (tup : Tuple) : ∃ l : List Spawn,
    (t._out tup).spawned = (checkBlocked tup t.blockedList.entries).2.1 ++ l ∧
      ∀ sp ∈ l, ∃ node m, sp = .forward node m := by
  rcases h : (checkBlocked tup t.blockedList.entries).2.2 with _ | _ | e
  · rcases hr : checkRequests tup t.requests with e | _ | f
    · exact ⟨[], by simp [TupleSpace._out, h, hr]⟩
    · exact ⟨[], by simp [TupleSpace._out, h, hr]⟩
    · exact ⟨[f], by simpa [TupleSpace._out, h, hr] using TupleSpace.checkRequests_some hr⟩
  all_goals exact ⟨[], by simp [TupleSpace._out, h]⟩

theorem parked_out (hc : c ≤ 1) (t : TupleSpace) (o : ObjId) (tup : Tuple) (ts : TsId) :
    (t._out tup).ts.parked tid +
      poolWeight (Act.token c tid) ((t._out tup).spawned.map (Spawn.thread o ts)) ≤
        t.parked tid := by
  obtain ⟨l, hl, hfw⟩ := _out_spawned_append (t := t) tup
  have hzero : poolWeight (Act.token c tid) (l.map (Spawn.thread o ts)) = 0 := by
    refine poolWeight_eq_zero fun acts hacts => ?_
    obtain ⟨sp, hsp, rfl⟩ := List.mem_map.1 hacts
    obtain ⟨node, m, rfl⟩ := hfw sp hsp
    rfl
  rw [hl, List.map_append, poolWeight_append, hzero, add_zero, TupleSpace.parked,
    TupleSpace._out_blockedList]
  exact parked_checkBlocked hc tup t.blockedList.entries ts

theorem parked_block (t : TupleSpace) (p : Tid) (b : Blocked) :
    (t.block p b).ts.parked tid ≤ t.parked tid + if p = tid then 1 else 0 := by
  simp only [TupleSpace.parked, TupleSpace.block, Dict.set, List.countP_cons, decide_eq_true_eq]
  have : (t.blockedList.erase p).entries.countP (fun x => x.1 = tid) ≤
      t.blockedList.entries.countP fun x => x.1 = tid :=
    List.filter_sublist.countP_le
  omega

/-- The token of an unblocked reader moves to the thread that unblocks it. -/
theorem parked_unblock {p : Tid} (h : pickUnblockable t.blockedList.entries = some p) :
    TupleSpace.parked tid { t with blockedList := t.blockedList.erase p } +
      (if p = tid then 1 else 0) ≤ t.parked tid := by
  obtain ⟨x, hx, rfl⟩ := Option.map_eq_some_iff.1 h
  have hmem := List.mem_of_find?_eq_some hx
  simp only [TupleSpace.parked, Dict.erase, Dict.restrict, List.countP_filter]
  by_cases hq : x.1 = tid
  · have h0 : t.blockedList.entries.countP
        (fun e => decide (e.1 = tid) && decide (e.1 ≠ x.1)) = 0 := by
      rw [List.countP_eq_zero]
      intro e _
      simp [hq]
    have h1 : 0 < t.blockedList.entries.countP fun e => e.1 = tid :=
      List.countP_pos_iff.2 ⟨x, hmem, by simp [hq]⟩
    rw [h0, if_pos hq]
    omega
  · rw [if_neg hq, add_zero]
    exact List.countP_mono_left fun e _ => by simp +contextual

/-! ## The heap -/

theorem parked_setObj (h : s.obj? o = some t) (t' : TupleSpace) :
    (s.setObj o t').parked tid + t.parked tid = s.parked tid + t'.parked tid :=
  weight_set (TupleSpace.parked tid) h t'

theorem parked_newTupleSpace (ts : TsId) : (s.newTupleSpace ts).parked tid = s.parked tid := by
  simp [Server.parked, Server.newTupleSpace, TupleSpace.parked, TupleSpace.init, Dict.empty]

theorem TupleSpace.parked_eq_zero_iff : t.parked tid = 0 ↔ tid ∉ t.blockedList.keys := by
  simp only [TupleSpace.parked, List.countP_eq_zero, decide_eq_true_eq, Dict.mem_keys]
  constructor
  · rintro h ⟨b, hb⟩
    exact h _ hb rfl
  · rintro h ⟨p, b⟩ hb rfl
    exact h ⟨b, hb⟩

/-- No token is parked exactly when the thread is in no `blocked_list`. -/
theorem parked_eq_zero_iff :
    s.parked tid = 0 ↔ ∀ o t, s.obj? o = some t → tid ∉ t.blockedList.keys := by
  unfold Server.parked weight
  rw [List.sum_eq_zero_iff]
  constructor
  · intro h o t ht
    exact TupleSpace.parked_eq_zero_iff.1 (h _ (List.mem_map_of_mem (List.mem_of_getElem? ht)))
  · intro h n hn
    obtain ⟨t, ht, rfl⟩ := List.mem_map.1 hn
    obtain ⟨o, ho⟩ := List.mem_iff_getElem?.1 ht
    exact TupleSpace.parked_eq_zero_iff.2 (h o t ho)

/-! ## One step of a thread -/

theorem parked_setObj_of_blockedList {t' : TupleSpace} (h : s.obj? o = some t)
    (hb : t'.blockedList = t.blockedList) : (s.setObj o t').parked tid = s.parked tid := by
  have h1 : (s.setObj o t').parked tid + t.parked tid = s.parked tid + t'.parked tid :=
    parked_setObj h t'
  have h2 : t'.parked tid = t.parked tid := by simp [TupleSpace.parked, hb]
  omega

/-- No step of a thread makes a token. -/
theorem exec_token (hc : c ≤ 1) (tid : Tid) {a : Act} {eff : Effect} (h : a.exec s = some eff) :
    eff.server.parked tid + (weight (Act.token c tid) eff.next +
      poolWeight (Act.token c tid) eff.spawned) + c * sentTo tid eff.sent ≤
    s.parked tid + a.token c tid := by
  cases a with
  | readAt o r =>
    obtain ⟨t, ht, ⟨-, rfl⟩ | ⟨m, c, -, -, -, rfl⟩ | ⟨e, rfl⟩⟩ := readAt_cases h
    · have h1 (t' : TupleSpace) :
          (s.setObj o t').parked tid + t.parked tid = s.parked tid + t'.parked tid :=
        parked_setObj ht t'
      have h2 (b : Blocked) : (t.block r.tid b).ts.parked tid ≤
          t.parked tid + if r.tid = tid then 1 else 0 := parked_block t r.tid b
      specialize h1 (t.block r.tid ⟨r.template, r.msg.unblockable, r.msg.destructive⟩).ts
      specialize h2 ⟨r.template, r.msg.unblockable, r.msg.destructive⟩
      simp [sentTo, Act.token]
      omega
    · simp [sentTo, Act.token, parked_setObj_of_blockedList ht]
      split <;> omega
    · simp [sentTo, Act.token, parked_setObj_of_blockedList ht]
  | outAt o tup =>
    obtain ⟨t, ht, e, rfl⟩ := outAt_cases h
    have h1 : (s.setObj o (t._out tup).ts).parked tid + t.parked tid =
        s.parked tid + (t._out tup).ts.parked tid := parked_setObj ht _
    have h2 : (t._out tup).ts.parked tid + poolWeight (Act.token c tid)
        ((t._out tup).spawned.map (Spawn.thread o t.id)) ≤ t.parked tid := parked_out hc t o tup t.id
    simp [sentTo, Act.token]
    omega
  | unblockRandom o =>
    obtain ⟨t, ht, ⟨-, rfl⟩ | ⟨p, hp, rfl⟩⟩ := unblockRandom_cases h
    · simp [Effect.go, sentTo, Act.token]
    · have h1 (t' : TupleSpace) :
          (s.setObj o t').parked tid + t.parked tid = s.parked tid + t'.parked tid :=
        parked_setObj ht t'
      have h2 : TupleSpace.parked tid { t with blockedList := t.blockedList.erase p } +
          (if p = tid then 1 else 0) ≤ t.parked tid := parked_unblock hp
      specialize h1 { t with blockedList := t.blockedList.erase p }
      have h3 : (if p = tid then c else 0) ≤ if p = tid then 1 else 0 := by split <;> omega
      simp [Effect.go, sentTo, Act.token]
      omega
  | collectAt p copy new o dest tmpl =>
    obtain ⟨t, d, c, ht, -, -, ⟨e, rfl⟩ | ⟨tups, rfl⟩⟩ := collectAt_cases h
    · simp [Effect.raise, sentTo, Act.token, parked_setObj_of_blockedList ht]
    · cases new <;> simp [Effect.go, sentTo, Act.token, parked_setObj_of_blockedList ht]
  | newTupleSpace ts =>
    cases h
    simp [Effect.go, sentTo, parked_newTupleSpace]
  | acquire o =>
    obtain ⟨t, ht, h⟩ := Server.onObj_eq_some.1 h
    split at h <;> cases h
    simp [Effect.go, sentTo, parked_setObj_of_blockedList ht]
  | removeAll o ref =>
    obtain ⟨t, ht, h⟩ := Server.onObj_eq_some.1 h
    cases h
    simp [Effect.go, sentTo, parked_setObj_of_blockedList ht]
  | removereference o ref =>
    obtain ⟨t, ht, h⟩ := Server.onObj_eq_some.1 h
    split at h
    · cases h
      simp [Effect.go, sentTo, parked_setObj_of_blockedList ht]
    · split at h <;> cases h <;>
        simp [Effect.go, sentTo, Effect.raise, Act.token, parked_setObj_of_blockedList ht]
  | addreference o ref =>
    obtain ⟨t, ht, h⟩ := Server.onObj_eq_some.1 h
    split at h <;> cases h <;> simp [Effect.go, sentTo, parked_setObj_of_blockedList ht]
  | gcWalk o toCheck memo =>
    obtain ⟨t, ht, h⟩ := Server.onObj_eq_some.1 h
    split at h <;> cases h <;> simp [Effect.go, sentTo, Act.token, parked_setObj_of_blockedList ht]
  | removeanyreferences | isDeadLocked | garbage =>
    obtain ⟨t, ht, h⟩ := Server.onObj_eq_some.1 h
    split at h <;> cases h <;> simp [Effect.go, sentTo, Act.token]
  | doGarbageCollection o =>
    obtain ⟨t, ht, h⟩ := Server.onObj_eq_some.1 h
    cases h
    simp [Effect.go, sentTo, Act.token]
  | walk o again refs ths =>
    simp only [Act.exec] at h
    split at h <;> cases h
    · cases again <;> simp [Effect.go, sentTo, Act.token]
    all_goals simp [Effect.go, sentTo, Effect.raise, Act.token]
  | getBlocked | delBlocked | dropThread | dropProcess =>
    simp only [Act.exec] at h
    split at h <;> cases h <;> simp [Effect.go, sentTo, Effect.raise, Server.parked]
  | dropPthread t =>
    simp only [Act.exec] at h
    split at h
    · cases h
      simp [Effect.raise, sentTo]
    · split at h <;> cases h <;> simp [Effect.go, sentTo, Effect.raise, Server.parked]
  | ifLast pid =>
    simp only [Act.exec] at h
    split at h <;> cases h
    · simp [Effect.raise, sentTo]
    · simp [Effect.go, sentTo, removeLast, Act.token]
    · have h0 : weight (Act.token c tid) (s.localTs.keys.map Act.sweep) = 0 :=
        weight_eq_zero (by simp [Act.token])
      simp [Effect.go, sentTo, h0]
  | dropBlocked pid =>
    cases h
    have h0 : weight (Act.token c tid)
        ((s.blockedThreads.keys.filter (·.pid = pid)).map Act.delBlocked) = 0 :=
      weight_eq_zero (by
        intro a ha
        obtain ⟨x, -, rfl⟩ := List.mem_map.1 ha
        rfl)
    simp [Effect.go, sentTo, h0]
  | dropReferences pid =>
    cases h
    have h0 : weight (Act.token c tid)
        (s.localTs.keys.map fun ts => .deleteAllReferences ts (.proc pid)) = 0 :=
      weight_eq_zero (by simp [Act.token])
    simp [Effect.go, sentTo, h0]
  | read ts | out ts | addReference ts | deleteReference ts | deleteAllReferences ts
  | unblockAgain ts | ensure ts | collect _ _ ts | sweep ts | deleteRequest _ ts =>
    cases h
    rcases hl : s.lookup ts with _ | o <;>
      simp [Server.onTs, hl, Effect.go, sentTo, Effect.raise, Act.token]
  | collectDest p copy new o ts tmpl =>
    cases h
    rcases hl : s.lookup ts with _ | o
    · cases new <;> simp [Server.onTs, hl, Effect.go, sentTo, Effect.raise, Act.token]
    · simp [Server.onTs, hl, Effect.go, sentTo, Act.token]
  | setBlocked | dropTs | create | sendNowhere | forkDelete | reply =>
    cases h
    simp [Effect.go, Effect.raise, Act.token, Server.parked, sentTo]

/-! ## The world -/

variable {w w' : World}

/-- The tokens of `tid` on the server. -/
def World.tokens (c : Nat) (tid : Tid) (w : World) : Nat :=
  w.server.parked tid + poolWeight (Act.token c tid) w.pool

/-- A thread takes a step. -/
theorem tokens_stepped (hc : c ≤ 1) (tid : Tid) {i : Nat} {a : Act} {acts : List Act} {eff : Effect}
    (hi : w.pool[i]? = some (a :: acts)) (h : a.exec w.server = some eff) :
    (w.stepped i eff acts).tokens c tid + c * sentTo tid eff.sent ≤ w.tokens c tid := by
  have hexec := exec_token hc tid h
  have hpool : poolWeight (Act.token c tid) (w.pool.set i (World.rest eff acts) ++ eff.spawned) +
      a.token c tid ≤ poolWeight (Act.token c tid) w.pool +
        (weight (Act.token c tid) eff.next + poolWeight (Act.token c tid) eff.spawned) := by
    unfold World.rest
    split
    · have := poolWeight_died (w := Act.token c tid) hi eff.spawned
      omega
    · exact Nat.le_of_eq (poolWeight_step (w := Act.token c tid) hi eff.next eff.spawned)
  simp only [World.tokens, World.stepped_server, World.stepped_pool]
  omega

theorem weight_token_finaliser (t : TupleSpace) :
    weight (Act.token c tid) (World.finaliser t) = 0 :=
  weight_eq_zero (by
    intro a ha
    obtain ⟨tup, -, ha⟩ := List.mem_flatMap.1 ha
    obtain ⟨e, -, rfl⟩ := List.mem_map.1 ha
    rfl)

/-- Only a client that sends a message makes a token. -/
theorem tokens_next (hc : c ≤ 1) (tid : Tid) {e : Event} (h : WorldStep w e w')
    (hs : e ≠ .send tid) : w'.tokens c tid ≤ w.tokens c tid := by
  obtain ⟨hp, h⟩ := h
  cases e with
  | registerProcess =>
    cases h
    exact Nat.le_refl _
  | registerThread pid =>
    obtain ⟨tids, -, rfl⟩ := World.next_registerThread h
    exact Nat.le_refl _
  | begin t op =>
    obtain ⟨-, -, -, rfl⟩ := World.next_begin h
    simp [World.tokens]
  | send t =>
    obtain ⟨-, -, m, script, -, rfl⟩ := World.next_send h
    have hne : t ≠ tid := fun ht => hs (by rw [ht])
    have h0 := weight_token_handler hc tid t m
    rw [if_neg hne] at h0
    simp [World.tokens, World.sent, World.setClient]
    omega
  | act i =>
    obtain ⟨a, acts, eff, hi, heff, rfl⟩ := World.next_act h
    have := tokens_stepped hc tid hi heff
    omega
  | depart t =>
    obtain ⟨-, rfl⟩ := World.next_depart h
    have h0 : weight (Act.token c tid) (removeProcess t) = 0 := by simp [removeProcess, Act.token]
    simp [World.tokens, h0]
  | finalise o =>
    obtain ⟨t, -, -, -, rfl⟩ := World.next_finalise h
    simp [World.tokens, weight_token_finaliser]
  | rehash o blocked =>
    obtain ⟨t, ht, hperm, rfl⟩ := World.next_rehash hp h
    have h1 : (w.server.setObj o { t with blockedList := blocked }).parked tid + t.parked tid =
        w.server.parked tid + TupleSpace.parked tid { t with blockedList := blocked } :=
      parked_setObj ht _
    have h2 : TupleSpace.parked tid { t with blockedList := blocked } = t.parked tid :=
      (List.Perm.countP_eq _ hperm).symm
    simp only [World.tokens]
    omega

/-- One token a thread, or its answer, and none while its client is not waiting. -/
structure OneReply (w : World) : Prop where
  total : ∀ tid, w.tokens 1 tid + (w.clients tid).answers.length ≤ 1
  idle : ∀ tid ∈ w.live, (w.clients tid).waiting = false → w.tokens 1 tid = 0
  fresh : ∀ tid, w.pthreadCount tid.pid < tid.count →
    w.tokens 1 tid = 0 ∧ (w.clients tid).answers = [] ∧ tid ∉ w.live

theorem oneReply_init : OneReply .init := by
  constructor <;> simp [World.init, World.tokens, Server.parked, Server.init, TupleSpace.parked,
    TupleSpace.init, Dict.empty]

/-- An event that no client notices keeps the books when it makes no tokens. -/
theorem OneReply.of_le (hw : OneReply w) (ht : ∀ tid, w'.tokens 1 tid ≤ w.tokens 1 tid)
    (ha : ∀ tid, (w'.clients tid).answers = (w.clients tid).answers)
    (hwt : ∀ tid, (w'.clients tid).waiting = (w.clients tid).waiting)
    (hl : ∀ tid ∈ w'.live, tid ∈ w.live) (hn : w'.pthreadCount = w.pthreadCount) :
    OneReply w' where
  total tid := by
    have h1 := hw.total tid
    have h2 := ht tid
    rw [ha]
    omega
  idle tid hlive hwait := by
    have h1 := hw.idle tid (hl tid hlive) (by rw [← hwt, hwait])
    have h2 := ht tid
    omega
  fresh tid hlt := by
    obtain ⟨h1, h2, h3⟩ := hw.fresh tid (by rw [← hn]; exact hlt)
    have h4 := ht tid
    exact ⟨by omega, by rw [ha, h2], fun h => h3 (hl tid h)⟩

theorem OneReply.stepped {i : Nat} {a : Act} {acts : List Act} {eff : Effect} (hw : OneReply w)
    (hi : w.pool[i]? = some (a :: acts)) (h : a.exec w.server = some eff) :
    OneReply (w.stepped i eff acts) := by
  have htok : ∀ tid, (w.stepped i eff acts).tokens 1 tid + sentTo tid eff.sent ≤ w.tokens 1 tid :=
    fun tid => by simpa using tokens_stepped (Nat.le_refl 1) tid hi h
  constructor
  · intro tid
    have h1 := htok tid
    have h2 := hw.total tid
    rw [World.stepped_clients]
    rcases hs : eff.sent with _ | m
    · simp only
      omega
    · simp only [hs, sentTo] at h1 ⊢
      by_cases ht : m.1 = tid
      · split
        · rw [if_pos ht] at h1
          simp [ht]
          omega
        · omega
      · rw [if_neg fun h => ht h.2.symm]
        omega
  · intro tid hl hwait
    rw [World.stepped_live] at hl
    rw [World.stepped_clients] at hwait
    have h1 := htok tid
    have h2 := hw.total tid
    rcases hs : eff.sent with _ | m
    · rw [hs] at hwait
      have := hw.idle tid hl hwait
      omega
    · simp only [hs, sentTo] at h1 hwait
      by_cases ht : m.1 = tid
      · rw [if_pos ht] at h1
        omega
      · rw [if_neg fun h => ht h.2.symm] at hwait
        have := hw.idle tid hl hwait
        omega
  · intro tid hlt
    rw [World.stepped_pthreadCount] at hlt
    obtain ⟨h1, h2, h3⟩ := hw.fresh tid hlt
    have h4 := htok tid
    refine ⟨by omega, ?_, by simpa using h3⟩
    rw [World.stepped_clients]
    rcases eff.sent with _ | m
    · exact h2
    · show Client.answers (if m.1 ∈ w.live ∧ tid = m.1 then _ else _) = []
      rw [if_neg, h2]
      rintro ⟨hl, rfl⟩
      exact h3 hl

theorem OneReply.next {e : Event} (hw : OneReply w) (h : WorldStep w e w') : OneReply w' := by
  have hle (hs : ∀ tid, e ≠ .send tid) : ∀ tid, w'.tokens 1 tid ≤ w.tokens 1 tid :=
    fun tid => tokens_next (Nat.le_refl 1) tid h (hs tid)
  obtain ⟨hp, hn⟩ := h
  cases e with
  | registerProcess =>
    cases hn
    exact hw.of_le (hle (by simp)) (fun _ => rfl) (fun _ => rfl) (fun _ h => h) rfl
  | registerThread pid =>
    obtain ⟨tids, -, rfl⟩ := World.next_registerThread hn
    have hnew := hw.fresh ⟨pid, w.pthreadCount pid + 1⟩ (Nat.lt_succ_self _)
    refine ⟨hw.total, fun tid hl hwait => ?_, fun tid hlt => ?_⟩
    · rcases List.mem_append.1 hl with hl | hl
      · exact hw.idle tid hl hwait
      · obtain rfl := List.mem_singleton.1 hl
        exact hnew.1
    · simp only [World.registered] at hlt
      have hlt' : w.pthreadCount tid.pid < tid.count := by
        split at hlt
        · rename_i h
          rw [h]
          omega
        · exact hlt
      obtain ⟨h1, h2, h3⟩ := hw.fresh tid hlt'
      refine ⟨h1, h2, fun hl => ?_⟩
      rcases List.mem_append.1 hl with hl | hl
      · exact h3 hl
      · obtain rfl := List.mem_singleton.1 hl
        simp at hlt
  | begin t op =>
    obtain ⟨-, -, -, rfl⟩ := World.next_begin hn
    refine hw.of_le (hle (by simp)) (fun tid => ?_) (fun tid => ?_) (by simp) (by simp)
    all_goals
      rw [World.begun_clients]
      split
      · rename_i h
        rw [h]
      · rfl
  | send t =>
    obtain ⟨hl, hwait, m, script, -, rfl⟩ := World.next_send hn
    have hsent : ∀ tid, (w.sent t m script).tokens 1 tid ≤
        w.tokens 1 tid + if t = tid then 1 else 0 := by
      intro tid
      have h0 := weight_token_handler (Nat.le_refl 1) tid t m
      simp [World.tokens, World.sent, World.setClient]
      omega
    have hidle := hw.idle t hl hwait
    refine ⟨fun tid => ?_, fun tid hl' hwait' => ?_, fun tid hlt => ?_⟩
    all_goals
      have h1 := hsent tid
      by_cases ht : t = tid
    · subst ht
      simp [World.sent, World.setClient] at h1 ⊢
      omega
    · have h2 := hw.total tid
      rw [if_neg ht] at h1
      simp only [World.sent, World.setClient, if_neg (Ne.symm ht)] at h1 ⊢
      omega
    · subst ht
      simp [World.sent, World.setClient] at hwait'
    · rw [if_neg ht] at h1
      simp only [World.sent, World.setClient, if_neg (Ne.symm ht)] at hwait'
      have := hw.idle tid hl' hwait'
      omega
    · subst ht
      exact absurd hl (hw.fresh t hlt).2.2
    · obtain ⟨h2, h3, h4⟩ := hw.fresh tid hlt
      rw [if_neg ht] at h1
      refine ⟨by omega, ?_, h4⟩
      simp only [World.sent, World.setClient, if_neg (Ne.symm ht)]
      exact h3
  | act i =>
    obtain ⟨a, acts, eff, hi, heff, rfl⟩ := World.next_act hn
    exact hw.stepped hi heff
  | depart t =>
    obtain ⟨-, rfl⟩ := World.next_depart hn
    exact hw.of_le (hle (by simp)) (by simp) (by simp)
      (fun tid h => by rw [World.departed_live] at h; exact List.mem_of_mem_filter h) (by simp)
  | finalise o =>
    obtain ⟨t, -, -, -, rfl⟩ := World.next_finalise hn
    exact hw.of_le (hle (by simp)) (fun _ => rfl) (fun _ => rfl) (fun _ h => h) rfl
  | rehash o blocked =>
    obtain ⟨t, -, -, rfl⟩ := World.next_rehash hp hn
    exact hw.of_le (hle (by simp)) (fun _ => rfl) (fun _ => rfl) (fun _ h => h) rfl

/-- This step leaves `tid` an answer to be sent. -/
def World.Selects (w : World) (e : Event) (tid : Tid) : Prop :=
  ∃ i a acts eff, e = .act i ∧ w.pool[i]? = some (a :: acts) ∧ a.exec w.server = some eff ∧
    ∃ l ∈ World.rest eff [] :: eff.spawned, ∃ r, .reply tid r ∈ l

theorem World.Selects.reply_mem {e : Event} (hsel : w.Selects e tid) (h : WorldStep w e w') :
    ∃ l ∈ w'.pool, ∃ r, .reply tid r ∈ l := by
  obtain ⟨i, a, acts, eff, rfl, hi, he, l, hl, r, hr⟩ := hsel
  obtain ⟨a', acts', eff', hi', he', rfl⟩ := World.next_act h.2
  obtain ⟨rfl, rfl⟩ : a = a' ∧ acts = acts' := by simpa [hi] using hi'
  obtain rfl : eff = eff' := by simpa [he] using he'
  rw [World.stepped_pool]
  rcases List.mem_cons.1 hl with rfl | hl
  · refine ⟨World.rest eff acts, List.mem_append_left _ ?_, r, ?_⟩
    · obtain ⟨hlt, -⟩ := List.getElem?_eq_some_iff.1 hi
      exact List.mem_set hlt _
    · unfold World.rest at hr ⊢
      split at hr
      · cases hr
      · exact List.mem_append_left _ (by simpa using hr)
  · exact ⟨l, List.mem_append_right _ hl, r, hr⟩

/-- With an answer under way nothing about the request is left to decide. -/
theorem OneReply.decided (hw : OneReply w) {l : List Act} {r : Reply} (hl : l ∈ w.pool)
    (hr : .reply tid r ∈ l) : w.tokens 0 tid = 0 := by
  have hle : ∀ a, Act.token 0 tid a ≤ Act.token 1 tid a := by
    intro a
    cases a <;> simp [Act.token]
  have hlt := poolWeight_lt hle hl hr (by simp [Act.token])
  have htot := hw.total tid
  simp only [World.tokens] at htot ⊢
  omega

/-- In every run a request is answered at most once, and from the step that picks
its answer on until the next request its thread is in no `blocked_list`. -/
theorem one_reply {tr : List (World × Event)} (h : Run WorldStep .init tr w) (tid : Tid) :
    (w.clients tid).answers.length ≤ 1 ∧
      ∀ tr₁ v e tr₂, tr = tr₁ ++ (v, e) :: tr₂ → v.Selects e tid →
        (∀ x ∈ tr₂, x.2 ≠ .send tid) →
        ∀ o t, w.server.obj? o = some t → tid ∉ t.blockedList.keys := by
  have hinv : ∀ {tr w}, Run WorldStep .init tr w → OneReply w := fun h =>
    h.inv (C := fun _ _ => True) (fun _ _ _ hw _ hs => hw.next hs) oneReply_init (by simp)
  constructor
  · have := (hinv h).total tid
    omega
  · rintro tr₁ v e tr₂ rfl hsel hquiet o t ht
    obtain ⟨v', h1, h2⟩ := h.split
    cases h2 with
    | @cons _ u _ _ _ hs h2 =>
      have hu : OneReply u := hinv (h1.snoc hs)
      obtain ⟨l, hl, r, hr⟩ := hsel.reply_mem hs
      have h0 : u.tokens 0 tid = 0 := hu.decided hl hr
      have hlast : w.tokens 0 tid = 0 :=
        h2.inv (I := fun w => w.tokens 0 tid = 0) (C := fun _ e => e ≠ .send tid)
          (fun _ _ _ hw hne hs => Nat.le_zero.1
            (Nat.le_trans (tokens_next (Nat.zero_le 1) tid hs hne) (Nat.le_of_eq hw)))
          h0 hquiet
      unfold World.tokens at hlast
      exact parked_eq_zero_iff.1 (by omega) o t ht

/-- A reader blocks on the universal tuplespace and another thread wakes it. -/
def wakeUp (t1 t2 : Tid) : List Event :=
  [.registerProcess, .registerThread ⟨0⟩, .registerThread ⟨0⟩,
    .begin t1 (.read .in_ .uts [.integer 5]), .send t1, .act 0, .act 0, .act 0,
    .begin t2 (.out .uts [.integer 5]), .send t2, .act 2, .act 2, .act 3, .act 3, .act 3]

theorem one_reply_wakeUp : ∃ tr w, Run WorldStep .init tr w ∧
    tr.map Prod.snd = wakeUp ⟨⟨0⟩, 1⟩ ⟨⟨0⟩, 2⟩ ∧
    (w.clients ⟨⟨0⟩, 1⟩).answers.length = 1 ∧ (w.clients ⟨⟨0⟩, 1⟩).answers.length ≤ 1 := by
  have hexec : (exec? World.next .init (wakeUp ⟨⟨0⟩, 1⟩ ⟨⟨0⟩, 2⟩)).map
      (fun w => (w.clients ⟨⟨0⟩, 1⟩).answers.length) = some 1 := by decide
  obtain ⟨w, hw, hlen⟩ := Option.map_eq_some_iff.1 hexec
  obtain ⟨hr, htr⟩ := Run.of_exec? (P := fun w e => e.Proper w)
    (by simp [wakeUp, Event.Proper]) hw
  exact ⟨_, w, hr, htr, hlen, (one_reply hr _).1⟩

end PyLinda
