import PyLinda.Server.Reply
import PyLinda.Server.Service
import PyLinda.Server.Tables

/-!
# What the threads of a server owe

Between the handler's first step and its reply a thread is in the middle of somebody's message. What
it has still to do says how far the message has got, whatever other work is put in between.
-/

namespace PyLinda

open Lib

/-- A step that no message is waiting for. -/
def Act.Quiet : Act → Prop
  | .setBlocked _ _ | .read _ _ | .readAt _ _ | .out _ _ _ | .outAt _ _ | .reply _ _ | .newTupleSpace _
  | .ensure _ | .create _ | .collect _ _ _ _ _ | .collectDest _ _ _ _ _ _ | .collectAt _ _ _ _ _ _
  | .deleteRequest _ _ _ => False
  | _ => True

/-- The parts of a tuplespace that the clients can notice. -/
def TupleSpace.core (t : TupleSpace) : TupleSpace := { t with refs := [], partitions := [], killlock := 0 }

def Server.cores (s : Server) : List TupleSpace := s.objs.map TupleSpace.core

def Server.idOf (s : Server) (o : ObjId) : Option TsId := (s.obj? o).map TupleSpace.id

variable {s s' : Server} {a : Act} {eff : Effect} {o : ObjId} {t t' : TupleSpace}

theorem core_parts (h : t'.core = t.core) : t'.id = t.id ∧ t'.requests = t.requests ∧ t'.ts = t.ts ∧
    t'.blockedList = t.blockedList := by
  simp only [TupleSpace.core, TupleSpace.mk.injEq] at h
  exact ⟨h.1, h.2.2.2.2.1, h.2.1, h.2.2.2.1⟩

theorem cores_setObj (ht : s.obj? o = some t) (h : t'.core = t.core) : (s.setObj o t').cores = s.cores := by
  obtain ⟨hlt, rfl⟩ := List.getElem?_eq_some_iff.1 ht
  have hlt' : o < s.cores.length := by simpa [Server.cores] using hlt
  have ho : s.objs[o].core = s.cores[o] := by simp [Server.cores]
  rw [Server.cores, Server.setObj, List.map_set, h, ho]
  exact List.set_getElem_self hlt'

/-! ## Quiet steps -/

theorem quiet_addReferences (tup : Tuple) (h : Holder) : ∀ a ∈ addReferences tup h, a.Quiet := by
  intro a ha
  obtain ⟨e, -, rfl⟩ := List.mem_map.1 ha
  trivial

theorem quiet_delReferences (tup : Tuple) (h : Holder) : ∀ a ∈ delReferences tup h, a.Quiet := by
  intro a ha
  obtain ⟨e, -, rfl⟩ := List.mem_map.1 ha
  trivial

theorem quiet_changeOwner (tup : Tuple) (h h' : Holder) : ∀ a ∈ changeOwner tup h h', a.Quiet := by
  intro a ha
  obtain ⟨e, -, ha⟩ := List.mem_flatMap.1 ha
  rcases List.mem_cons.1 ha with rfl | ha
  · trivial
  · obtain rfl := List.mem_singleton.1 ha
    trivial

/-- A quiet step leads to quiet steps, sends nothing and leaves what is stored and who waits alone,
unless it unblocks a reader. -/
theorem exec_quiet (ha : a.Quiet) (hne : ∀ o, a ≠ .unblockRandom o) (h : a.exec s = some eff) :
    (∀ b ∈ eff.next, b.Quiet) ∧ (∀ acts ∈ eff.spawned, ∀ b ∈ acts, b.Quiet) ∧ eff.sent = none ∧
      eff.server.cores = s.cores := by
  cases a with
  | setBlocked | read | readAt | out | outAt | reply | newTupleSpace | ensure | create | collect
  | collectDest | collectAt | deleteRequest => exact ha.elim
  | unblockRandom o => exact absurd rfl (hne o)
  | ifLast pid =>
    simp only [Act.exec] at h
    split at h <;> cases h <;> simp [Effect.go, Effect.raise, removeLast, Act.Quiet]
  | dropBlocked pid =>
    cases h
    refine ⟨fun b hb => ?_, by simp [Effect.go], rfl, rfl⟩
    obtain ⟨t, -, rfl⟩ := List.mem_map.1 hb
    trivial
  | walk o again refs ths =>
    simp only [Act.exec] at h
    split at h <;> cases h
    · cases again <;> simp [Effect.go, Act.Quiet]
    all_goals simp [Effect.go, Effect.raise, Act.Quiet]
  | removereference =>
    obtain ⟨t, ht, h⟩ := Server.onObj_eq_some.1 h
    have hc : ∀ l n, (s.setObj _ { t with refs := l, killlock := n }).cores = s.cores :=
      fun l n => cores_setObj ht rfl
    split at h
    · cases h
      simp [Effect.go, hc]
    · split at h <;> cases h <;> simp [Effect.go, Effect.raise, Act.Quiet, hc]
  | dropPthread t =>
    simp only [Act.exec] at h
    split at h
    · cases h
      simp [Effect.raise]
    · split at h <;> cases h <;> simp [Effect.go, Effect.raise, Server.cores]
  | acquire | addreference | gcWalk | removeanyreferences | isDeadLocked | garbage =>
    obtain ⟨t, ht, h⟩ := Server.onObj_eq_some.1 h
    have hc : ∀ l n, (s.setObj _ { t with refs := l, killlock := n }).cores = s.cores :=
      fun l n => cores_setObj ht rfl
    split at h <;> cases h <;> simp [Effect.go, Act.Quiet, hc]
  | removeAll | doGarbageCollection =>
    obtain ⟨t, ht, h⟩ := Server.onObj_eq_some.1 h
    have hc : ∀ l n, (s.setObj _ { t with refs := l, killlock := n }).cores = s.cores :=
      fun l n => cores_setObj ht rfl
    cases h
    simp [Effect.go, Act.Quiet, hc]
  | getBlocked | delBlocked | dropThread | dropProcess =>
    simp only [Act.exec] at h
    split at h <;> cases h <;> simp [Effect.go, Effect.raise, Server.cores]
  | addReference ts | deleteReference ts | deleteAllReferences ts | unblockAgain ts | sweep ts =>
    cases h
    rcases hl : s.lookup ts with _ | o <;> simp [Server.onTs, hl, Effect.go, Effect.raise, Act.Quiet]
  | dropTs | sendNowhere | forkDelete | dropReferences =>
    cases h
    simp [Effect.go, Effect.raise, Act.Quiet, Server.cores]

/-! ## Debts -/

/-- What a thread has still to do, with `l` done on the way to its next reply, is what the threads it
answers are waiting for. -/
inductive Owes (s : Server) (v : Tid → Status) : List Todo → List Act → Prop where
  | nil : Owes s v [] []
  | quiet {l : List Todo} {a : Act} {k : List Act} : a.Quiet → Owes s v l k → Owes s v l (a :: k)
  | make {l : List Todo} {ts : TsId} {k : List Act} :
      Owes s v (l ++ [.make ts]) k → Owes s v l (.newTupleSpace ts :: k)
  | out {l : List Todo} {ts : TsId} {tup : Tuple} {e : PyExc} {k : List Act} :
      tup.IsAtoms → Owes s v (l ++ [.put ts tup]) k → Owes s v l (.out ts tup e :: k)
  | outAt {l : List Todo} {o : ObjId} {ts : TsId} {tup : Tuple} {k : List Act} :
      s.idOf o = some ts → tup.IsAtoms → Owes s v (l ++ [.put ts tup]) k → Owes s v l (.outAt o tup :: k)
  | reply {l : List Todo} {tid : Tid} {r : Reply} {k : List Act} :
      v tid = .doing l r → Owes s v [] k → Owes s v l (.reply tid r :: k)
  | create {tid : Tid} : v tid = .called .createTuplespace → Owes s v [] [.create tid]
  | setBlocked {ts : TsId} {r : Request} : v r.tid = .called (.read r.msg ts r.template) →
      r.template.IsTemplate → Owes s v [] [.setBlocked ts r]
  | read {ts : TsId} {r : Request} : v r.tid = .called (.read r.msg ts r.template) →
      r.template.IsTemplate → Owes s v [] [.read ts r]
  | readAt {o : ObjId} {ts : TsId} {r : Request} : s.idOf o = some ts →
      v r.tid = .called (.read r.msg ts r.template) → r.template.IsTemplate → Owes s v [] [.readAt o r]
  | ensure {tid : Tid} {ts : TsId} {ref : Holder} : v tid = .called (.addReference ts ref) →
      Owes s v [] [.ensure ts, .addReference ts ref, .reply tid .done]
  | collect {tid : Tid} {copy : Bool} {ts dest : TsId} {p : Tuple} :
      v tid = .called (.collect copy ts dest p) → p.IsTemplate → Owes s v [] [.collect tid copy ts dest p]
  | collectDest {tid : Tid} {copy new : Bool} {o : ObjId} {ts dest : TsId} {p : Tuple} :
      s.idOf o = some ts → v tid = .called (.collect copy ts dest p) → p.IsTemplate →
      Owes s v [] [.collectDest tid copy new o dest p]
  | makeDest {tid : Tid} {copy new : Bool} {o : ObjId} {ts dest : TsId} {p : Tuple} :
      s.idOf o = some ts → v tid = .called (.collect copy ts dest p) → p.IsTemplate →
      Owes s v [] [.newTupleSpace dest, .collectDest tid copy new o dest p]
  | collectAt {tid : Tid} {copy new : Bool} {o d : ObjId} {ts dest : TsId} {p : Tuple} :
      s.idOf o = some ts → s.idOf d = some dest → v tid = .called (.collect copy ts dest p) →
      p.IsTemplate → Owes s v [] [.collectAt tid copy new o d p]
  | deleteRequest {tid : Tid} {ts : TsId} {ref : Holder} : v tid = .doing [] .done →
      Owes s v [] [.deleteRequest tid ts ref]

variable {v v' : Tid → Status} {l : List Todo} {k : List Act} {x : Todo} {tid : Tid}

theorem Owes.append {q : List Act} (hq : ∀ a ∈ q, a.Quiet) (h : Owes s v l k) : Owes s v l (q ++ k) := by
  induction q with
  | nil => exact h
  | cons a q ih =>
    rw [List.forall_mem_cons] at hq
    exact .quiet hq.1 (ih hq.2)

theorem owes_quiet {q : List Act} (hq : ∀ a ∈ q, a.Quiet) : Owes s v [] q :=
  List.append_nil q ▸ Owes.append hq .nil

theorem Owes.tail (h : Owes s v l (a :: k)) (ha : a.Quiet) : Owes s v l k := by
  cases h with
  | quiet _ h => exact h
  | _ => exact ha.elim

/-- A thread that is answered has a token in the thread that answers it. -/
theorem Owes.congr (h : Owes s v l k) (hid : ∀ o ts, s.idOf o = some ts → s'.idOf o = some ts)
    (hv : ∀ tid, weight (Act.token 1 tid) k ≠ 0 → v' tid = v tid) : Owes s' v' l k := by
  have hone : ∀ {tid} {a : Act} {k : List Act}, Act.token 1 tid a = 1 → weight (Act.token 1 tid) (a :: k) ≠ 0 :=
    fun h => by rw [weight_cons, h]; omega
  have htail : ∀ {tid} {a : Act} {k : List Act}, weight (Act.token 1 tid) k ≠ 0 →
      weight (Act.token 1 tid) (a :: k) ≠ 0 := fun h => by rw [weight_cons]; omega
  induction h with
  | nil => exact .nil
  | quiet hq _ ih => exact .quiet hq (ih fun tid ht => hv tid (htail ht))
  | make _ ih => exact .make (ih fun tid ht => hv tid (htail ht))
  | out htup _ ih => exact .out htup (ih fun tid ht => hv tid (htail ht))
  | outAt ho htup _ ih => exact .outAt (hid _ _ ho) htup (ih fun tid ht => hv tid (htail ht))
  | reply hr _ ih =>
    exact .reply ((hv _ (hone (by simp [Act.token]))).trans hr) (ih fun tid ht => hv tid (htail ht))
  | create hc => exact .create ((hv _ (hone (by simp [Act.token]))).trans hc)
  | setBlocked hc hp => exact .setBlocked ((hv _ (hone (by simp [Act.token]))).trans hc) hp
  | read hc hp => exact .read ((hv _ (hone (by simp [Act.token]))).trans hc) hp
  | readAt ho hc hp => exact .readAt (hid _ _ ho) ((hv _ (hone (by simp [Act.token]))).trans hc) hp
  | ensure hc => exact .ensure ((hv _ (by simp [Act.token])).trans hc)
  | collect hc hp => exact .collect ((hv _ (hone (by simp [Act.token]))).trans hc) hp
  | collectDest ho hc hp =>
    exact .collectDest (hid _ _ ho) ((hv _ (hone (by simp [Act.token]))).trans hc) hp
  | makeDest ho hc hp => exact .makeDest (hid _ _ ho) ((hv _ (by simp [Act.token])).trans hc) hp
  | collectAt ho hd hc hp =>
    exact .collectAt (hid _ _ ho) (hid _ _ hd) ((hv _ (hone (by simp [Act.token]))).trans hc) hp
  | deleteRequest hc => exact .deleteRequest ((hv _ (hone (by simp [Act.token]))).trans hc)

/-- The thread whose message `x` was done for, and that nothing else is owed to it. -/
theorem Owes.first (h : Owes s v (x :: l) k) (hone : ∀ tid, weight (Act.token 1 tid) k ≤ 1) :
    ∃ tid l' r, v tid = .doing (x :: l') r ∧ weight (Act.token 1 tid) k = 1 ∧
      ∀ v', v' tid = .doing l' r → (∀ p, p ≠ tid → v' p = v p) → Owes s v' l k := by
  generalize hm : x :: l = m at h
  induction h generalizing l with
  | quiet hq _ ih =>
    obtain ⟨tid, l', r, hv, hw, hrest⟩ := ih (fun tid => Nat.le_trans (by simp) (hone tid)) hm
    refine ⟨tid, l', r, hv, ?_, fun v' h1 h2 => .quiet hq (hrest v' h1 h2)⟩
    have := hone tid
    rw [weight_cons] at this ⊢
    omega
  | make _ ih =>
    subst hm
    obtain ⟨tid, l', r, hv, hw, hrest⟩ := ih (fun tid => Nat.le_trans (by simp) (hone tid)) rfl
    exact ⟨tid, l', r, hv, by simpa [Act.token] using hw, fun v' h1 h2 => .make (hrest v' h1 h2)⟩
  | out htup _ ih =>
    subst hm
    obtain ⟨tid, l', r, hv, hw, hrest⟩ := ih (fun tid => Nat.le_trans (by simp) (hone tid)) rfl
    exact ⟨tid, l', r, hv, by simpa [Act.token] using hw, fun v' h1 h2 => .out htup (hrest v' h1 h2)⟩
  | outAt ho htup _ ih =>
    subst hm
    obtain ⟨tid, l', r, hv, hw, hrest⟩ := ih (fun tid => Nat.le_trans (by simp) (hone tid)) rfl
    exact ⟨tid, l', r, hv, by simpa [Act.token] using hw, fun v' h1 h2 => .outAt ho htup (hrest v' h1 h2)⟩
  | @reply _ tid r k hr hk =>
    subst hm
    have htail : weight (Act.token 1 tid) k = 0 := by
      have := hone tid
      simp only [weight_cons, Act.token, if_true] at this
      omega
    refine ⟨tid, l, r, hr, by simp [Act.token, htail], fun v' h1 h2 => .reply h1 ?_⟩
    exact hk.congr (fun _ _ h => h) fun p hp => h2 p fun he => hp (he ▸ htail)
  | nil | create | setBlocked | read | readAt | ensure | collect | collectDest | makeDest | collectAt
  | deleteRequest => cases hm

/-! ## The threads that serve a message -/

theorem owes_reply {r : Reply} (h : v tid = .doing [] r) {q : List Act} (hq : ∀ a ∈ q, a.Quiet)
    (hk : Owes s v [] k) : Owes s v [] (q ++ .reply tid r :: k) :=
  .append hq (.reply h hk)

theorem owes_answered {r : Request} {ts : TsId} {m : Tuple} (h : v r.tid = .doing [] (.tuple m)) :
    Owes s v [] (r.answered ts m) := by
  refine owes_reply h (fun a ha => ?_) .nil
  rcases List.mem_cons.1 ha with rfl | ha
  · trivial
  · split at ha
    · exact quiet_changeOwner _ _ _ a ha
    · exact quiet_addReferences _ _ a ha

theorem owes_returnTuple {ts : TsId} {m p : Tuple} (h : v tid = .doing [] (.tuple m)) :
    Owes s v [] ((Spawn.returnTuple tid m p).thread o ts) := by
  refine owes_reply h (fun a ha => ?_) .nil
  rcases List.mem_append.1 ha with ha | ha
  · simp only [List.mem_cons, List.not_mem_nil, or_false] at ha
    rcases ha with rfl | rfl <;> trivial
  · exact quiet_changeOwner _ _ _ a ha

/-- Every tuple that was found is put into the destination. -/
theorem owes_collectLoop {copy : Bool} {src dest : TsId} {tups : List Tuple}
    (htups : ∀ t ∈ tups, t.IsAtoms) (h : Owes s v (l ++ tups.map (.put dest)) k) :
    Owes s v l (collectLoop copy src dest tups ++ k) := by
  induction tups generalizing l with
  | nil => exact List.append_nil l ▸ h
  | cons t tups ih =>
    rw [List.forall_mem_cons] at htups
    have hq : ∀ a ∈ (if copy then addReferencesNowhere t else changeOwner t (.obj src) (.ts dest)),
        a.Quiet := by
      intro a ha
      split at ha
      · obtain ⟨e, -, rfl⟩ := List.mem_map.1 ha
        trivial
      · exact quiet_changeOwner _ _ _ a ha
    rw [collectLoop, List.flatMap_cons, List.append_assoc, List.append_assoc]
    refine .append hq (.out htups.1 (ih htups.2 ?_))
    rwa [List.append_assoc]

theorem quiet_removeProcess (tid : Tid) : ∀ a ∈ removeProcess tid, a.Quiet := by
  simp [removeProcess, Act.Quiet]

theorem quiet_finaliser (t : TupleSpace) : ∀ a ∈ World.finaliser t, a.Quiet := by
  intro a ha
  obtain ⟨tup, -, ha⟩ := List.mem_flatMap.1 ha
  exact quiet_delReferences _ _ a ha

/-- The status of a message once its handler runs. -/
def Msg.status : Msg → Status
  | .out ts tup => .doing [.put ts tup] .done
  | .deleteReference _ => .doing [] .done
  | m => .called m

theorem owes_handler {m : Msg} (hm : m.Atoms) (h : v tid = m.status) : Owes s v [] (m.handler tid) := by
  cases m with
  | createTuplespace => exact .create h
  | out ts tup => exact .out hm (.reply h .nil)
  | read msg ts p => exact .setBlocked h hm
  | collect copy ts dest p => exact .collect h hm
  | addReference ts ref => exact .ensure h
  | deleteReference ts =>
    cases ts with
    | uts => exact .reply h .nil
    | sid g => exact .deleteRequest h

theorem atoms_script {op : ClientOp} (h : op.Atoms) : ∀ m ∈ op.script, m.Atoms := by
  cases op with
  | out ts tup =>
    intro m hm
    rcases List.mem_append.1 hm with hm | hm
    · obtain ⟨e, -, rfl⟩ := List.mem_map.1 hm
      trivial
    · obtain rfl := List.mem_singleton.1 hm
      exact h
  | createTuplespace | read | collect | deleteReference =>
    intro m hm
    obtain rfl := List.mem_singleton.1 hm
    exact h

end PyLinda
