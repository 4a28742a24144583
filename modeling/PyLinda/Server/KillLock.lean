import PyLinda.Lib.Pool
import PyLinda.Server.Garbage
import PyLinda.Server.Tables

/-!
# The kill lock

`delete_reference` acquires the kill lock of the tuplespace and leaves the release to
the `removereference` in the thread it starts, so that `removeanyreferences` waits
for it. `removereference` also runs when a reference changes its owner; then
nobody has acquired the lock, and the release makes a second permit.
-/

namespace PyLinda

open Lib

def Holder.isProc : Holder → Bool
  | .proc _ => true
  | _ => false

/-- A step of `delete_reference` from the acquired lock to the removal, on its way to the
object `o`. -/
def Act.deletesAt (s : Server) (o : ObjId) : Act → Bool
  | .forkDelete ts ref | .deleteReference ts ref => ref.isProc && decide (s.lookup ts = some o)
  | .removereference o' _ => decide (o' = o)
  | _ => false

/-- A step of it that is about to look up `ts`. -/
def Act.awaits (ts : TsId) : Act → Bool
  | .forkDelete ts' ref | .deleteReference ts' ref => ref.isProc && decide (ts' = ts)
  | _ => false

/-- The kill lock keeps references apart that are being deleted: there is one permit
at most, who is about to remove all references of a process has no deletion beside
it, and a deletion finds its reference. -/
structure World.LockOrder (w : World) : Prop where
  permits : ∀ o t, w.server.obj? o = some t → t.killlock ≤ 1
  alone : ∀ (i j : Nat) (o : ObjId) (ref : Holder) (b : Act) (acts acts' : List Act),
    w.pool[i]? = some (.removeAll o ref :: acts) → j ≠ i → w.pool[j]? = some (b :: acts') →
      b.deletesAt w.server o = false
  found : ∀ (i : Nat) (o : ObjId) (ref : Holder) (acts : List Act) (t : TupleSpace),
    w.pool[i]? = some (.removereference o ref :: acts) → w.server.obj? o = some t → ref ∈ t.refs

/-- Nobody in the pool is at a step like this. -/
def World.Nobody (w : World) (p : Act → Bool) : Prop := ∀ b acts, b :: acts ∈ w.pool → p b = false

/-- What the step behind `acquire` deletes is there. -/
def Act.finds (s : Server) (o : ObjId) : Act → Bool
  | .forkDelete ts ref =>
    decide (s.lookup ts = some o) && (s.obj? o).any fun t => decide (ref ∈ t.refs)
  | _ => true

/-- The condition on a step of a thread, `acts` being the steps behind it: no
reference that a process does not hold itself is deleted while its tuplespace exists;
`delete_reference` gets the lock with its reference still in the list; and while a
deletion has the lock its tuplespace stays in `local_ts`, and no garbage collection
empties the list. -/
def Act.KeepsLock (w : World) (acts : List Act) : Act → Prop
  | .deleteReference ts ref => ref.isProc = false → w.server.lookup ts = none
  | .acquire o => acts.head?.all (Act.finds w.server o)
  | .gcWalk o toCheck _ => toCheck = [] → w.Nobody (Act.deletesAt w.server o)
  | .dropTs ts | .newTupleSpace ts => w.Nobody (Act.awaits ts)
  | _ => True

def Event.KeepsLock (w : World) : Event → Prop
  | .act i => ∀ l ∈ w.pool[i]?, ∀ a ∈ l.head?, a.KeepsLock w l.tail
  | _ => True

instance (w : World) (p : Act → Bool) : Decidable (w.Nobody p) :=
  decidable_of_iff (∀ l ∈ w.pool, l.head?.all (fun b => !p b)) <| by
    refine ⟨fun h b acts hb => by simpa using h _ hb, fun h l hl => ?_⟩
    cases l with
    | nil => rfl
    | cons b acts => simpa using h b acts hl

instance (w : World) (acts : List Act) (a : Act) : Decidable (a.KeepsLock w acts) := by
  cases a with
  | deleteReference ts ref =>
    exact inferInstanceAs (Decidable (ref.isProc = false → w.server.lookup ts = none))
  | gcWalk o toCheck _ =>
    exact inferInstanceAs (Decidable (toCheck = [] → w.Nobody (Act.deletesAt w.server o)))
  | dropTs ts | newTupleSpace ts => exact inferInstanceAs (Decidable (w.Nobody (Act.awaits ts)))
  | acquire o => exact inferInstanceAs (Decidable (acts.head?.all (Act.finds w.server o) = true))
  | _ => exact .isTrue trivial

instance (w : World) : (e : Event) → Decidable (e.KeepsLock w)
  | .act i => inferInstanceAs (Decidable (∀ l ∈ w.pool[i]?, ∀ a ∈ l.head?, a.KeepsLock w l.tail))
  | .registerProcess | .registerThread _ | .begin _ _ | .send _ | .depart _ | .finalise _
  | .rehash _ _ => .isTrue trivial

theorem keepsLock_act {w : World} {i : Nat} {a : Act} {acts : List Act}
    (hi : w.pool[i]? = some (a :: acts)) : (Event.act i).KeepsLock w ↔ a.KeepsLock w acts := by
  simp [Event.KeepsLock, hi]

/-! ## The order of the steps in a thread -/

/-- A step that runs with the kill lock acquired. -/
def Act.locked : Act → Bool
  | .forkDelete _ ref | .deleteReference _ ref => ref.isProc
  | .removereference _ _ | .removeAll _ _ => true
  | _ => false

/-- A step that has nothing to do with the lock. -/
def Act.free : Act → Bool
  | .acquire _ | .forkDelete _ _ | .removereference _ _ | .removeAll _ _ => false
  | .deleteReference _ ref => !ref.isProc
  | .deleteRequest _ _ ref => ref.isProc
  | _ => true

/-- The steps that the lock of `o` is acquired for. -/
inductive Act.Locks (o : ObjId) : Act → Prop where
  | one (ts : TsId) (pid : Pid) : Locks o (.forkDelete ts (.proc pid))
  | all (ref : Holder) : Locks o (.removeAll o ref)

/-- Every locked step comes right behind an `acquire`, and every `acquire` in front of one. -/
inductive Orderly : List Act → Prop where
  | nil : Orderly []
  | lock {o : ObjId} {a : Act} {acts : List Act} : a.Locks o → Orderly acts →
      Orderly (.acquire o :: a :: acts)
  | cons {a : Act} {acts : List Act} : a.free = true → Orderly acts → Orderly (a :: acts)

/-- The same for a thread, which may have acquired the lock already. -/
def OrderlyThread (acts : List Act) : Prop :=
  Orderly acts ∨ ∃ a rest, acts = a :: rest ∧ a.locked = true ∧ Orderly rest

/-- The step runs inside the kill lock of `o`. -/
def Act.inside (s : Server) (o : ObjId) : Act → Bool
  | .removeAll o' _ => decide (o' = o)
  | a => a.deletesAt s o

/-- `1` for a thread that is inside the kill lock of `o`. -/
def insideLock (s : Server) (o : ObjId) : List Act → Nat
  | [] => 0
  | a :: _ => if a.inside s o then 1 else 0

/-- What a locked step relies on. -/
def Act.Present (s : Server) : Act → Prop
  | .forkDelete ts ref | .deleteReference ts ref => ref.isProc = true →
      ∃ o t, s.lookup ts = some o ∧ s.obj? o = some t ∧ ref ∈ t.refs
  | .removereference o ref => ∃ t, s.obj? o = some t ∧ ref ∈ t.refs
  | .removeAll o _ => ∃ t, s.obj? o = some t
  | _ => True

/-- The permits of a lock and the threads inside it make one. -/
structure World.Locking (w : World) : Prop where
  orderly : ∀ acts ∈ w.pool, OrderlyThread acts
  present : ∀ a acts, a :: acts ∈ w.pool → a.Present w.server
  count : ∀ o t, w.server.obj? o = some t →
    t.killlock + weight (insideLock w.server o) w.pool = 1

variable {s s' : Server} {a : Act} {acts acts' : List Act} {eff : Effect} {o : ObjId} {w w' : World}

theorem Orderly.of_free (h : ∀ a ∈ acts, a.free = true) : Orderly acts := by
  induction acts with
  | nil => exact .nil
  | cons a acts ih =>
    rw [List.forall_mem_cons] at h
    exact .cons h.1 (ih h.2)

theorem Orderly.append (h : Orderly acts) (h' : Orderly acts') : Orderly (acts ++ acts') := by
  induction h with
  | nil => exact h'
  | lock ha _ ih => exact .lock ha ih
  | cons ha _ ih => exact .cons ha ih

theorem inside_locked (h : a.inside s o = true) : a.locked = true := by
  cases a <;> simp_all [Act.inside, Act.deletesAt, Act.locked]

theorem free_not_locked (h : a.free = true) : a.locked = false := by
  cases a <;> simp_all [Act.free, Act.locked]

/-- Outside a thread's first step nobody is inside a lock. -/
theorem Orderly.insideLock (h : Orderly acts) (s : Server) (o : ObjId) :
    insideLock s o acts = 0 := by
  cases h with
  | nil => rfl
  | lock => rfl
  | @cons a acts ha _ =>
    have hno : a.inside s o = false := Bool.eq_false_iff.2 fun hi => by
      have := inside_locked hi
      rw [free_not_locked ha] at this
      cases this
    simp [PyLinda.insideLock, hno]

/-- Behind a free step a thread is in order, behind an `acquire` it is inside the lock. -/
theorem OrderlyThread.free (h : OrderlyThread (a :: acts)) (ha : a.free = true) : Orderly acts := by
  rcases h with h | ⟨b, rest, he, hl, -⟩
  · cases h with
    | lock => cases ha
    | cons _ h => exact h
  · cases he
    rw [free_not_locked ha] at hl
    cases hl

theorem OrderlyThread.locked (h : OrderlyThread (a :: acts)) (ha : a.locked = true) :
    Orderly acts := by
  rcases h with h | ⟨b, rest, he, -, h⟩
  · cases h with
    | lock => cases ha
    | cons hf _ =>
      rw [free_not_locked hf] at ha
      cases ha
  · cases he
    exact h

theorem OrderlyThread.acquired (h : OrderlyThread (.acquire o :: acts)) :
    ∃ a rest, acts = a :: rest ∧ a.Locks o ∧ Orderly rest := by
  rcases h with h | ⟨b, rest, he, hl, -⟩
  · cases h with
    | lock ha h => exact ⟨_, _, rfl, ha, h⟩
    | cons hf _ => cases hf
  · cases he
    cases hl

/-! ## The lists of steps -/

theorem free_addReferences (tup : Tuple) (h : Holder) : ∀ a ∈ addReferences tup h, a.free = true := by
  intro a ha
  obtain ⟨e, -, rfl⟩ := List.mem_map.1 ha
  rfl

theorem free_changeOwner (tup : Tuple) {cur : Holder} (new : Holder) (hc : cur.isProc = false) :
    ∀ a ∈ changeOwner tup cur new, a.free = true := by
  intro a ha
  obtain ⟨e, -, ha⟩ := List.mem_flatMap.1 ha
  rcases List.mem_cons.1 ha with rfl | ha
  · rfl
  · obtain rfl := List.mem_singleton.1 ha
    simp [Act.free, hc]

theorem free_answered (r : Request) (ts : TsId) (t : Tuple) :
    ∀ a ∈ r.answered ts t, a.free = true := by
  intro a ha
  simp only [Request.answered, List.mem_cons, List.mem_append, List.not_mem_nil, or_false] at ha
  rcases ha with (rfl | ha) | rfl
  · rfl
  · split at ha
    · exact free_changeOwner t _ rfl a ha
    · exact free_addReferences t _ a ha
  · rfl

theorem free_collectLoop (copy : Bool) (src destTs : TsId) (tups : List Tuple) :
    ∀ a ∈ collectLoop copy src destTs tups, a.free = true := by
  intro a ha
  obtain ⟨t, -, ha⟩ := List.mem_flatMap.1 ha
  rcases List.mem_append.1 ha with ha | ha
  · split at ha
    · obtain ⟨e, -, rfl⟩ := List.mem_map.1 ha
      rfl
    · exact free_changeOwner t _ rfl a ha
  · obtain rfl := List.mem_singleton.1 ha
    rfl

theorem free_handler (tid : Tid) (m : Msg) : ∀ a ∈ m.handler tid, a.free = true := by
  cases m with
  | deleteReference ts => cases ts <;> simp [Msg.handler, Act.free, Holder.isProc]
  | _ => simp [Msg.handler, Act.free]

theorem free_thread (o : ObjId) (ts : TsId) (sp : Spawn) : ∀ a ∈ sp.thread o ts, a.free = true := by
  intro a ha
  cases sp with
  | returnTuple tid m p =>
    simp only [Spawn.thread, List.mem_append, List.mem_cons, List.not_mem_nil, or_false] at ha
    rcases ha with ((rfl | rfl) | ha) | rfl
    · rfl
    · rfl
    · exact free_changeOwner m _ rfl a ha
    · rfl
  | forward node m => cases ha
  | addTuples p =>
    obtain rfl := List.mem_singleton.1 ha
    rfl

theorem free_finaliser (t : TupleSpace) : ∀ a ∈ World.finaliser t, a.free = true := by
  intro a ha
  obtain ⟨tup, -, ha⟩ := List.mem_flatMap.1 ha
  obtain ⟨e, -, rfl⟩ := List.mem_map.1 ha
  rfl

/-- What a free step goes on with and starts is in order. -/
theorem exec_orderly (ha : a.free = true) (hk : a.KeepsLock w acts)
    (h : a.exec w.server = some eff) :
    Orderly eff.next ∧ ∀ l ∈ eff.spawned, ∀ b ∈ l, b.free = true := by
  cases a with
  | readAt o r =>
    obtain ⟨t, ht, ⟨-, rfl⟩ | ⟨m, c, -, -, hc, rfl⟩ | ⟨e, rfl⟩⟩ := readAt_cases h
    · simp [Orderly.nil, Act.free]
    · exact ⟨.of_free (free_answered r _ _), by simp⟩
    · simp [Orderly.nil]
  | outAt o tup =>
    obtain ⟨t, ht, e, rfl⟩ := outAt_cases h
    refine ⟨.nil, fun l hl => ?_⟩
    obtain ⟨sp, -, rfl⟩ := List.mem_map.1 hl
    exact free_thread o _ sp
  | collectAt p copy new o dest tmpl =>
    obtain ⟨t, d, c, -, -, -, ⟨e, rfl⟩ | ⟨tups, rfl⟩⟩ := collectAt_cases h
    · simp [Effect.raise, Orderly.nil]
    · refine ⟨.of_free fun b hb => ?_, by simp [Effect.go]⟩
      simp only [Effect.go, List.mem_append, List.mem_singleton] at hb
      rcases hb with (hb | hb) | rfl
      · exact free_collectLoop _ _ _ _ b hb
      · cases new <;> simp at hb
        subst hb
        rfl
      · rfl
  | unblockRandom o =>
    obtain ⟨t, -, ⟨-, rfl⟩ | ⟨p, -, rfl⟩⟩ := unblockRandom_cases h
    · exact ⟨.nil, by simp [Effect.go]⟩
    · exact ⟨.of_free (by simp [Effect.go, Act.free]), by simp [Effect.go]⟩
  | deleteReference ts ref =>
    have hno := hk (by simpa [Act.free] using ha)
    cases h
    simp [Server.onTs, hno, Effect.go, Orderly.nil]
  | deleteRequest tid ts ref =>
    cases h
    obtain ⟨pid, rfl⟩ : ∃ pid, ref = .proc pid := by
      cases ref <;> simp_all [Act.free, Holder.isProc]
    rcases hl : w.server.lookup ts with _ | o
    · simpa [Server.onTs, hl, Effect.go] using Orderly.of_free (by simp [Act.free])
    · simpa [Server.onTs, hl, Effect.go] using
        Orderly.lock (.one ts pid) (.of_free (by simp [Act.free]))
  | removeanyreferences o ref =>
    obtain ⟨t, -, h⟩ := Server.onObj_eq_some.1 h
    split at h <;> cases h
    · simp [Effect.go, Orderly.nil]
    · simpa [Effect.go] using Orderly.lock (.all ref) (.of_free (by simp [Act.free]))
  | ifLast pid =>
    simp only [Act.exec] at h
    split at h <;> cases h
    all_goals
      refine ⟨.of_free ?_, by simp [Effect.go, Effect.raise]⟩
      simp [Effect.go, Effect.raise, removeLast, Act.free]
  | dropBlocked pid =>
    cases h
    refine ⟨.of_free fun b hb => ?_, by simp [Effect.go]⟩
    obtain ⟨t, -, rfl⟩ := List.mem_map.1 hb
    rfl
  | dropReferences pid =>
    cases h
    refine ⟨.of_free fun b hb => ?_, by simp [Effect.go]⟩
    obtain ⟨t, -, rfl⟩ := List.mem_map.1 hb
    rfl
  | walk o again refs ths =>
    simp only [Act.exec] at h
    split at h <;> cases h
    all_goals
      refine ⟨.of_free ?_, by simp [Effect.go, Effect.raise]⟩
      cases again <;> simp [Effect.go, Effect.raise, Act.free]
  | acquire | forkDelete | removereference | removeAll => cases ha
  | dropPthread t =>
    simp only [Act.exec] at h
    split at h
    · cases h
      simp [Effect.raise, Orderly.nil]
    · split at h <;> cases h <;> simp [Effect.go, Effect.raise, Orderly.nil]
  | addreference | gcWalk | isDeadLocked | garbage =>
    obtain ⟨t, -, h⟩ := Server.onObj_eq_some.1 h
    split at h <;> cases h <;>
      exact ⟨.of_free (by simp [Effect.go, Act.free]), by simp [Effect.go]⟩
  | doGarbageCollection =>
    obtain ⟨t, -, h⟩ := Server.onObj_eq_some.1 h
    cases h
    exact ⟨.of_free (by simp [Effect.go, Act.free]), by simp [Effect.go]⟩
  | getBlocked | delBlocked | dropThread | dropProcess =>
    simp only [Act.exec] at h
    split at h <;> cases h <;> simp [Effect.go, Effect.raise, Orderly.nil]
  | read ts | out ts | addReference ts | deleteAllReferences ts | unblockAgain ts | ensure ts
  | collect _ _ ts | sweep ts =>
    cases h
    rcases hl : w.server.lookup ts with _ | o <;>
      exact ⟨.of_free (by simp [Server.onTs, hl, Effect.go, Effect.raise, Act.free]),
        by simp [Server.onTs, hl, Effect.go, Effect.raise]⟩
  | collectDest p copy new o ts tmpl =>
    cases h
    rcases hl : w.server.lookup ts with _ | o
    · cases new <;> exact ⟨.of_free (by simp [Server.onTs, hl, Effect.go, Effect.raise, Act.free]),
        by simp [Server.onTs, hl, Effect.go, Effect.raise]⟩
    · exact ⟨.of_free (by simp [Server.onTs, hl, Effect.go, Act.free]),
        by simp [Server.onTs, hl, Effect.go]⟩
  | create | setBlocked | dropTs | newTupleSpace | sendNowhere | reply =>
    cases h
    exact ⟨.of_free (by simp [Effect.go, Effect.raise, Act.free]), by simp [Effect.go, Effect.raise]⟩

/-! ## The thread that takes a step -/

/-- A locked step is not inside the lock of another object. -/
theorem insideLock_cons (s : Server) (o : ObjId) (a : Act) (acts : List Act) :
    insideLock s o (a :: acts) = if a.inside s o then 1 else 0 := rfl

theorem sum_insideLock_of_orderly {pool : List (List Act)} (h : ∀ l ∈ pool, Orderly l) (s : Server)
    (o : ObjId) : weight (insideLock s o) pool = 0 := by
  induction pool with
  | nil => rfl
  | cons l pool ih =>
    rw [List.forall_mem_cons] at h
    simp [h.1.insideLock s o, ih h.2]

/-- What the step `a`, with `acts` behind it, leaves of its thread and starts. -/
structure StepLocking (s : Server) (a : Act) (acts : List Act) (eff : Effect) : Prop where
  orderly : OrderlyThread (World.rest eff acts)
  spawned : ∀ l ∈ eff.spawned, OrderlyThread l
  present : ∀ b l, World.rest eff acts = b :: l ∨ b :: l ∈ eff.spawned → b.Present eff.server
  balance : ∀ o t t', s.obj? o = some t → eff.server.obj? o = some t' →
    t'.killlock + (insideLock eff.server o (World.rest eff acts) +
      weight (insideLock eff.server o) eff.spawned) = t.killlock + insideLock s o (a :: acts)

theorem Orderly.present (h : Orderly (a :: acts)) (s : Server) : a.Present s := by
  cases h with
  | lock => trivial
  | cons ha _ => cases a <;> simp_all [Act.free, Act.Present]

/-- A thread in order, with nothing started, on tables with the same locks. -/
theorem StepLocking.of_orderly (hr : Orderly (World.rest eff acts))
    (hsp : ∀ l ∈ eff.spawned, Orderly l) (hb : ∀ o t t', s.obj? o = some t →
      eff.server.obj? o = some t' → t'.killlock = t.killlock + insideLock s o (a :: acts)) :
    StepLocking s a acts eff where
  orderly := .inl hr
  spawned l hl := .inl (hsp l hl)
  present b l h := by
    rcases h with h | h
    · rw [h] at hr
      exact hr.present _
    · exact (hsp _ h).present _
  balance o t t' ht ht' := by
    rw [hr.insideLock, sum_insideLock_of_orderly hsp, hb o t t' ht ht', Nat.add_zero]

theorem stepLocking_free (hth : OrderlyThread (a :: acts)) (ha : a.free = true)
    (hk : a.KeepsLock w acts) (he : a.exec w.server = some eff) :
    StepLocking w.server a acts eff := by
  obtain ⟨hn, hs⟩ := exec_orderly ha hk he
  refine .of_orderly ?_ (fun l hl => .of_free (hs l hl)) fun o t t' ht ht' => ?_
  · unfold World.rest
    split
    · exact .nil
    · exact hn.append (hth.free ha)
  · have hno : a.inside w.server o = false := Bool.eq_false_iff.2 fun hi => by
      have := inside_locked hi
      rw [free_not_locked ha] at this
      cases this
    rw [insideLock_cons, hno]
    rcases (exec_frame he).objs o t' ht' with ⟨u, hu, hc⟩ | ⟨ts, -, ho, -⟩
    · rw [ht] at hu
      cases hu
      rcases hc.killlock with h | ⟨rfl, -⟩ | ⟨⟨ref, rfl | rfl⟩, -⟩
      · simpa using h
      all_goals cases ha
    · exact absurd ho (Nat.ne_of_lt (List.getElem?_eq_some_iff.1 ht).1)

theorem finds_forkDelete {ts : TsId} {ref : Holder}
    (hk : (Act.acquire o).KeepsLock w (.forkDelete ts ref :: acts)) :
    w.server.lookup ts = some o ∧ ∃ t, w.server.obj? o = some t ∧ ref ∈ t.refs := by
  simpa [Act.KeepsLock, Act.finds, Option.any_eq_true] using hk

/-- With the lock acquired the thread is inside it. -/
theorem stepLocking_acquire (hth : OrderlyThread (.acquire o :: acts))
    (hk : (Act.acquire o).KeepsLock w acts) (he : (Act.acquire o).exec w.server = some eff) :
    StepLocking w.server (.acquire o) acts eff := by
  obtain ⟨u, hu, he⟩ := Server.onObj_eq_some.1 he
  split at he <;> cases he
  rename_i hpos
  obtain ⟨b, rest, rfl, hb, hrest⟩ := hth.acquired
  have hnew := obj?_setObj_self hu { u with killlock := u.killlock - 1 }
  have hin : ∀ o', b.inside (w.server.setObj o { u with killlock := u.killlock - 1 }) o' =
      decide (o' = o) := by
    intro o'
    cases hb with
    | one ts pid =>
      have hl := (finds_forkDelete hk).1
      simp [Act.inside, Act.deletesAt, Holder.isProc, hl, eq_comm]
    | all ref => simp [Act.inside, eq_comm]
  refine ⟨.inr ⟨b, rest, rfl, ?_, hrest⟩, by simp [Effect.go], ?_, ?_⟩
  · cases hb <;> rfl
  · rintro c l (h | h)
    · cases h
      cases hb with
      | one ts pid =>
        obtain ⟨hl, t, ht, href⟩ := finds_forkDelete hk
        rw [hu] at ht
        cases ht
        exact fun _ => ⟨o, _, hl, hnew, href⟩
      | all ref => exact ⟨_, hnew⟩
    · cases h
  · intro o' t t' ht ht'
    have hacq : (Act.acquire o).inside w.server o' = false := rfl
    simp only [World.rest, Effect.go, List.nil_append, weight_nil,
      insideLock_cons, hin, hacq, decide_eq_true_eq] at ht' ⊢
    by_cases ho : o' = o
    · subst ho
      rw [hu] at ht
      rw [hnew] at ht'
      cases ht
      cases ht'
      simp
      omega
    · rw [obj?_setObj_ne ho, ht] at ht'
      cases ht'
      simp [ho]

theorem stepLocking_forkDelete {ts : TsId} {ref : Holder}
    (hth : OrderlyThread (.forkDelete ts ref :: acts)) (href : ref.isProc = true)
    (hp : (Act.forkDelete ts ref).Present s) (he : (Act.forkDelete ts ref).exec s = some eff) :
    StepLocking s (.forkDelete ts ref) acts eff := by
  cases he
  have hrest : Orderly acts := hth.locked href
  refine ⟨.inl hrest, ?_, ?_, ?_⟩
  · intro l hl
    obtain rfl := List.mem_singleton.1 hl
    exact .inr ⟨_, [], rfl, href, .nil⟩
  · rintro b l (h | h)
    · obtain rfl : acts = b :: l := h
      exact hrest.present _
    · cases List.mem_singleton.1 h
      exact hp
  · intro o t t' ht ht'
    rw [ht] at ht'
    cases ht'
    simp [World.rest, hrest.insideLock, insideLock_cons, Act.inside, Act.deletesAt]

theorem stepLocking_deleteReference {ts : TsId} {ref : Holder}
    (hth : OrderlyThread (.deleteReference ts ref :: acts)) (href : ref.isProc = true)
    (hp : (Act.deleteReference ts ref).Present s)
    (he : (Act.deleteReference ts ref).exec s = some eff) :
    StepLocking s (.deleteReference ts ref) acts eff := by
  obtain ⟨o, t, hl, ht, hmem⟩ := hp href
  cases he
  have hrest : Orderly (.garbage o :: acts) := .cons rfl (hth.locked href)
  simp only [Server.onTs, hl]
  refine ⟨.inr ⟨_, _, rfl, rfl, hrest⟩, by simp [Effect.go], ?_, ?_⟩
  · rintro b l (h | h)
    · cases h
      exact ⟨t, ht, hmem⟩
    · cases h
  · intro o' u u' hu hu'
    obtain rfl : u = u' := Option.some.inj (hu.symm.trans hu')
    simp [World.rest, Effect.go, insideLock_cons, Act.inside, Act.deletesAt, href, hl]

/-- A step that leaves the lock of `o` and releases it. -/
theorem StepLocking.release {t u : TupleSpace} {next : List Act} (ht : s.obj? o = some t)
    (hu : u.killlock = t.killlock + 1) (hin : ∀ o', a.inside s o' = decide (o = o'))
    (hn : ∀ b ∈ next, b.free = true) (hrest : Orderly acts) :
    StepLocking s a acts (.go (s.setObj o u) next) := by
  refine .of_orderly ((Orderly.of_free hn).append hrest) (by simp [Effect.go]) ?_
  intro o' v v' hv hv'
  simp only [Effect.go] at hv'
  rw [insideLock_cons, hin]
  by_cases ho : o' = o
  · subst ho
    rw [ht] at hv
    rw [obj?_setObj_self ht] at hv'
    cases hv
    cases hv'
    simpa using hu
  · rw [obj?_setObj_ne ho, hv] at hv'
    cases hv'
    simp [Ne.symm ho]

theorem stepLocking_removereference {ref : Holder}
    (hth : OrderlyThread (.removereference o ref :: acts))
    (hp : (Act.removereference o ref).Present s)
    (he : (Act.removereference o ref).exec s = some eff) :
    StepLocking s (.removereference o ref) acts eff := by
  obtain ⟨t, ht, hmem⟩ := hp
  obtain ⟨u, hu, h⟩ := Server.onObj_eq_some.1 he
  rw [ht] at hu
  cases hu
  have hrest : Orderly acts := hth.locked rfl
  by_cases hid : t.id = .uts
  · rw [if_pos hid] at h
    cases h
    exact .release ht rfl (fun _ => rfl) (by simp) hrest
  · rw [if_neg hid, if_pos hmem] at h
    cases h
    exact .release ht rfl (fun _ => rfl) (by simp [Act.free]) hrest

theorem stepLocking_removeAll {ref : Holder} (hth : OrderlyThread (.removeAll o ref :: acts))
    (he : (Act.removeAll o ref).exec s = some eff) :
    StepLocking s (.removeAll o ref) acts eff := by
  obtain ⟨t, ht, h⟩ := Server.onObj_eq_some.1 he
  cases h
  exact .release ht rfl (fun _ => rfl) (by simp) (hth.locked rfl)

/-- Every step of a thread in order keeps the balance of the locks. -/
theorem stepLocking (hth : OrderlyThread (a :: acts)) (hp : a.Present w.server)
    (hk : a.KeepsLock w acts) (he : a.exec w.server = some eff) :
    StepLocking w.server a acts eff := by
  by_cases ha : a.free = true
  · exact stepLocking_free hth ha hk he
  · cases a with
    | acquire o => exact stepLocking_acquire hth hk he
    | forkDelete ts ref =>
      have href : ref.isProc = true := by
        rcases hth with h | ⟨b, l, hb, hl, -⟩
        · cases h with
          | cons hf _ => cases hf
        · cases hb
          exact hl
      exact stepLocking_forkDelete hth href hp he
    | deleteReference ts ref =>
      exact stepLocking_deleteReference hth (by simpa [Act.free] using ha) hp he
    | removereference o ref => exact stepLocking_removereference hth hp he
    | removeAll o ref => exact stepLocking_removeAll hth he
    | deleteRequest tid ts ref =>
      rcases hth with h | ⟨b, l, hb, hl, -⟩
      · cases h with
        | cons hf _ => exact absurd hf ha
      · cases hb
        cases hl
    | _ => exact absurd rfl ha

/-! ## The whole pool -/

namespace World.Locking

variable {i : Nat}

/-- Two threads are not inside the lock of one object. -/
theorem not_both (hw : w.Locking) {j : Nat} {b : Act} {acts' : List Act} {t : TupleSpace}
    (hij : i ≠ j) (hi : w.pool[i]? = some (a :: acts)) (hj : w.pool[j]? = some (b :: acts'))
    (ht : w.server.obj? o = some t) (ha : a.inside w.server o = true) :
    b.inside w.server o = false := by
  refine Bool.eq_false_iff.2 fun hb => ?_
  have h1 := add_le_weight (insideLock w.server o) hij hi hj
  have h2 := hw.count o t ht
  rw [insideLock_cons, insideLock_cons, ha, hb] at h1
  simp only [if_true] at h1
  omega

theorem lockOrder (hw : w.Locking) : w.LockOrder where
  permits o t ht := by
    have := hw.count o t ht
    omega
  alone i j o ref b acts acts' hi hij hj := by
    obtain ⟨t, ht⟩ := hw.present _ _ (List.mem_of_getElem? hi)
    have hno := hw.not_both (Ne.symm hij) hi hj ht (by simp [Act.inside])
    cases b <;> simp_all [Act.inside, Act.deletesAt]
  found i o ref acts t hi ht := by
    obtain ⟨u, hu, href⟩ := hw.present _ _ (List.mem_of_getElem? hi)
    rw [ht] at hu
    cases hu
    exact href

/-- Nobody is inside the lock of an object that is only made now. -/
theorem fresh_lock (hw : w.Locking) (hs : w.server.Sound) : ∀ l ∈ w.pool,
    insideLock w.server w.server.objs.length l = 0 := by
  intro l hl
  cases l with
  | nil => rfl
  | cons b acts' =>
    have hno : ∀ t, w.server.obj? w.server.objs.length ≠ some t := fun t ht =>
      absurd (List.getElem?_eq_some_iff.1 ht).1 (Nat.lt_irrefl _)
    have hp := hw.present b acts' hl
    have hout : b.inside w.server w.server.objs.length = false := by
      refine Bool.eq_false_iff.2 fun hin => ?_
      cases b with
      | forkDelete ts ref | deleteReference ts ref =>
        simp only [Act.inside, Act.deletesAt, Bool.and_eq_true, decide_eq_true_eq] at hin
        obtain ⟨t, ht, -⟩ := hs.lookup ts _ hin.2
        exact hno t ht
      | removereference o ref =>
        obtain ⟨t, ht, -⟩ := hp
        simp only [Act.inside, Act.deletesAt, decide_eq_true_eq] at hin
        exact hno t (hin ▸ ht)
      | removeAll o ref =>
        obtain ⟨t, ht⟩ := hp
        simp only [Act.inside, decide_eq_true_eq] at hin
        exact hno t (hin ▸ ht)
      | _ => simp [Act.inside, Act.deletesAt] at hin
    rw [insideLock_cons, hout]
    rfl

variable (hk : (Event.act i).KeepsLock w) (hi : w.pool[i]? = some (a :: acts))
  (he : a.exec w.server = some eff)
include hk hi he

/-- What a deletion is about to look up stays in `local_ts`. -/
theorem lookup_kept {b : Act} {acts' : List Act} (hb : b :: acts' ∈ w.pool) {ts : TsId}
    (haw : b.awaits ts = true) : eff.server.lookup ts = w.server.lookup ts := by
  have hka := (keepsLock_act hi).1 hk
  rcases (exec_frame he).localTs with heq | ⟨ts', rfl, heq⟩ | ⟨ts', rfl, heq⟩
  · simp only [Server.lookup, heq]
  all_goals
    have hne : ts ≠ ts' := by
      rintro rfl
      have hno : b.awaits ts = false := hka b acts' hb
      rw [hno] at haw
      cases haw
  · simp only [Server.lookup, heq, Server.newTupleSpace]
    exact Dict.get?_set_ne hne
  · simp only [Server.lookup, heq]
    exact Dict.get?_erase_ne hne

theorem insideLock_kept (o : ObjId) : ∀ l ∈ w.pool,
    insideLock eff.server o l = insideLock w.server o l := by
  intro l hl
  cases l with
  | nil => rfl
  | cons b acts' =>
    have hlook : ∀ ts, b.awaits ts = true → eff.server.lookup ts = w.server.lookup ts :=
      fun ts => lookup_kept hk hi he hl
    have hsame : b.inside eff.server o = b.inside w.server o := by
      cases b with
      | forkDelete ts ref | deleteReference ts ref =>
        cases href : ref.isProc with
        | false => simp [Act.inside, Act.deletesAt, href]
        | true => simp [Act.inside, Act.deletesAt, href, hlook ts (by simp [Act.awaits, href])]
      | _ => rfl
    rw [insideLock_cons, insideLock_cons, hsame]

/-- The references that other threads are deleting stay in the lists. -/
theorem refs_kept (hw : w.Locking) {j : Nat} {b : Act} {acts' : List Act}
    (hj : w.pool[j]? = some (b :: acts')) (hij : i ≠ j) {t : TupleSpace}
    (hd : b.deletesAt w.server o = true) (ht : w.server.obj? o = some t) {ref : Holder}
    (href : ref ∈ t.refs) : ∃ t', eff.server.obj? o = some t' ∧ ref ∈ t'.refs := by
  obtain ⟨t', ht', hc⟩ := (exec_frame he).kept ht
  refine ⟨t', ht', ?_⟩
  have hb : b.inside w.server o = true := by
    cases b <;> simp_all [Act.inside, Act.deletesAt]
  have hout : a.inside w.server o = true → False := fun ha => by
    have := hw.not_both hij hi hj ht ha
    rw [hb] at this
    cases this
  rcases hc.refsKept with hsub | ⟨ref', rfl | rfl⟩ | ⟨toCheck, memo, rfl, hg⟩
  · exact hsub.mem href
  · exact (hout (by simp [Act.inside, Act.deletesAt])).elim
  · exact (hout (by simp [Act.inside])).elim
  · have hnil : toCheck = [] := by
      cases toCheck with
      | nil => rfl
      | cons x l =>
        rw [gcTurn_cons] at hg
        split at hg
        · cases hg
        · split at hg <;> cases hg
    have hno : b.deletesAt w.server o = false :=
      (keepsLock_act hi).1 hk hnil b acts' (List.mem_of_getElem? hj)
    rw [hno] at hd
    cases hd

/-- The other threads find what they rely on. -/
theorem present_kept (hw : w.Locking) {j : Nat} {b : Act} {acts' : List Act}
    (hj : w.pool[j]? = some (b :: acts')) (hij : i ≠ j) : b.Present eff.server := by
  have hmem := List.mem_of_getElem? hj
  have hp := hw.present b acts' hmem
  cases b with
  | forkDelete ts ref | deleteReference ts ref =>
    intro href
    obtain ⟨o, t, hl, ht, hin⟩ := hp href
    obtain ⟨t', ht', hin'⟩ := refs_kept hk hi he hw hj hij
      (by simp [Act.deletesAt, href, hl]) ht hin
    exact ⟨o, t', (lookup_kept hk hi he hmem (by simp [Act.awaits, href])).trans hl, ht', hin'⟩
  | removereference o ref =>
    obtain ⟨t, ht, hin⟩ := hp
    exact refs_kept hk hi he hw hj hij (by simp [Act.deletesAt]) ht hin
  | removeAll o ref =>
    obtain ⟨t, ht⟩ := hp
    obtain ⟨t', ht', -⟩ := (exec_frame he).kept ht
    exact ⟨t', ht'⟩
  | _ => trivial

theorem act (hw : w.Locking) (hs : w.server.Sound) : (w.stepped i eff acts).Locking := by
  have hth := hw.orderly _ (List.mem_of_getElem? hi)
  have hst := stepLocking hth (hw.present _ _ (List.mem_of_getElem? hi)) ((keepsLock_act hi).1 hk) he
  have hothers : ∀ l ∈ w.pool.set i (World.rest eff acts), l = World.rest eff acts ∨
      ∃ j, i ≠ j ∧ w.pool[j]? = some l := by
    intro l hl
    obtain ⟨j, hj⟩ := List.mem_iff_getElem?.1 hl
    by_cases hij : i = j
    · subst hij
      have hlt : i < w.pool.length := (List.getElem?_eq_some_iff.1 hi).1
      rw [List.getElem?_set_self hlt] at hj
      exact .inl (Option.some.inj hj).symm
    · rw [List.getElem?_set_ne hij] at hj
      exact .inr ⟨j, hij, hj⟩
  refine ⟨fun l hl => ?_, fun b l hl => ?_, fun o t' ht' => ?_⟩
  · rw [World.stepped_pool] at hl
    rcases List.mem_append.1 hl with hl | hl
    · rcases hothers l hl with rfl | ⟨j, -, hj⟩
      · exact hst.orderly
      · exact hw.orderly l (List.mem_of_getElem? hj)
    · exact hst.spawned l hl
  · rw [World.stepped_pool] at hl
    rw [World.stepped_server]
    rcases List.mem_append.1 hl with hl | hl
    · rcases hothers _ hl with heq | ⟨j, hij, hj⟩
      · exact hst.present b l (.inl heq.symm)
      · exact present_kept hk hi he hw hj hij
    · exact hst.present b l (.inr hl)
  · rw [World.stepped_server] at ht' ⊢
    rw [World.stepped_pool, weight_append]
    have hsum := weight_set (insideLock eff.server o) hi (World.rest eff acts)
    rw [weight_congr (insideLock_kept hk hi he o),
      insideLock_kept hk hi he o _ (List.mem_of_getElem? hi)] at hsum
    rcases (exec_frame he).objs o t' ht' with ⟨t, ht, -⟩ | ⟨ts, rfl, rfl, rfl⟩
    · have h1 := hw.count o t ht
      have h2 := hst.balance o t t' ht ht'
      omega
    · -- the lock of a new tuplespace has its permit, and nobody knows it yet
      have hzero : weight (insideLock w.server w.server.objs.length) w.pool = 0 :=
        weight_eq_zero (fresh_lock hw hs)
      cases he
      have hrest : Orderly acts := hth.free rfl
      have hnil : ([] : List (List Act)).map (insideLock
          (Effect.go (w.server.newTupleSpace ts) []).server w.server.objs.length) = [] := rfl
      have h2 := hrest.insideLock (w.server.newTupleSpace ts) w.server.objs.length
      simp only [World.rest, Effect.go, List.nil_append, hzero, h2, weight_nil,
        TupleSpace.init] at hsum ⊢
      omega

omit hk hi he

/-- Threads in order start, the locks and the references stay as they are. -/
theorem more (hw : w.Locking) {new : List (List Act)} (hnew : ∀ l ∈ new, Orderly l)
    (hpool : w'.pool = w.pool ++ new)
    (hlook : ∀ ts, w'.server.lookup ts = w.server.lookup ts)
    (hback : ∀ o t', w'.server.obj? o = some t' → ∃ t, w.server.obj? o = some t ∧
      t'.killlock = t.killlock)
    (hkept : ∀ o t, w.server.obj? o = some t → ∃ t', w'.server.obj? o = some t' ∧
      t'.refs = t.refs) : w'.Locking := by
  have hin : ∀ o b, Act.inside w'.server o b = b.inside w.server o := by
    intro o b
    cases b <;> simp [Act.inside, Act.deletesAt, hlook]
  refine ⟨fun l hl => ?_, fun b l hl => ?_, fun o t' ht' => ?_⟩
  · rw [hpool] at hl
    rcases List.mem_append.1 hl with hl | hl
    · exact hw.orderly l hl
    · exact .inl (hnew l hl)
  · rw [hpool] at hl
    rcases List.mem_append.1 hl with hl | hl
    · have hp := hw.present b l hl
      cases b with
      | forkDelete ts ref | deleteReference ts ref =>
        intro href
        obtain ⟨o, t, hts, ht, hmem⟩ := hp href
        obtain ⟨t', ht', heq⟩ := hkept o t ht
        exact ⟨o, t', (hlook ts).trans hts, ht', heq ▸ hmem⟩
      | removereference o ref =>
        obtain ⟨t, ht, hmem⟩ := hp
        obtain ⟨t', ht', heq⟩ := hkept o t ht
        exact ⟨t', ht', heq ▸ hmem⟩
      | removeAll o ref =>
        obtain ⟨t, ht⟩ := hp
        obtain ⟨t', ht', -⟩ := hkept o t ht
        exact ⟨t', ht'⟩
      | _ => trivial
    · exact (hnew _ hl).present _
  · obtain ⟨t, ht, hkl⟩ := hback o t' ht'
    have hsame : insideLock w'.server o = insideLock w.server o := by
      funext l
      cases l with
      | nil => rfl
      | cons b l => rw [insideLock_cons, insideLock_cons, hin]
    rw [hpool, weight_append, sum_insideLock_of_orderly hnew, hsame, hkl]
    exact hw.count o t ht

/-- Threads start that have nothing to do with the locks. -/
theorem started (hw : w.Locking) {new : List (List Act)} (hnew : ∀ l ∈ new, Orderly l)
    (hpool : w'.pool = w.pool ++ new) (hl : w'.server.localTs = w.server.localTs)
    (ho : w'.server.objs = w.server.objs) : w'.Locking := by
  refine hw.more hnew hpool (fun ts => ?_) (fun o t h => ⟨t, ?_, rfl⟩) fun o t h => ⟨t, ?_, rfl⟩
  · unfold Server.lookup
    rw [hl]
  · unfold Server.obj? at h ⊢
    rw [← ho]
    exact h
  · unfold Server.obj? at h ⊢
    rw [ho]
    exact h

theorem next {e : Event} (hw : w.Locking) (hs : w.server.Sound) (hk : e.KeepsLock w)
    (h : WorldStep w e w') : w'.Locking := by
  obtain ⟨hp, hn⟩ := h
  have hnone : ∀ l ∈ ([] : List (List Act)), Orderly l := by simp
  cases e with
  | registerProcess =>
    cases hn
    exact hw.started hnone (List.append_nil _).symm rfl rfl
  | registerThread pid =>
    obtain ⟨tids, -, rfl⟩ := World.next_registerThread hn
    exact hw.started hnone (List.append_nil _).symm rfl rfl
  | begin t op =>
    obtain ⟨-, -, -, rfl⟩ := World.next_begin hn
    exact hw.started hnone (by simp) (by simp) (by simp)
  | send t =>
    obtain ⟨-, -, m, script, -, rfl⟩ := World.next_send hn
    refine hw.started (fun l hl => ?_) rfl rfl rfl
    rw [List.mem_singleton.1 hl]
    exact .of_free (free_handler t m)
  | act i =>
    obtain ⟨a, acts, eff, hi, he, rfl⟩ := World.next_act hn
    exact World.Locking.act hk hi he hw hs
  | depart t =>
    obtain ⟨-, rfl⟩ := World.next_depart hn
    refine hw.started (fun l hl => ?_) (World.departed_pool t) (by simp) (by simp)
    rw [List.mem_singleton.1 hl]
    exact .of_free (by simp [removeProcess, Act.free])
  | finalise o =>
    obtain ⟨t, -, -, -, rfl⟩ := World.next_finalise hn
    refine hw.started (fun l hl => ?_) rfl rfl rfl
    rw [List.mem_singleton.1 hl]
    exact .of_free (free_finaliser t)
  | rehash o blocked =>
    obtain ⟨t, ht, -, rfl⟩ := World.next_rehash hp hn
    refine hw.more hnone (List.append_nil _).symm (fun ts => rfl) (fun o' u hu => ?_)
      fun o' u hu => ?_
    · by_cases ho : o' = o
      · subst ho
        rw [show _ = some _ from obj?_setObj_self ht _] at hu
        cases hu
        exact ⟨t, ht, rfl⟩
      · rw [show _ = _ from obj?_setObj_ne ho] at hu
        exact ⟨u, hu, rfl⟩
    · by_cases ho : o' = o
      · subst ho
        rw [ht] at hu
        cases hu
        exact ⟨_, obj?_setObj_self ht _, rfl⟩
      · exact ⟨u, (obj?_setObj_ne ho).trans hu, rfl⟩

theorem init : World.init.Locking where
  orderly l hl := by cases hl
  present a acts h := by cases h
  count o t ht := by
    cases o with
    | zero =>
      cases ht
      rfl
    | succ o => cases ht

end World.Locking

/-- The kill lock does what it is for in a run in which a reference that a process does
not hold itself is only deleted after its tuplespace. -/
theorem killlock_order {tr : List (World × Event)} (h : Run WorldStep .init tr w)
    (hk : ∀ x ∈ tr, x.2.KeepsLock x.1) : Throughout World.LockOrder tr w := by
  have hI := h.throughout (I := fun w => w.Sound ∧ w.Locking) (C := fun w e => e.KeepsLock w)
    (fun _ _ _ hw hk hs => ⟨hw.1.next hs, hw.2.next hw.1.server hk hs⟩)
    ⟨⟨sound_init, by simp [World.init], by simp [World.init]⟩, .init⟩ hk
  exact ⟨fun x hx => (hI.1 x hx).2.lockOrder, hI.2.2.lockOrder⟩

/-- A process makes a tuplespace and deletes its only reference, which goes through. -/
theorem killlock_order_deleted : ∃ tr w, Run WorldStep .init tr w ∧
    Throughout World.LockOrder tr w ∧ w.pool.all List.isEmpty ∧
    w.server.lookup (.sid 1) = none ∧ w.server.objs.map TupleSpace.killlock = [1, 1] := by
  let tid : Tid := ⟨⟨0⟩, 1⟩
  let evs : List Event := [.registerProcess, .registerThread ⟨0⟩, .begin tid .createTuplespace,
    .send tid, .act 0, .act 0, .act 0, .act 0, .act 0, .begin tid (.deleteReference (.sid 1)),
    .send tid, .act 1, .act 1, .act 1, .act 1, .act 2, .act 2, .act 2, .act 2, .act 2, .act 2,
    .act 2, .act 2, .act 2]
  have hk : ∀ x ∈ trace? World.next .init evs, x.2.KeepsLock x.1 := by decide +kernel
  have hw : (exec? World.next .init evs).any (fun w => decide (w.pool.all List.isEmpty ∧
      w.server.lookup (.sid 1) = none ∧ w.server.objs.map TupleSpace.killlock = [1, 1])) := by
    decide +kernel
  obtain ⟨w, hexec, hw⟩ := (Option.any_eq_true _ _).1 hw
  obtain ⟨hr, -⟩ := Run.of_exec? (P := fun w e => e.Proper w) (by simp [evs, Event.Proper]) hexec
  exact ⟨_, w, hr, killlock_order hr hk, of_decide_eq_true hw⟩

/-- A process takes a reference out of the universal tuplespace. The tuplespace it refers
to ends up with two permits. -/
theorem killlock_released_twice : ∃ tr w, Run WorldStep .init tr w ∧ ¬ w.LockOrder := by
  let tid : Tid := ⟨⟨0⟩, 1⟩
  let evs : List Event := [.registerProcess, .registerThread ⟨0⟩, .begin tid .createTuplespace,
    .send tid, .act 0, .act 0, .act 0, .act 0, .act 0, .begin tid (.out .uts [.tsref (.sid 1)]),
    .send tid, .act 1, .act 1, .act 1, .act 1, .send tid, .act 2, .act 2, .act 2,
    .begin tid (.read .in_ .uts [.tsref (.sid 1)]), .send tid, .act 3, .act 3, .act 3, .act 3,
    .act 3, .act 3, .act 3, .act 3]
  have hw : (exec? World.next .init evs).any (fun w =>
      decide ((w.server.obj? 1).map TupleSpace.killlock = some 2)) := by
    decide +kernel
  obtain ⟨w, hexec, hw⟩ := (Option.any_eq_true _ _).1 hw
  obtain ⟨hr, -⟩ := Run.of_exec? (P := fun w e => e.Proper w) (by simp [evs, Event.Proper]) hexec
  obtain ⟨t, ht, hkl⟩ := Option.map_eq_some_iff.1 (of_decide_eq_true hw)
  refine ⟨_, w, hr, fun ho => ?_⟩
  have := ho.permits 1 t ht
  omega

end PyLinda
