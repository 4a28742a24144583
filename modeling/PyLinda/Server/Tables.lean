import PyLinda.Lib.Run
import PyLinda.Server.Frame

/-!
# The tables of a running server

`local_ts` maps an id to a tuplespace with this id, nobody else sends requests, and
the owners in a list of references are ids. The object that `collect` passes in
the place of an id never gets into a list.
-/

namespace PyLinda

open Lib

/-- The holder is an id. -/
def Holder.IsId : Holder → Prop
  | .obj _ => False
  | _ => True

/-- A step that adds a reference adds one of an id. -/
def Act.Plain : Act → Prop
  | .addReference _ ref | .addreference _ ref => ref.IsId
  | _ => True

def Msg.Plain : Msg → Prop
  | .addReference _ ref => ref.IsId
  | _ => True

theorem isId_proc (pid : Pid) : (Holder.proc pid).IsId := trivial

theorem isId_ts (ts : TsId) : (Holder.ts ts).IsId := trivial

variable {s s' : Server} {a : Act} {eff : Effect} {w w' : World}

/-! ## The lists of steps -/

theorem plain_addReferences {tup : Tuple} {h : Holder} (hh : h.IsId) :
    ∀ a ∈ addReferences tup h, a.Plain := by
  intro a ha
  obtain ⟨e, -, rfl⟩ := List.mem_map.1 ha
  exact hh

theorem plain_delReferences {tup : Tuple} {h : Holder} : ∀ a ∈ delReferences tup h, a.Plain := by
  intro a ha
  obtain ⟨e, -, rfl⟩ := List.mem_map.1 ha
  trivial

theorem plain_changeOwner {tup : Tuple} {h h' : Holder} (hh : h'.IsId) :
    ∀ a ∈ changeOwner tup h h', a.Plain := by
  intro a ha
  obtain ⟨e, -, ha⟩ := List.mem_flatMap.1 ha
  rcases List.mem_cons.1 ha with rfl | ha
  · exact hh
  · obtain rfl := List.mem_singleton.1 ha
    trivial

theorem plain_answered (r : Request) (ts : TsId) (t : Tuple) : ∀ a ∈ r.answered ts t, a.Plain := by
  intro a ha
  unfold Request.answered at ha
  simp only [List.mem_cons, List.mem_append, List.not_mem_nil, or_false] at ha
  rcases ha with (rfl | ha) | rfl
  · trivial
  · split at ha
    · exact plain_changeOwner (isId_proc _) a ha
    · exact plain_addReferences (isId_proc _) a ha
  · trivial

theorem plain_collectLoop (copy : Bool) (src destTs : TsId) (tups : List Tuple) :
    ∀ a ∈ collectLoop copy src destTs tups, a.Plain := by
  intro a ha
  obtain ⟨t, -, ha⟩ := List.mem_flatMap.1 ha
  rcases List.mem_append.1 ha with ha | ha
  · split at ha
    · obtain ⟨e, -, rfl⟩ := List.mem_map.1 ha
      trivial
    · exact plain_changeOwner (isId_ts _) a ha
  · obtain rfl := List.mem_singleton.1 ha
    trivial

theorem plain_handler (tid : Tid) {m : Msg} (hm : m.Plain) : ∀ a ∈ m.handler tid, a.Plain := by
  cases m with
  | addReference ts ref => simpa [Msg.handler, Act.Plain] using (show ref.IsId from hm)
  | deleteReference ts => cases ts <;> simp [Msg.handler, Act.Plain]
  | _ => simp [Msg.handler, Act.Plain]

theorem plain_thread (o : ObjId) (ts : TsId) (sp : Spawn) : ∀ a ∈ sp.thread o ts, a.Plain := by
  intro a ha
  cases sp with
  | returnTuple tid m p =>
    simp only [Spawn.thread, List.mem_append, List.mem_cons, List.not_mem_nil, or_false] at ha
    rcases ha with ((rfl | rfl) | ha) | rfl
    · trivial
    · trivial
    · exact plain_changeOwner (isId_proc _) a ha
    · trivial
  | forward node m => cases ha
  | addTuples p =>
    obtain rfl := List.mem_singleton.1 ha
    trivial

theorem plain_finaliser (t : TupleSpace) : ∀ a ∈ World.finaliser t, a.Plain := by
  intro a ha
  obtain ⟨tup, -, ha⟩ := List.mem_flatMap.1 ha
  exact plain_delReferences a ha

theorem plain_script (op : ClientOp) : ∀ m ∈ op.script, m.Plain := by
  cases op with
  | out ts tup =>
    intro m hm
    simp only [ClientOp.script, List.mem_append, List.mem_map, List.mem_singleton] at hm
    rcases hm with ⟨e, -, rfl⟩ | rfl <;> trivial
  | _ => simp [ClientOp.script, Msg.Plain]

/-- A plain step leads to plain steps. -/
theorem exec_plain (ha : a.Plain) (h : a.exec s = some eff) :
    (∀ b ∈ eff.next, b.Plain) ∧ ∀ acts ∈ eff.spawned, ∀ b ∈ acts, b.Plain := by
  cases a with
  | readAt o r =>
    obtain ⟨t, ht, ⟨-, rfl⟩ | ⟨m, c, -, -, hc, rfl⟩ | ⟨e, rfl⟩⟩ := readAt_cases h
    · simp [Act.Plain]
    · exact ⟨plain_answered r _ _, by simp⟩
    · simp
  | outAt o tup =>
    obtain ⟨t, ht, e, rfl⟩ := outAt_cases h
    refine ⟨by simp, fun acts hacts => ?_⟩
    obtain ⟨sp, -, rfl⟩ := List.mem_map.1 hacts
    exact plain_thread o _ sp
  | collectAt p copy new o dest tmpl =>
    obtain ⟨t, d, c, -, -, -, ⟨e, rfl⟩ | ⟨tups, rfl⟩⟩ := collectAt_cases h
    · simp [Effect.raise]
    · refine ⟨fun b hb => ?_, by simp [Effect.go]⟩
      simp only [Effect.go, List.mem_append, List.mem_singleton] at hb
      rcases hb with (hb | hb) | rfl
      · exact plain_collectLoop _ _ _ _ b hb
      · cases new <;> simp at hb
        subst hb
        trivial
      · trivial
  | unblockRandom o =>
    obtain ⟨t, -, ⟨-, rfl⟩ | ⟨p, -, rfl⟩⟩ := unblockRandom_cases h <;> simp [Effect.go, Act.Plain]
  | addReference ts ref =>
    cases h
    rcases hl : s.lookup ts with _ | o
    · simp [Server.onTs, hl, Effect.raise]
    · simpa [Server.onTs, hl, Effect.go, Act.Plain] using ha
  | ifLast pid =>
    simp only [Act.exec] at h
    split at h <;> cases h <;> simp [Effect.go, Effect.raise, removeLast, Act.Plain]
  | dropBlocked pid =>
    cases h
    refine ⟨fun b hb => ?_, by simp [Effect.go]⟩
    obtain ⟨t, -, rfl⟩ := List.mem_map.1 hb
    trivial
  | walk o again refs ths =>
    simp only [Act.exec] at h
    split at h <;> cases h
    · cases again <;> simp [Effect.go, Act.Plain]
    all_goals simp [Effect.go, Effect.raise, Act.Plain]
  | removereference =>
    obtain ⟨t, -, h⟩ := Server.onObj_eq_some.1 h
    split at h
    · cases h
      simp [Effect.go]
    · split at h <;> cases h <;> simp [Effect.go, Effect.raise, Act.Plain]
  | dropPthread t =>
    simp only [Act.exec] at h
    split at h
    · cases h
      simp [Effect.raise]
    · split at h <;> cases h <;> simp [Effect.go, Effect.raise]
  | acquire | addreference | gcWalk | removeanyreferences | isDeadLocked | garbage =>
    obtain ⟨t, -, h⟩ := Server.onObj_eq_some.1 h
    split at h <;> cases h <;> simp [Effect.go, Act.Plain]
  | removeAll | doGarbageCollection =>
    obtain ⟨t, -, h⟩ := Server.onObj_eq_some.1 h
    cases h
    simp [Effect.go, Act.Plain]
  | getBlocked | delBlocked | dropThread | dropProcess =>
    simp only [Act.exec] at h
    split at h <;> cases h <;> simp [Effect.go, Effect.raise]
  | read ts | out ts | deleteReference ts | deleteAllReferences ts | unblockAgain ts | ensure ts
  | collect _ _ ts | sweep ts | deleteRequest _ ts =>
    cases h
    rcases hl : s.lookup ts with _ | o <;> simp [Server.onTs, hl, Effect.go, Effect.raise, Act.Plain]
  | collectDest p copy new o ts tmpl =>
    cases h
    rcases hl : s.lookup ts with _ | o
    · cases new <;> simp [Server.onTs, hl, Effect.go, Effect.raise, Act.Plain]
    · simp [Server.onTs, hl, Effect.go, Act.Plain]
  | create =>
    cases h
    simp [Effect.go, Act.Plain, Holder.IsId]
  | setBlocked | dropTs | newTupleSpace | sendNowhere | forkDelete | reply | dropReferences =>
    cases h
    simp [Effect.go, Effect.raise, Act.Plain]

/-! ## The invariant -/

/-- `local_ts` and the lists in the tuplespaces. -/
structure Server.Sound (s : Server) : Prop where
  lookup : ∀ ts o, s.lookup ts = some o → ∃ t, s.obj? o = some t ∧ t.id = ts
  requests : ∀ o t, s.obj? o = some t → t.requests = []
  refs : ∀ o t, s.obj? o = some t → ∀ ref ∈ t.refs, ref.IsId

theorem sound_init : Server.init.Sound := by
  have hobj : ∀ o t, Server.init.obj? o = some t → o = 0 ∧ t = .init .uts := by
    intro o t h
    cases o with
    | zero =>
      cases h
      exact ⟨rfl, rfl⟩
    | succ o => cases h
  refine ⟨fun ts o h => ?_, fun o t h => ?_, fun o t h => ?_⟩
  · have hmem := Dict.mem_set.1 (Dict.get?_eq_some_iff.1 h)
    rcases hmem with hmem | ⟨hmem, -⟩
    · cases hmem
      exact ⟨_, rfl, rfl⟩
    · cases hmem
  · rw [(hobj o t h).2]
    rfl
  · rw [(hobj o t h).2]
    simp [TupleSpace.init]

theorem Server.Sound.exec (hs : s.Sound) (ha : a.Plain) (h : a.exec s = some eff) :
    eff.server.Sound := by
  have hf := exec_frame h
  -- objects stay where they are and keep their ids
  have hkeep : ∀ o t, s.obj? o = some t → ∃ t', eff.server.obj? o = some t' ∧ t'.id = t.id := by
    intro o t ht
    obtain ⟨t', ht', hc⟩ := hf.kept ht
    exact ⟨t', ht', hc.id⟩
  refine ⟨fun ts o hl => ?_, fun o t ht => ?_, fun o t ht => ?_⟩
  · rcases hf.localTs with heq | ⟨ts', -, heq⟩ | ⟨ts', -, heq⟩
    · obtain ⟨t, ht, hid⟩ := hs.lookup ts o (by unfold Server.lookup at hl ⊢; rw [← heq]; exact hl)
      obtain ⟨t', ht', hid'⟩ := hkeep o t ht
      exact ⟨t', ht', hid'.trans hid⟩
    · rw [heq] at hl ⊢
      rcases Dict.mem_set.1 (Dict.get?_eq_some_iff.1 hl) with hmem | ⟨hmem, -⟩
      · cases hmem
        exact ⟨.init ts, by simp [Server.obj?, Server.newTupleSpace], rfl⟩
      · obtain ⟨t, ht, hid⟩ := hs.lookup ts o (Dict.get?_eq_some_iff.2 hmem)
        rw [heq] at hkeep
        obtain ⟨t', ht', hid'⟩ := hkeep o t ht
        exact ⟨t', ht', hid'.trans hid⟩
    · unfold Server.lookup at hl
      rw [heq] at hl
      have hmem := (Dict.mem_erase.1 (Dict.get?_eq_some_iff.1 hl)).1
      obtain ⟨t, ht, hid⟩ := hs.lookup ts o (Dict.get?_eq_some_iff.2 hmem)
      obtain ⟨t', ht', hid'⟩ := hkeep o t ht
      exact ⟨t', ht', hid'.trans hid⟩
  · rcases hf.objs o t ht with ⟨u, hu, hc⟩ | ⟨ts, -, -, rfl⟩
    · rw [hc.requests]
      exact hs.requests o u hu
    · rfl
  · rcases hf.objs o t ht with ⟨u, hu, hc⟩ | ⟨ts, -, -, rfl⟩
    · rcases hc.refs with hsub | ⟨ref, rfl, heq⟩
      · exact fun ref hr => hs.refs o u hu ref (hsub.mem hr)
      · rw [heq]
        intro x hx
        rcases List.mem_append.1 hx with hx | hx
        · exact hs.refs o u hu x hx
        · rw [List.mem_singleton.1 hx]
          exact ha
    · simp [TupleSpace.init]

/-- What holds in every state of a run. -/
structure World.Sound (w : World) : Prop where
  server : w.server.Sound
  pool : ∀ acts ∈ w.pool, ∀ a ∈ acts, a.Plain
  scripts : ∀ tid, ∀ m ∈ (w.clients tid).script, m.Plain

theorem World.Sound.next {e : Event} (hw : w.Sound) (h : WorldStep w e w') : w'.Sound := by
  obtain ⟨hp, hn⟩ := h
  cases e with
  | registerProcess =>
    cases hn
    exact ⟨⟨hw.server.lookup, hw.server.requests, hw.server.refs⟩, hw.pool, hw.scripts⟩
  | registerThread pid =>
    obtain ⟨tids, -, rfl⟩ := World.next_registerThread hn
    exact ⟨⟨hw.server.lookup, hw.server.requests, hw.server.refs⟩, hw.pool, hw.scripts⟩
  | begin t op =>
    obtain ⟨-, -, -, rfl⟩ := World.next_begin hn
    refine ⟨by simpa using hw.server, by simpa using hw.pool, fun tid => ?_⟩
    rw [World.begun_clients]
    split
    · exact plain_script op
    · exact hw.scripts tid
  | send t =>
    obtain ⟨-, -, m, script, hs, rfl⟩ := World.next_send hn
    have hscript := hw.scripts t
    rw [hs, List.forall_mem_cons] at hscript
    refine ⟨hw.server, fun acts hacts => ?_, fun tid => ?_⟩
    · rcases List.mem_append.1 hacts with hacts | hacts
      · exact hw.pool acts hacts
      · rw [List.mem_singleton.1 hacts]
        exact plain_handler t hscript.1
    · simp only [World.sent, World.setClient]
      split
      · exact hscript.2
      · exact hw.scripts tid
  | act i =>
    obtain ⟨a, acts, eff, hi, he, rfl⟩ := World.next_act hn
    have hacts := hw.pool _ (List.mem_of_getElem? hi)
    rw [List.forall_mem_cons] at hacts
    obtain ⟨hnext, hspawned⟩ := exec_plain hacts.1 he
    refine ⟨by rw [World.stepped_server]; exact hw.server.exec hacts.1 he, ?_, fun tid => ?_⟩
    · rw [World.stepped_pool]
      intro l hl
      rcases List.mem_append.1 hl with hl | hl
      · rcases List.mem_or_eq_of_mem_set hl with hl | rfl
        · exact hw.pool l hl
        · unfold World.rest
          split
          · simp
          · simpa [or_imp, forall_and] using ⟨hnext, hacts.2⟩
      · exact hspawned l hl
    · rw [World.stepped_clients]
      split
      · exact hw.scripts tid
      · split
        · exact hw.scripts _
        · exact hw.scripts tid
  | depart t =>
    obtain ⟨-, rfl⟩ := World.next_depart hn
    refine ⟨by simpa using hw.server, fun acts hacts => ?_, by simpa using hw.scripts⟩
    rw [World.departed_pool] at hacts
    rcases List.mem_append.1 hacts with hacts | hacts
    · exact hw.pool acts hacts
    · rw [List.mem_singleton.1 hacts]
      simp [removeProcess, Act.Plain]
  | finalise o =>
    obtain ⟨t, -, -, -, rfl⟩ := World.next_finalise hn
    refine ⟨hw.server, fun acts hacts => ?_, hw.scripts⟩
    rcases List.mem_append.1 hacts with hacts | hacts
    · exact hw.pool acts hacts
    · rw [List.mem_singleton.1 hacts]
      exact plain_finaliser t
  | rehash o blocked =>
    obtain ⟨t, ht, hperm, rfl⟩ := World.next_rehash hp hn
    refine ⟨⟨fun ts o' hl => ?_, fun o' u hu => ?_, fun o' u hu => ?_⟩, hw.pool, hw.scripts⟩
    · obtain ⟨u, hu, hid⟩ := hw.server.lookup ts o' hl
      by_cases ho : o' = o
      · subst ho
        rw [ht] at hu
        cases hu
        exact ⟨_, obj?_setObj_self ht _, hid⟩
      · exact ⟨u, (obj?_setObj_ne ho).trans hu, hid⟩
    all_goals
      by_cases ho : o' = o
      · subst ho
        rw [show _ = some _ from obj?_setObj_self ht _] at hu
        cases hu
        first | exact hw.server.requests o' t ht | exact hw.server.refs o' t ht
      · rw [show _ = _ from obj?_setObj_ne ho] at hu
        first | exact hw.server.requests o' u hu | exact hw.server.refs o' u hu

theorem sound_of_run {tr : List (World × Event)} (h : Run WorldStep .init tr w) : w.Sound :=
  h.inv (C := fun _ _ => True) (fun _ _ _ hw _ hs => hw.next hs)
    ⟨sound_init, by simp [World.init], by simp [World.init]⟩ (by simp)

end PyLinda
