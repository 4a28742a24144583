import PyLinda.Server.Frame
import PyLinda.Server.Reply

/-!
# Threads that leave

A blocked reader is in three tables: the `blocked_list` of a tuplespace,
`blocked_threads` and `threads`. `removeProcess` takes a thread out of the last
two and never looks at the first.
-/

namespace PyLinda

open Lib

/-- A blocked reader is a registered thread, and `blocked_threads` has it waiting
for this tuplespace. -/
def Server.InStep (s : Server) : Prop :=
  ∀ o t, s.obj? o = some t → ∀ tid ∈ t.blockedList.keys,
    tid ∈ s.threads ∧ s.blockedThreads.get? tid = some t.id

/-- `tid` is in some `blocked_list`. -/
def Server.Parked (s : Server) (tid : Tid) : Prop :=
  ∃ o t, s.obj? o = some t ∧ tid ∈ t.blockedList.keys

/-- The condition on a step: a thread that is taken out of a table is not blocked,
and one that blocks has not been taken out of them in the meantime. -/
def Act.KeepsInStep (s : Server) : Act → Prop
  | .dropThread tid | .delBlocked tid => ¬ s.Parked tid
  | .readAt o r => ∀ t, s.obj? o = some t → (∀ m ∈ t.ts.contain, Skips m r.template) →
      r.tid ∈ s.threads ∧ s.blockedThreads.get? r.tid = some t.id
  | _ => True

variable {s s' : Server} {a : Act} {eff : Effect} {w w' : World} {tid : Tid}

/-- A step that touches the three tables in no other way than by waking readers. -/
theorem Act.Frame.inStep (hf : a.Frame s s') (h : s.InStep) (ha : ∀ o r, a ≠ .readAt o r)
    (ht : s'.threads = s.threads) (hb : s'.blockedThreads = s.blockedThreads) : s'.InStep := by
  intro o t' ht' tid htid
  rcases hf.objs o t' ht' with ⟨t, hto, hc⟩ | ⟨ts, -, -, rfl⟩
  · rw [ht, hb, hc.id]
    rcases hc.blocked with hsub | ⟨r, rfl, -⟩
    · exact h o t hto tid ((hsub.map Prod.fst).mem htid)
    · exact absurd rfl (ha o r)
  · simp [TupleSpace.init, Dict.empty, Dict.keys] at htid

theorem Server.InStep.setObj (h : s.InStep) {o : ObjId} {t t' : TupleSpace}
    (ht : s.obj? o = some t) (hid : t'.id = t.id) (hb : ∀ p ∈ t'.blockedList.keys, p ∈ t.blockedList.keys) :
    (s.setObj o t').InStep := by
  intro o' u hu p hp
  by_cases ho : o' = o
  · subst ho
    rw [obj?_setObj_self ht t'] at hu
    cases hu
    rw [hid]
    exact h o' t ht p (hb p hp)
  · rw [obj?_setObj_ne ho] at hu
    exact h o' u hu p hp

theorem exec_inStep_iff (h : s.InStep) (hnd : s.threads.Nodup)
    (hset : ∀ ts r, a = .setBlocked ts r → ¬ s.Parked r.tid) (he : a.exec s = some eff) :
    eff.server.InStep ↔ a.KeepsInStep s := by
  have hf := exec_frame he
  cases a with
  | dropThread tid =>
    simp only [Act.exec] at he
    split at he <;> cases he
    · constructor
      · rintro h' ⟨o, t, ht, htid⟩
        exact hnd.not_mem_erase (h' o t ht tid htid).1
      · intro hp o t ht p hpk
        obtain ⟨h1, h2⟩ := h o t ht p hpk
        have hne : p ≠ tid := fun hpt => hp ⟨o, t, ht, hpt ▸ hpk⟩
        exact ⟨(List.mem_erase_of_ne hne).2 h1, h2⟩
    · refine iff_of_true h ?_
      rintro ⟨o, t, ht, htid⟩
      exact absurd (h o t ht tid htid).1 ‹_›
  | delBlocked tid =>
    simp only [Act.exec] at he
    split at he <;> cases he
    · constructor
      · rintro h' ⟨o, t, ht, htid⟩
        have h1 : (s.blockedThreads.erase tid).get? tid = some t.id := (h' o t ht tid htid).2
        rw [Dict.get?_erase_self] at h1
        cases h1
      · intro hp o t ht p hpk
        obtain ⟨h1, h2⟩ := h o t ht p hpk
        have hne : p ≠ tid := fun hpt => hp ⟨o, t, ht, hpt ▸ hpk⟩
        exact ⟨h1, (Dict.get?_erase_ne hne).trans h2⟩
    · refine iff_of_true h ?_
      rintro ⟨o, t, ht, htid⟩
      have h1 : (s.blockedThreads.get? tid).isSome := by rw [(h o t ht tid htid).2]; rfl
      exact absurd h1 ‹_›
  | setBlocked ts r =>
    cases he
    refine iff_of_true (fun o t ht p hpk => ?_) trivial
    obtain ⟨h1, h2⟩ := h o t ht p hpk
    have hne : p ≠ r.tid := fun hpt => hset ts r rfl ⟨o, t, ht, hpt ▸ hpk⟩
    exact ⟨h1, (Dict.get?_set_ne hne).trans h2⟩
  | readAt o r =>
    obtain ⟨t, ht, -⟩ := readAt_cases he
    by_cases hs : ∀ m ∈ t.ts.contain, Skips m r.template
    · rw [readAt_parks ht hs] at he
      cases he
      have hnew := obj?_setObj_self ht (t.block r.tid
        ⟨r.template, r.msg.unblockable, r.msg.destructive⟩).ts
      constructor
      · intro h' u hu _
        rw [ht] at hu
        cases hu
        exact h' o _ hnew r.tid (Dict.mem_keys.2 ⟨_, List.mem_cons_self⟩)
      · intro hk o' t' ht' p hpk
        by_cases ho : o' = o
        · subst ho
          rw [hnew] at ht'
          cases ht'
          obtain ⟨b, hb⟩ := Dict.mem_keys.1 hpk
          rcases Dict.mem_set.1 hb with hb | ⟨hb, -⟩
          · cases hb
            exact hk t ht hs
          · exact h o' t ht p (Dict.mem_keys.2 ⟨b, hb⟩)
        · rw [obj?_setObj_ne ho] at ht'
          exact h o' t' ht' p hpk
    · refine iff_of_true ?_ fun u hu hsu => ?_
      · obtain ⟨u, hu, ⟨hsu, -⟩ | ⟨m, c, -, -, -, rfl⟩ | ⟨e, rfl⟩⟩ := readAt_cases he
        · rw [ht] at hu
          cases hu
          exact absurd hsu hs
        · exact h.setObj hu rfl fun _ hp => hp
        · exact h.setObj hu rfl fun _ hp => hp
      · rw [ht] at hu
        cases hu
        exact absurd hsu hs
  | _ =>
    refine iff_of_true (hf.inStep h (by simp) ?_ ?_) trivial
    · rcases hf.threads with ht | ⟨_, ha, -⟩
      · exact ht
      · cases ha
    · rcases hf.blockedThreads with hb | ⟨_, _, ha, -⟩ | ⟨_, ha, -⟩
      · exact hb
      · cases ha
      · cases ha

/-! ## The world -/

/-- The condition on an event. -/
def Event.KeepsInStep (w : World) (e : Event) : Prop :=
  ∀ i a acts, e = .act i → w.pool[i]? = some (a :: acts) → a.KeepsInStep w.server

/-- The counters of `pthread_count` are ahead of every registered thread, so no
thread is registered twice. -/
structure Counted (w : World) : Prop where
  nodup : w.server.threads.Nodup
  le : ∀ tid ∈ w.server.threads, tid.count ≤ w.pthreadCount tid.pid

theorem counted_init : Counted .init := ⟨.nil, by simp [World.init, Server.init]⟩

theorem Counted.of_sublist (h : Counted w) (hsub : w'.server.threads.Sublist w.server.threads)
    (hn : w'.pthreadCount = w.pthreadCount) : Counted w' :=
  ⟨h.nodup.sublist hsub, fun tid ht => by rw [hn]; exact h.le tid (hsub.mem ht)⟩

theorem Counted.next {e : Event} (hc : Counted w) (h : WorldStep w e w') : Counted w' := by
  obtain ⟨hp, hn⟩ := h
  cases e with
  | registerProcess =>
    cases hn
    exact hc.of_sublist (.refl _) rfl
  | registerThread pid =>
    obtain ⟨tids, -, rfl⟩ := World.next_registerThread hn
    have hnew : (⟨pid, w.pthreadCount pid + 1⟩ : Tid) ∉ w.server.threads := fun hm => by
      have := hc.le _ hm
      simp at this
    refine ⟨?_, fun tid ht => ?_⟩
    · show (w.server.threads ++ [_]).Nodup
      rw [List.nodup_append]
      refine ⟨hc.nodup, by simp, fun x hx y hy hxy => hnew ?_⟩
      rw [← List.mem_singleton.1 hy, ← hxy]
      exact hx
    · simp only [World.registered]
      rcases List.mem_append.1 ht with ht | ht
      · have := hc.le tid ht
        split
        · rename_i hpid
          rw [hpid] at this
          omega
        · exact this
      · obtain rfl := List.mem_singleton.1 ht
        simp
  | begin t op =>
    obtain ⟨-, -, -, rfl⟩ := World.next_begin hn
    exact hc.of_sublist (by simp) (by simp)
  | send t =>
    obtain ⟨-, -, m, script, -, rfl⟩ := World.next_send hn
    exact hc.of_sublist (.refl _) rfl
  | act i =>
    obtain ⟨a, acts, eff, -, he, rfl⟩ := World.next_act hn
    refine hc.of_sublist ?_ (by simp)
    rw [World.stepped_server]
    rcases (exec_frame he).threads with ht | ⟨tid, -, ht⟩
    · rw [ht]
    · rw [ht]
      exact List.erase_sublist
  | depart t =>
    obtain ⟨-, rfl⟩ := World.next_depart hn
    exact hc.of_sublist (by simp) (by simp)
  | finalise o =>
    obtain ⟨t, -, -, -, rfl⟩ := World.next_finalise hn
    exact hc.of_sublist (.refl _) rfl
  | rehash o blocked =>
    obtain ⟨t, -, -, rfl⟩ := World.next_rehash hp hn
    exact hc.of_sublist (.refl _) rfl

/-- A thread about to ask is in no `blocked_list`. -/
theorem OneReply.not_parked (hw : OneReply w) {acts : List Act} {a : Act} (hp : acts ∈ w.pool)
    (ha : a ∈ acts) (htok : a.token 1 tid = 1) : ¬ w.server.Parked tid := by
  have h1 := le_poolWeight (w := Act.token 1 tid) hp ha
  have h2 := hw.total tid
  unfold World.tokens at h2
  rintro ⟨o, t, ht, htid⟩
  exact parked_eq_zero_iff.1 (by omega) o t ht htid

theorem inStep_next_iff {e : Event} (hw : OneReply w) (hc : Counted w) (hs : w.server.InStep)
    (h : WorldStep w e w') : w'.server.InStep ↔ e.KeepsInStep w := by
  obtain ⟨hp, hn⟩ := h
  cases e with
  | act i =>
    obtain ⟨a, acts, eff, hi, he, rfl⟩ := World.next_act hn
    have hset : ∀ ts r, a = .setBlocked ts r → ¬ w.server.Parked r.tid := by
      rintro ts r rfl
      exact hw.not_parked (List.mem_of_getElem? hi) List.mem_cons_self (by simp [Act.token])
    rw [World.stepped_server, exec_inStep_iff hs hc.nodup hset he]
    constructor
    · intro hk j b bs hj hb
      cases hj
      rw [hi] at hb
      cases hb
      exact hk
    · intro hk
      exact hk i a acts rfl hi
  | registerProcess =>
    cases hn
    exact iff_of_true hs (fun _ _ _ he => by cases he)
  | registerThread pid =>
    obtain ⟨tids, -, rfl⟩ := World.next_registerThread hn
    refine iff_of_true (fun o t ht p hpk => ?_) (fun _ _ _ he => by cases he)
    exact ⟨List.mem_append_left _ (hs o t ht p hpk).1, (hs o t ht p hpk).2⟩
  | begin t op =>
    obtain ⟨-, -, -, rfl⟩ := World.next_begin hn
    exact iff_of_true (by rw [World.begun_server]; exact hs) (fun _ _ _ he => by cases he)
  | send t =>
    obtain ⟨-, -, m, script, -, rfl⟩ := World.next_send hn
    exact iff_of_true hs (fun _ _ _ he => by cases he)
  | depart t =>
    obtain ⟨-, rfl⟩ := World.next_depart hn
    exact iff_of_true (by rw [World.departed_server]; exact hs) (fun _ _ _ he => by cases he)
  | finalise o =>
    obtain ⟨t, -, -, -, rfl⟩ := World.next_finalise hn
    exact iff_of_true hs (fun _ _ _ he => by cases he)
  | rehash o blocked =>
    obtain ⟨t, ht, hperm, rfl⟩ := World.next_rehash hp hn
    refine iff_of_true (hs.setObj ht rfl fun p hp => ?_) (fun _ _ _ he => by cases he)
    exact (List.Perm.map Prod.fst hperm).symm.subset hp

/-- This step wakes `tid` in an `_out`, or picks it in `unblockRandom`. -/
def World.Picks (w : World) (e : Event) (tid : Tid) : Prop :=
  ∃ i a acts o t, e = .act i ∧ w.pool[i]? = some (a :: acts) ∧ w.server.obj? o = some t ∧
    ((∃ tup m p, a = .outAt o tup ∧ .returnTuple tid m p ∈ (t._out tup).spawned) ∨
      a = .unblockRandom o ∧ pickUnblockable t.blockedList.entries = some tid)

theorem World.Picks.parked {e : Event} (h : w.Picks e tid) : w.server.Parked tid := by
  obtain ⟨i, a, acts, o, t, -, -, ht, ⟨tup, m, p, -, hsp⟩ | ⟨-, hp⟩⟩ := h
  · obtain ⟨x, hv, -, hx⟩ := mem_woken_iff.1 (TupleSpace.returnTuple_mem_spawned.1 hsp)
    cases hx
    exact ⟨o, t, ht, Dict.mem_keys.2 ⟨x.2, hv.mem⟩⟩
  · obtain ⟨x, hx, rfl⟩ := Option.map_eq_some_iff.1 hp
    exact ⟨o, t, ht, Dict.mem_keys.2 ⟨x.2, List.mem_of_find?_eq_some hx⟩⟩

/-- A run keeps the tables in step throughout exactly when each of its steps meets
the condition. Then every reader that is woken or unblocked is still registered. -/
theorem inStep_throughout_iff {tr : List (World × Event)} (h : Run WorldStep .init tr w) :
    (Throughout (fun w => w.server.InStep) tr w ↔ ∀ x ∈ tr, x.2.KeepsInStep x.1) ∧
      ((∀ x ∈ tr, x.2.KeepsInStep x.1) →
        ∀ x ∈ tr, ∀ tid, x.1.Picks x.2 tid → tid ∈ x.1.server.threads) := by
  have hinit : World.init.server.InStep := by
    intro o t ht p hp
    rcases o with _ | o
    · cases ht
      simp [TupleSpace.init, Dict.empty, Dict.keys] at hp
    · cases ht
  have hiff : Throughout (fun w => w.server.InStep) tr w ↔ ∀ x ∈ tr, x.2.KeepsInStep x.1 := by
    refine h.throughout_iff (I := fun w => OneReply w ∧ Counted w)
      (P := fun w => w.server.InStep) (C := fun w e => e.KeepsInStep w) ?_ ?_ ⟨oneReply_init, counted_init⟩ hinit
    · rintro v e v' ⟨hv, hc⟩ - - hs
      exact ⟨hv.next hs, hc.next hs⟩
    · rintro v e v' ⟨hv, hc⟩ hin hs
      exact inStep_next_iff hv hc hin hs
  refine ⟨hiff, fun hk x hx tid hpick => ?_⟩
  obtain ⟨o, t, ht, htid⟩ := hpick.parked
  exact ((hiff.2 hk).1 x hx o t ht tid htid).1

/-- A thread blocks while its entries are in place. -/
def blockOnce (tid : Tid) : List Event :=
  [.registerProcess, .registerThread ⟨0⟩, .begin tid (.read .in_ .uts [.integer 5]), .send tid,
    .act 0, .act 0, .act 0]

theorem inStep_throughout_block : ∃ tr w, Run WorldStep .init tr w ∧
    tr.map Prod.snd = blockOnce ⟨⟨0⟩, 1⟩ ∧ Throughout (fun w => w.server.InStep) tr w := by
  let r : Request := ⟨⟨⟨0⟩, 1⟩, .in_, [.integer 5]⟩
  have hexec : ∃ w, exec? World.next .init (blockOnce ⟨⟨0⟩, 1⟩) = some w := ⟨_, rfl⟩
  obtain ⟨w, hw⟩ := hexec
  obtain ⟨hr, htr⟩ := Run.of_exec? (P := fun w e => e.Proper w)
    (by simp [blockOnce, Event.Proper]) hw
  refine ⟨_, w, hr, htr, (inStep_throughout_iff hr).1.2 ?_⟩
  have hclient : ∀ {w : World} {e : Event}, (∀ i, e ≠ .act i) → e.KeepsInStep w :=
    fun he i _ _ hi => absurd hi (he i)
  have hact : ∀ {w : World} (a : Act) (acts : List Act), w.pool[0]? = some (a :: acts) →
      a.KeepsInStep w.server → (Event.act 0).KeepsInStep w := by
    intro w a acts h0 hk i b bs hi hb
    cases hi
    rw [h0] at hb
    cases hb
    exact hk
  refine List.forall_mem_cons.2 ⟨hclient (by simp), List.forall_mem_cons.2 ⟨hclient (by simp),
    List.forall_mem_cons.2 ⟨hclient (by simp), List.forall_mem_cons.2 ⟨hclient (by simp),
    List.forall_mem_cons.2 ⟨hact (.setBlocked .uts r) [] rfl trivial,
    List.forall_mem_cons.2 ⟨hact (.read .uts r) [] rfl trivial,
    List.forall_mem_cons.2 ⟨hact (.readAt 0 r) [] rfl fun t ht _ => ?_,
      fun x hx => (List.not_mem_nil (a := x) hx).elim⟩⟩⟩⟩⟩⟩⟩
  obtain rfl : TupleSpace.init .uts = t := Option.some.inj ht
  exact ⟨by decide, by decide⟩

/-! ## A blocked thread leaves -/

/-- One thread of a process blocks and leaves, then another thread puts a tuple. -/
def leaveBlocked (t1 t2 : Tid) : List Event :=
  [.registerProcess, .registerThread ⟨0⟩, .registerThread ⟨0⟩,
    .begin t1 (.read .in_ .uts [.integer 5]), .send t1, .act 0, .act 0, .act 0,
    .depart t1, .act 2, .act 2, .act 2,
    .begin t2 (.out .uts [.integer 5]), .send t2, .act 3]

/-- The departed thread is still in the `blocked_list`, and `_out` picks it. -/
theorem departed_thread_picked : ∃ tr w, Run WorldStep .init tr w ∧
    tr.map Prod.snd = leaveBlocked ⟨⟨0⟩, 1⟩ ⟨⟨0⟩, 2⟩ ∧ ¬ w.server.InStep ∧
    w.Picks (.act 3) ⟨⟨0⟩, 1⟩ ∧ ⟨⟨0⟩, 1⟩ ∉ w.server.threads := by
  obtain ⟨w, hw⟩ : ∃ w, w = (exec? World.next .init
    (leaveBlocked ⟨⟨0⟩, 1⟩ ⟨⟨0⟩, 2⟩)).getD .init := ⟨_, rfl⟩
  have hexec : exec? World.next .init (leaveBlocked ⟨⟨0⟩, 1⟩ ⟨⟨0⟩, 2⟩) = some w := by
    rw [hw]; rfl
  obtain ⟨hr, htr⟩ := Run.of_exec? (P := fun w e => e.Proper w)
    (by simp [leaveBlocked, Event.Proper]) hexec
  have hno : ⟨⟨0⟩, 1⟩ ∉ w.server.threads := by rw [hw]; decide
  have hpick : w.Picks (.act 3) ⟨⟨0⟩, 1⟩ := by
    refine ⟨3, .outAt 0 [.integer 5], [.reply ⟨⟨0⟩, 2⟩ .done], 0, _, rfl, by rw [hw]; rfl,
      by rw [hw]; rfl, .inl ⟨_, _, _, rfl, List.mem_cons_self⟩⟩
  refine ⟨_, w, hr, htr, fun hin => ?_, hpick, hno⟩
  obtain ⟨o, t, ht, htid⟩ := hpick.parked
  exact hno (hin o t ht _ htid).1

end PyLinda
