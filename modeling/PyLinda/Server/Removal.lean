import PyLinda.Server.Deadlock
import PyLinda.Server.Tables

/-!
# Removing a process

`removeProcess` goes through all local tuplespaces, one after another: it takes the
references of the process out, looks for a deadlock and collects garbage. The walk of
the deadlock check reads the table of processes from which the process is already gone,
and the references of the tuplespaces whose turn has not come yet.
-/

namespace PyLinda

open Lib

/-- The thread that removes a process, on its own. A tuplespace it deletes goes through
`__del__` at once, inside the thread: the innermost frame comes first. -/
structure Removal where
  server : Server
  frames : List (List Act)

namespace Removal

/-- The next step, `none` when the thread has ended, dies or has to wait. -/
def step (c : Removal) : Option Removal :=
  match c.frames with
  | [] => none
  | [] :: fs => some ⟨c.server, fs⟩
  | (.dropTs ts :: acts) :: fs =>
    match (c.server.lookup ts).bind c.server.obj? with
    | none => some ⟨c.server, acts :: fs⟩
    | some t => some ⟨{ c.server with localTs := c.server.localTs.erase ts },
        World.finaliser t :: acts :: fs⟩
  | (a :: acts) :: fs => (a.exec c.server).bind fun eff =>
    match eff.raised, fs with
    | none, fs => some ⟨eff.server, (eff.next ++ acts) :: fs⟩
    -- an exception in `__del__` is ignored
    | some _, f :: fs => some ⟨eff.server, f :: fs⟩
    | some _, [] => none

def Leads : Removal → Removal → Prop := Relation.ReflTransGen fun c c' => c.step = some c'

/-- The step does not go wrong: the kill lock is free, and the deadlock check returns.
Inside a `__del__` it may also raise. -/
def Goes (c : Removal) : Prop :=
  match c.frames with
  | (.acquire o :: _) :: _ => ∀ t, c.server.obj? o = some t → t.killlock ≠ 0
  | (.isDeadLocked o none :: _) :: fs => ∀ t, c.server.obj? o = some t → t.id ≠ .uts →
      if fs = [] then c.server.CheckReturns t else c.server.WalkEnds t.refs
  | _ => True

end Removal

/-- Nobody has a reference to the universal tuplespace. -/
def Server.UtsFree (s : Server) : Prop :=
  ∀ o t, s.obj? o = some t → t.id = .uts → t.refs = []

/-- `removeProcess` is called with the last thread of the process or with the process. -/
inductive Server.Leaves (s : Server) (pid : Pid) : List Act → Prop where
  | thread (tid : Tid) : tid.pid = pid → tid ∈ s.threads → s.pthreads.get? pid = some [tid] →
      s.Leaves pid (removeProcess tid)
  | process : (s.pthreads.get? pid).isSome → s.Leaves pid (removeLast pid)

/-- Nobody but the process is reached from the references. -/
def Server.Owned (s : Server) (pid : Pid) (refs : List Holder) : Prop :=
  ∀ h, s.ReachedFrom refs h → h.isLive = true → h = .proc pid

/-- What `removeProcess` is for: from `s` to `s'`. -/
structure Server.Removed (s : Server) (pid : Pid) (s' : Server) : Prop where
  refs : ∀ ts o t, s'.lookup ts = some o → s'.obj? o = some t → .proc pid ∉ t.refs
  blocked : ∀ tid, tid.pid = pid → s'.blockedThreads.get? tid = none
  collected : ∀ ts o t, s.lookup ts = some o → s.obj? o = some t → ts ≠ .uts →
    s.Owned pid t.refs → s'.lookup ts = none

/-! ## The steps -/

namespace Removal

variable {s s' : Server} {a : Act} {acts f : List Act} {fs : List (List Act)} {c d e : Removal}

theorem step_exec (ha : ∀ ts, a ≠ .dropTs ts) (s : Server) (acts : List Act)
    (fs : List (List Act)) : step ⟨s, (a :: acts) :: fs⟩ = (a.exec s).bind fun eff =>
      match eff.raised, fs with
      | none, fs => some ⟨eff.server, (eff.next ++ acts) :: fs⟩
      | some _, f :: fs => some ⟨eff.server, f :: fs⟩
      | some _, [] => none := by
  cases a with
  | dropTs ts => exact absurd rfl (ha ts)
  | _ => rfl

theorem takes (fs : List (List Act)) : Alone.Takes step fun s acts => ⟨s, acts :: fs⟩ := by
  intro s a acts s' next h ha
  rw [step_exec ha, h]
  rfl

theorem step_reply (p : Tid) (r : Reply) :
    step ⟨s, (.reply p r :: acts) :: fs⟩ = some ⟨s, acts :: fs⟩ := rfl

theorem step_raise {e : PyExc} (ha : ∀ ts, a ≠ .dropTs ts) (h : a.exec s = some (.raise s' e)) :
    step ⟨s, (a :: acts) :: f :: fs⟩ = some ⟨s', f :: fs⟩ := by
  rw [step_exec ha, h]
  rfl

theorem step_raise_nil {e : PyExc} (ha : ∀ ts, a ≠ .dropTs ts)
    (h : a.exec s = some (.raise s' e)) : step ⟨s, [a :: acts]⟩ = none := by
  rw [step_exec ha, h]
  rfl

theorem Leads.after (h : c.step = some d) (h' : d.Leads e) : c.Leads e :=
  Relation.ReflTransGen.head h h'

theorem Leads.and_then (h : c.Leads d) (h' : d.Leads e) : c.Leads e :=
  Relation.ReflTransGen.trans h h'

/-- A thread has one future. -/
theorem Leads.through (h : c.Leads d) (he : c.Leads e) (hd : d.step = none) : e.Leads d := by
  induction he using Relation.ReflTransGen.head_induction_on with
  | refl => exact h
  | @head c c' hs _ ih =>
    refine ih ?_
    rcases Relation.ReflTransGen.cases_head h with rfl | ⟨c'', hs', h'⟩
    · rw [hd] at hs
      cases hs
    · rw [hs] at hs'
      cases hs'
      exact h'

/-- Where a thread is stuck it does not end. -/
theorem Leads.not_stuck (h : c.Leads ⟨s', []⟩) (he : c.Leads e) (hs : e.step = none) :
    e.frames = [] := by
  rcases Relation.ReflTransGen.cases_head (h.through he rfl) with rfl | ⟨e', hs', -⟩
  · rfl
  · rw [hs] at hs'
    cases hs'

end Removal

/-! ## What removing does to the tables -/

/-- From `s` to `s'` tuplespaces, references and blocked threads only go. -/
structure Server.Shrinks (s s' : Server) : Prop where
  lookup : ∀ ts o, s'.lookup ts = some o → s.lookup ts = some o
  keys : s'.localTs.keys.length ≤ s.localTs.keys.length
  size : s'.objs.length = s.objs.length
  objs : ∀ o t', s'.obj? o = some t' →
    ∃ t, s.obj? o = some t ∧ t'.id = t.id ∧ t'.refs ⊆ t.refs
  pthreads : s'.pthreads = s.pthreads
  blocked : ∀ tid, s.blockedThreads.get? tid = none → s'.blockedThreads.get? tid = none

/-- `local_ts` has the tuplespaces under their ids. -/
def Server.Local (s : Server) : Prop :=
  ∀ ts o, s.lookup ts = some o → ∃ t, s.obj? o = some t ∧ t.id = ts

variable {s s' s'' : Server} {o : ObjId} {t t' : TupleSpace} {pid : Pid} {refs refs' : List Holder}

namespace Server.Shrinks

theorem refl (s : Server) : s.Shrinks s :=
  ⟨fun _ _ h => h, Nat.le_refl _, rfl, fun _ t' h => ⟨t', h, rfl, fun _ hx => hx⟩, rfl,
    fun _ h => h⟩

theorem trans (h : s.Shrinks s') (h' : s'.Shrinks s'') : s.Shrinks s'' where
  lookup ts o hl := h.lookup ts o (h'.lookup ts o hl)
  keys := Nat.le_trans h'.keys h.keys
  size := h'.size.trans h.size
  objs o t ht := by
    obtain ⟨u, hu, hid, hr⟩ := h'.objs o t ht
    obtain ⟨v, hv, hid', hr'⟩ := h.objs o u hu
    exact ⟨v, hv, hid.trans hid', fun _ hx => hr' (hr hx)⟩
  pthreads := h'.pthreads.trans h.pthreads
  blocked tid hb := h'.blocked tid (h.blocked tid hb)

theorem setObj (t' : TupleSpace) (ht : s.obj? o = some t) (hid : t'.id = t.id) (hr : t'.refs ⊆ t.refs) :
    s.Shrinks (s.setObj o t') where
  lookup _ _ h := h
  keys := Nat.le_refl _
  size := List.length_set
  objs o' u hu := by
    by_cases ho : o' = o
    · subst ho
      rw [obj?_setObj_self ht t'] at hu
      cases hu
      exact ⟨t, ht, hid, hr⟩
    · rw [obj?_setObj_ne ho] at hu
      exact ⟨u, hu, rfl, fun _ hx => hx⟩
  pthreads := rfl
  blocked _ h := h

theorem eraseBlocked (s : Server) (p : Tid) :
    s.Shrinks { s with blockedThreads := s.blockedThreads.erase p } where
  lookup _ _ h := h
  keys := Nat.le_refl _
  size := rfl
  objs _ t' h := ⟨t', h, rfl, fun _ hx => hx⟩
  pthreads := rfl
  blocked tid hb := by
    by_cases htp : tid = p
    · rw [htp]
      exact Dict.get?_erase_self
    · rw [show ({ s with blockedThreads := s.blockedThreads.erase p } : Server).blockedThreads.get? tid =
        s.blockedThreads.get? tid from Dict.get?_erase_ne htp]
      exact hb

/-- A tuplespace out of `local_ts`. -/
theorem eraseTs {ts : TsId} (hl : s.lookup ts = some o) :
    s.Shrinks { s with localTs := s.localTs.erase ts } ∧
      (s.localTs.erase ts).keys.length < s.localTs.keys.length := by
  have hlt : (s.localTs.erase ts).keys.length < s.localTs.keys.length := by
    have hmem := Dict.get?_eq_some_iff.1 hl
    simp only [Dict.keys, List.length_map]
    exact List.length_filter_lt_length_iff_exists.2 ⟨_, hmem, by simp⟩
  refine ⟨⟨fun ts' o' h => ?_, Nat.le_of_lt hlt, rfl, fun _ t' h => ⟨t', h, rfl, fun _ hx => hx⟩,
    rfl, fun _ h => h⟩, hlt⟩
  exact Dict.get?_eq_some_iff.2 (Dict.mem_erase.1 (Dict.get?_eq_some_iff.1 h)).1

theorem unblocked (ht : s.obj? o = some t) : s.Shrinks (s.unblocked o t) := by
  unfold Server.unblocked
  cases pickUnblockable t.blockedList.entries with
  | none => exact refl s
  | some p =>
    exact (setObj { t with blockedList := t.blockedList.erase p } ht rfl
      (List.Subset.refl _)).trans (eraseBlocked _ p)

theorem obj (h : s.Shrinks s') (ht : s.obj? o = some t) :
    ∃ t', s'.obj? o = some t' ∧ t'.id = t.id ∧ t'.refs ⊆ t.refs := by
  have hlt : o < s'.objs.length := by
    rw [h.size]
    exact (List.getElem?_eq_some_iff.1 ht).1
  obtain ⟨u, hu, hid, hr⟩ := h.objs o _ (List.getElem?_eq_getElem hlt)
  rw [ht] at hu
  cases hu
  exact ⟨_, List.getElem?_eq_getElem hlt, hid, hr⟩

theorem local_ (h : s.Shrinks s') (hs : s.Local) : s'.Local := by
  intro ts o hl
  obtain ⟨t, ht, rfl⟩ := hs ts o (h.lookup ts o hl)
  obtain ⟨t', ht', hid, -⟩ := h.obj ht
  exact ⟨t', ht', hid⟩

theorem none (h : s.Shrinks s') {ts : TsId} (hl : s.lookup ts = none) : s'.lookup ts = none := by
  cases hl' : s'.lookup ts with
  | none => rfl
  | some o =>
    rw [h.lookup ts o hl'] at hl
    cases hl

theorem utsFree (h : s.Shrinks s') (hs : s.UtsFree) : s'.UtsFree := by
  intro o t' ht' hid'
  obtain ⟨t, ht, hid, hr⟩ := h.objs o t' ht'
  rw [hs o t ht (hid.symm.trans hid')] at hr
  exact List.subset_nil.1 hr

/-- What is reached afterwards was reached before. -/
theorem reached (h : s.Shrinks s') (hsub : refs' ⊆ refs) {x : Holder}
    (hx : s'.ReachedFrom refs' x) : s.ReachedFrom refs x := by
  induction hx with
  | root hmem => exact .root (hsub hmem)
  | @through ts l x _ hl hmem ih =>
    obtain ⟨t', ht', rfl⟩ := Option.map_eq_some_iff.1 hl
    obtain ⟨o, ho, ht'⟩ := Option.bind_eq_some_iff.1 ht'
    obtain ⟨t, ht, -, hr⟩ := h.objs o t' ht'
    refine .through ih ?_ (hr hmem)
    unfold Server.refs?
    rw [h.lookup ts o ho, Option.bind_some, ht, Option.map_some]

theorem owned (h : s.Shrinks s') (hsub : refs' ⊆ refs) (ho : s.Owned pid refs) :
    s'.Owned pid refs' := fun x hx hlive => ho x (h.reached hsub hx) hlive

end Server.Shrinks

namespace Removal

variable {k f : List Act} {fs : List (List Act)} {b c d : Removal}

/-- The end of `garbage`: the thread goes on with `k`, perhaps after a `__del__`. -/
structure Collects (s : Server) (id : TsId) (k : List Act) (fs : List (List Act)) (c : Removal) :
    Prop where
  shrinks : s.Shrinks c.server
  frames : c.frames = k :: fs ∨ ∃ u, c.frames = World.finaliser u :: k :: fs ∧
    c.server.localTs.keys.length < s.localTs.keys.length

theorem leads_garbage (k : List Act) (fs : List (List Act)) (hs : s.Local)
    (ht : s.obj? o = some t) (hid : t.id ≠ .uts) :
    ∃ c, Leads ⟨s, (.garbage o :: k) :: fs⟩ c ∧ Collects s t.id k fs c ∧
      (t.refs = [] → c.server.lookup t.id = none) := by
  have hex : (Act.garbage o).exec s =
      some (if t.refs ≠ [] then .go s [] else .go s [.dropTs t.id]) := by
    simp only [Act.exec, Server.onObj, ht, Option.bind_some, hid, false_or]
    split <;> rfl
  by_cases hr : t.refs = []
  · rw [if_neg (not_not.2 hr)] at hex
    have h1 := takes fs s _ k s _ hex (by simp)
    cases hl : (s.lookup t.id).bind s.obj? with
    | none =>
      have h2 : step ⟨s, (.dropTs t.id :: k) :: fs⟩ = some ⟨s, k :: fs⟩ := by
        simp only [step, hl]
      refine ⟨_, .after h1 (.single h2), ⟨.refl s, .inl rfl⟩, fun _ => ?_⟩
      cases hl' : s.lookup t.id with
      | none => rfl
      | some o' =>
        obtain ⟨u, hu, -⟩ := hs _ o' hl'
        rw [hl', Option.bind_some, hu] at hl
        cases hl
    | some u =>
      have h2 : step ⟨s, (.dropTs t.id :: k) :: fs⟩ =
          some ⟨{ s with localTs := s.localTs.erase t.id }, World.finaliser u :: k :: fs⟩ := by
        simp only [step, hl]
      obtain ⟨o', hl', -⟩ := Option.bind_eq_some_iff.1 hl
      obtain ⟨hsh, hlt⟩ := Server.Shrinks.eraseTs hl'
      exact ⟨_, .after h1 (.single h2), ⟨hsh, .inr ⟨u, rfl, hlt⟩⟩, fun _ => Dict.get?_erase_self⟩
  · rw [if_pos hr] at hex
    exact ⟨_, .single (takes fs s _ k s _ hex (by simp)), ⟨.refl s, .inl rfl⟩, fun h => absurd h hr⟩

theorem leads_collect (k : List Act) (fs : List (List Act)) (hs : s.Local)
    (ht : s.obj? o = some t) (hid : t.id ≠ .uts) :
    ∃ c, Leads ⟨s, (.doGarbageCollection o :: .garbage o :: k) :: fs⟩ c ∧
      Collects s t.id k fs c ∧ (¬ s.Alive t.refs → c.server.lookup t.id = none) := by
  have hex : (Act.doGarbageCollection o).exec s = some (.go s [.gcWalk o t.refs [.ts t.id]]) := by
    simp [Act.exec, Server.onObj, ht]
  obtain ⟨n, r, hn⟩ := marking_ends s.gcVisit_support [.ts t.id] t.refs
  have h1 := takes fs s _ (.garbage o :: k) s _ hex (by simp)
  have h2 : Leads ⟨s, (.gcWalk o t.refs [.ts t.id] :: .garbage o :: k) :: fs⟩ _ :=
    takes_gcWalk (takes fs) ht hn
  cases r with
  | some r =>
    obtain ⟨c, hc, hcol, -⟩ := leads_garbage k fs hs ht hid
    refine ⟨c, (Leads.after h1 h2).and_then hc, hcol, fun hno => ?_⟩
    obtain ⟨h, hh, hstop⟩ := marking_some hn
    obtain ⟨l, hl⟩ := gcVisit_expand_iff.2 hno h hh
    rw [hstop] at hl
    cases hl
  | none =>
    have ht' := obj?_setObj_self ht { t with refs := [] }
    have hsh : s.Shrinks (s.setObj o { t with refs := [] }) :=
      .setObj _ ht rfl (List.nil_subset _)
    obtain ⟨c, hc, hcol, hnone⟩ := leads_garbage k fs (hsh.local_ hs) ht' hid
    exact ⟨c, (Leads.after h1 h2).and_then hc,
      ⟨hsh.trans hcol.shrinks, hcol.frames⟩, fun _ => hnone rfl⟩

/-- The reader that `unblockRandom` takes has left `blocked_threads` already, or it is let go. -/
theorem leads_unblock (ht : s.obj? o = some t) (hgo : fs = [] → s.Unblocks t) :
    ∃ s', s.Shrinks s' ∧ (Leads ⟨s, (.unblockRandom o :: k) :: fs⟩ ⟨s', k :: fs⟩ ∨
      fs ≠ [] ∧ Leads ⟨s, (.unblockRandom o :: k) :: fs⟩ ⟨s', fs⟩) := by
  cases hp : pickUnblockable t.blockedList.entries with
  | none =>
    have hex : (Act.unblockRandom o).exec s = some (.go s []) := by
      simp [Act.exec, Server.onObj, ht, TupleSpace.unblockRandom, hp]
    exact ⟨s, .refl s, .inl (.single (takes fs s _ k s _ hex (by simp)))⟩
  | some p =>
    have hex : (Act.unblockRandom o).exec s = some (.go
        (s.setObj o { t with blockedList := t.blockedList.erase p })
        [.getBlocked p, .delBlocked p, .reply p .unblock]) := by
      simp [Act.exec, Server.onObj, ht, TupleSpace.unblockRandom, hp]
    have hsh : s.Shrinks (s.setObj o { t with blockedList := t.blockedList.erase p }) :=
      .setObj _ ht rfl (List.Subset.refl _)
    have h1 := takes fs s _ k _ _ hex (by simp)
    by_cases hb : (s.blockedThreads.get? p).isSome
    · have h2 := takes fs (s.setObj o { t with blockedList := t.blockedList.erase p })
        (.getBlocked p) (.delBlocked p :: .reply p .unblock :: k) _ [] (if_pos hb) (by simp)
      have h3 := takes fs (s.setObj o { t with blockedList := t.blockedList.erase p })
        (.delBlocked p) (.reply p .unblock :: k) _ [] (if_pos hb) (by simp)
      exact ⟨_, hsh.trans (.eraseBlocked _ p),
        .inl (.after h1 (.after h2 (.after h3 (.single (step_reply p .unblock)))))⟩
    · cases fs with
      | nil => exact absurd (hgo rfl p hp) hb
      | cons f fs =>
        have h2 : step ⟨s.setObj o { t with blockedList := t.blockedList.erase p },
            (.getBlocked p :: .delBlocked p :: .reply p .unblock :: k) :: f :: fs⟩ = _ :=
          step_raise (by simp) (if_neg hb)
        exact ⟨_, hsh, .inr ⟨(by simp), .after h1 (.single h2)⟩⟩

/-- The check lets the thread go on, or ends the `__del__` it is in. -/
theorem leads_check (ht : s.obj? o = some t) (hid : t.id ≠ .uts)
    (hgo : Goes ⟨s, (.isDeadLocked o none :: k) :: fs⟩) :
    ∃ s', s.Shrinks s' ∧ (Leads ⟨s, (.isDeadLocked o none :: k) :: fs⟩ ⟨s', k :: fs⟩ ∨
      fs ≠ [] ∧ Leads ⟨s, (.isDeadLocked o none :: k) :: fs⟩ ⟨s', fs⟩) := by
  have hex : (Act.isDeadLocked o none).exec s =
      some (.go s [.walk o none (t.refs.map .holder) []]) := by
    simp [Act.exec, Server.onObj, ht, hid]
  have h1 := takes fs s _ k s _ hex (by simp)
  have hwalk : (∃ n, s.walkFor n [] (t.refs.map .holder) = some (.ok false)) ∨
      (∃ n, s.walkFor n [] (t.refs.map .holder) = some (.ok true)) ∧ (fs = [] → s.Unblocks t) ∨
      (∃ n e, s.walkFor n [] (t.refs.map .holder) = some (.error e)) ∧ fs ≠ [] := by
    have hg := hgo t ht hid
    by_cases hfs : fs = []
    · rw [if_pos hfs] at hg
      rcases hg with hl | ⟨hd, hu⟩
      · exact .inl (walk_false_iff.2 hl)
      · exact .inr (.inl ⟨walk_true_iff.2 hd, fun _ => hu⟩)
    · rw [if_neg hfs] at hg
      obtain ⟨n, r, hn⟩ := walkEnds_iff.2 hg
      rcases r with e | b
      · exact .inr (.inr ⟨⟨n, e, hn⟩, hfs⟩)
      · cases b with
        | false => exact .inl ⟨n, hn⟩
        | true => exact .inr (.inl ⟨⟨n, hn⟩, fun h => absurd h hfs⟩)
  rcases hwalk with ⟨n, hn⟩ | ⟨⟨n, hn⟩, hu⟩ | ⟨⟨n, e, hn⟩, hfs⟩
  · exact ⟨s, .refl s, .inl (.after h1 (takes_walk (takes fs) hn))⟩
  · obtain ⟨s', hsh, h⟩ := leads_unblock (k := k) ht hu
    have h2 : Leads ⟨s, (.walk o none (t.refs.map .holder) [] :: k) :: fs⟩ _ :=
      takes_walk (takes fs) hn
    refine ⟨s', hsh, h.imp (fun h => .after h1 (h2.and_then h)) fun h => ⟨h.1, ?_⟩⟩
    exact .after h1 (h2.and_then h.2)
  · obtain ⟨f, fs, rfl⟩ := List.exists_cons_of_ne_nil hfs
    obtain ⟨nodes, threads, e', h2, hr⟩ := takes_walk_raised (k := k) (takes (f :: fs)) hn
    exact ⟨s, .refl s, .inr ⟨hfs, .after h1 (.trans h2 (.single (step_raise (by simp) hr)))⟩⟩

/-- The check and what comes behind it in `removereference` and `removeanyreferences`. -/
theorem leads_checked (k : List Act) (fs : List (List Act)) (hs : s.Local)
    (ht : s.obj? o = some t) (hid : t.id ≠ .uts)
    (hgo : Goes ⟨s, (.isDeadLocked o none :: .doGarbageCollection o :: .garbage o :: k) :: fs⟩) :
    ∃ c, Leads ⟨s, (.isDeadLocked o none :: .doGarbageCollection o :: .garbage o :: k) :: fs⟩ c ∧
      s.Shrinks c.server ∧ (fs ≠ [] ∧ c.frames = fs ∨
        Collects s t.id k fs c ∧ (¬ s.Alive t.refs → c.server.lookup t.id = none)) := by
  obtain ⟨s', hsh, h | ⟨hfs, h⟩⟩ := leads_check ht hid hgo
  · obtain ⟨t', ht', hid', hr⟩ := hsh.obj ht
    obtain ⟨c, hc, hcol, hnone⟩ := leads_collect k fs (hsh.local_ hs) ht'
      (hid' ▸ hid)
    have hsc := hsh.trans hcol.shrinks
    refine ⟨c, h.and_then hc, hsc, .inr ⟨⟨hsc, hcol.frames.imp_right ?_⟩, fun hno => ?_⟩⟩
    · rintro ⟨u, hu, hlt⟩
      exact ⟨u, hu, Nat.lt_of_lt_of_le hlt hsh.keys⟩
    · rw [← hid']
      refine hnone ?_
      rintro ⟨x, hx, hlive⟩
      exact hno ⟨x, hsh.reached hr hx, hlive⟩
  · exact ⟨_, h, hsh, .inl ⟨hfs, rfl⟩⟩

/-- What a `__del__` consists of. -/
def Deletes (f : List Act) : Prop := ∀ a ∈ f, ∃ ts ref, a = .deleteReference ts ref

theorem deletes_finaliser (t : TupleSpace) : Deletes (World.finaliser t) := by
  intro a ha
  obtain ⟨tup, -, ha⟩ := List.mem_flatMap.1 ha
  obtain ⟨ts, -, rfl⟩ := List.mem_map.1 ha
  exact ⟨ts, _, rfl⟩

/-- Deleting one reference inside a `__del__`: it goes on with `k`, perhaps after another
`__del__`, or it ends. -/
theorem leads_delete (hs : s.Local) (ts : TsId) (ref : Holder) (hfs : fs ≠ [])
    (hgo : ∀ c, Leads ⟨s, (.deleteReference ts ref :: k) :: fs⟩ c → c.Goes) :
    ∃ c, Leads ⟨s, (.deleteReference ts ref :: k) :: fs⟩ c ∧ s.Shrinks c.server ∧
      (c.frames = fs ∨ c.frames = k :: fs ∨ ∃ u, c.frames = World.finaliser u :: k :: fs ∧
        c.server.localTs.keys.length < s.localTs.keys.length) := by
  cases hl : s.lookup ts with
  | none =>
    have hex : (Act.deleteReference ts ref).exec s = some (.go s []) := by
      simp [Act.exec, Server.onTs, hl]
    exact ⟨_, .single (takes fs s _ k s _ hex (by simp)), .refl s, .inr (.inl rfl)⟩
  | some o =>
    obtain ⟨t, ht, -⟩ := hs ts o hl
    have hex : (Act.deleteReference ts ref).exec s =
        some (.go s [.removereference o ref, .garbage o]) := by
      simp [Act.exec, Server.onTs, hl]
    have h1 := takes fs s _ k s _ hex (by simp)
    have hsh : ∀ refs, refs ⊆ t.refs → s.Shrinks
        (s.setObj o { t with refs := refs, killlock := t.killlock + 1 }) := fun refs hr =>
      .setObj _ ht rfl hr
    by_cases hid : t.id = .uts
    · have hex2 : (Act.removereference o ref).exec s =
          some (.go (s.setObj o { t with killlock := t.killlock + 1 }) []) := by
        simp [Act.exec, Server.onObj, ht, hid]
      have hex3 : (Act.garbage o).exec (s.setObj o { t with killlock := t.killlock + 1 }) =
          some (.go (s.setObj o { t with killlock := t.killlock + 1 }) []) := by
        simp [Act.exec, Server.onObj, obj?_setObj_self ht, hid]
      exact ⟨_, .after h1 (.after (takes fs s _ (.garbage o :: k) _ _ hex2 (by simp))
        (.single (takes fs _ _ k _ _ hex3 (by simp)))), hsh _ (List.Subset.refl _), .inr (.inl rfl)⟩
    · by_cases href : ref ∈ t.refs
      · have hex2 : (Act.removereference o ref).exec s = some (.go
            (s.setObj o { t with refs := t.refs.erase ref, killlock := t.killlock + 1 })
            [.isDeadLocked o none, .doGarbageCollection o]) := by
          simp [Act.exec, Server.onObj, ht, hid, href]
        have h12 : Leads ⟨s, (.deleteReference ts ref :: k) :: fs⟩ _ :=
          .after h1 (.single (takes fs s _ (.garbage o :: k) _ _ hex2 (by simp)))
        have hsh1 := hsh (t.refs.erase ref) List.erase_subset
        obtain ⟨c, hc, hshc, hcases⟩ := leads_checked k fs (hsh1.local_ hs)
          (obj?_setObj_self ht _) hid (hgo _ h12)
        refine ⟨c, h12.and_then hc, hsh1.trans hshc, ?_⟩
        rcases hcases with ⟨-, hf⟩ | ⟨hcol, -⟩
        · exact .inl hf
        · exact .inr hcol.frames
      · have hex2 : (Act.removereference o ref).exec s = some (.raise
            (s.setObj o { t with killlock := t.killlock + 1 }) .systemError) := by
          simp [Act.exec, Server.onObj, ht, hid, href]
        obtain ⟨f, fs, rfl⟩ := List.exists_cons_of_ne_nil hfs
        exact ⟨_, .after h1 (.single (step_raise (by simp) hex2)), hsh _ (List.Subset.refl _), .inl rfl⟩

/-- A `__del__` comes to its end, with those inside it. -/
theorem leads_deleted (n : Nat) : ∀ {s : Server} (f : List Act) (fs : List (List Act)),
    s.localTs.keys.length ≤ n → s.Local → Deletes f → fs ≠ [] →
    (∀ c, Leads ⟨s, f :: fs⟩ c → c.Goes) →
    ∃ s', s.Shrinks s' ∧ Leads ⟨s, f :: fs⟩ ⟨s', fs⟩ := by
  induction n using Nat.strongRecOn with
  | ind n ihn =>
    intro s f
    induction f generalizing s with
    | nil => exact fun _ _ _ _ _ _ => ⟨s, .refl s, .single rfl⟩
    | cons a f ihf =>
      intro fs hn hs hf hfs hgo
      obtain ⟨ts, ref, rfl⟩ := hf a List.mem_cons_self
      have hf' : Deletes f := fun b hb => hf b (List.mem_cons_of_mem _ hb)
      obtain ⟨⟨s1, frames⟩, h1, hsh, hcases⟩ := leads_delete hs ts ref hfs hgo
      dsimp only at hsh hcases
      rcases hcases with rfl | rfl | ⟨u, rfl, hlt⟩
      · exact ⟨s1, hsh, h1⟩
      · obtain ⟨s2, hsh2, h2⟩ := ihf fs (Nat.le_trans hsh.keys hn) (hsh.local_ hs) hf' hfs
          fun c hc => hgo c (h1.and_then hc)
        exact ⟨s2, hsh.trans hsh2, h1.and_then h2⟩
      · obtain ⟨s2, hsh2, h2⟩ := ihn s1.localTs.keys.length (Nat.lt_of_lt_of_le hlt hn)
          (World.finaliser u) (f :: fs) (Nat.le_refl _) (hsh.local_ hs)
          (deletes_finaliser u) (by simp) fun c hc => hgo c (h1.and_then hc)
        obtain ⟨s3, hsh3, h3⟩ := ihf fs (Nat.le_trans (hsh.trans hsh2).keys hn)
          ((hsh.trans hsh2).local_ hs) hf' hfs fun c hc => hgo c ((h1.and_then h2).and_then hc)
        exact ⟨s3, (hsh.trans hsh2).trans hsh3, (h1.and_then h2).and_then h3⟩

end Removal

/-! ## A turn of the loop -/

/-- Where the walk comes is reached from the references. -/
theorem reachedFrom_of_leadsTo {y : Node} (h : s.LeadsTo refs y) :
    (∀ x, y = .holder x → s.ReachedFrom refs x) ∧
      ∀ tid, y = .thread tid → ∃ p tids, s.ReachedFrom refs (.proc p) ∧
        s.pthreads.get? p = some tids := by
  obtain ⟨r, hr, hry⟩ := h
  obtain ⟨r, hmem, rfl⟩ := List.mem_map.1 hr
  induction hry with
  | refl =>
    refine ⟨fun x hx => ?_, (by simp)⟩
    cases hx
    exact .root hmem
  | @tail y z _ he ih =>
    cases y with
    | thread tid =>
      have hnil : (s.visit (.thread tid)).succ = [] := by
        simp only [Server.visit]
        split <;> rfl
      unfold Edge at he
      rw [hnil] at he
      cases he
    | holder x =>
      have hx := ih.1 x rfl
      unfold Edge at he
      cases x with
      | obj ts => simp [Server.visit, Visit.succ] at he
      | proc p =>
        cases hp : s.pthreads.get? p with
        | none => simp [Server.visit, hp, Visit.succ] at he
        | some tids =>
          simp only [Server.visit, hp, Visit.succ, List.mem_map] at he
          obtain ⟨tid, -, rfl⟩ := he
          exact ⟨(by simp), fun _ _ => ⟨p, tids, hx, hp⟩⟩
      | ts ts =>
        cases ts with
        | uts => simp [Server.visit, Visit.succ] at he
        | sid g =>
          cases hl : (s.lookup (.sid g)).bind s.obj? with
          | none => simp [Server.visit, hl, Visit.succ] at he
          | some u =>
            simp only [Server.visit, hl, Visit.succ, List.mem_map] at he
            obtain ⟨x, hxu, rfl⟩ := he
            refine ⟨fun x' hx' => ?_, (by simp)⟩
            cases hx'
            exact .through hx (by rw [Server.refs?, hl, Option.map_some]) hxu

/-- Where the walk meets no end, everything reached is where it comes. -/
theorem leadsTo_of_reachedFrom (hd : ∀ y, s.LeadsTo refs y → ∃ l, s.visit y = .expand l)
    {x : Holder} (h : s.ReachedFrom refs x) : s.LeadsTo refs (.holder x) := by
  induction h with
  | root hmem => exact ⟨_, List.mem_map_of_mem hmem, .refl⟩
  | @through ts l x _ hl hmem ih =>
    cases ts with
    | uts =>
      obtain ⟨l', hl'⟩ := hd _ ih
      cases hl'
    | sid g => exact leadsTo_refs ih hl x hmem

/-- When the check returns for references that only the process has, which is gone, then
nobody alive is reached any more. -/
theorem Server.Owned.not_alive (ho : s.Owned pid refs) (hp : s.pthreads.get? pid = none)
    (hc : s.LiveFirst refs ∨ s.DeadEnds refs) : ¬ s.Alive refs := by
  have hproc : ∀ p tids, s.ReachedFrom refs (.proc p) → s.pthreads.get? p ≠ some tids := by
    intro p tids hr ht
    cases ho _ hr rfl
    rw [hp] at ht
    cases ht
  rcases hc with ⟨n, -, pre, y, post, hl, -, hy⟩ | ⟨hd, -⟩
  · have hreach : s.LeadsTo refs y :=
      exists_mem_level_iff.1 ⟨n, by rw [hl]; exact List.mem_append_right _ List.mem_cons_self⟩
    obtain ⟨h1, h2⟩ := reachedFrom_of_leadsTo hreach
    exfalso
    cases y with
    | thread tid =>
      obtain ⟨p, tids, hr, ht⟩ := h2 tid rfl
      exact hproc p tids hr ht
    | holder x =>
      cases x with
      | obj ts => simp [Server.visit] at hy
      | proc p =>
        cases ht : s.pthreads.get? p with
        | none => simp [Server.visit, ht] at hy
        | some tids => exact hproc p tids (h1 _ rfl) ht
      | ts ts =>
        cases ts with
        | uts => cases ho _ (h1 _ rfl) rfl
        | sid g =>
          cases hl : (s.lookup (.sid g)).bind s.obj? <;> simp [Server.visit, hl] at hy
  · rintro ⟨x, hx, hlive⟩
    cases ho x hx hlive
    obtain ⟨l, hl⟩ := hd _ (leadsTo_of_reachedFrom hd hx)
    simp [Server.visit, hp] at hl

/-- No reference of the process to the tuplespace is left. -/
def Server.Cleared (s : Server) (pid : Pid) (ts : TsId) : Prop :=
  ∀ o t, s.lookup ts = some o → s.obj? o = some t → .proc pid ∉ t.refs

theorem Server.Shrinks.cleared (h : s.Shrinks s') {ts : TsId} (hc : s.Cleared pid ts) :
    s'.Cleared pid ts := by
  intro o t' hl ht' hmem
  obtain ⟨t, ht, -, hr⟩ := h.objs o t' ht'
  exact hc o t (h.lookup ts o hl) ht (hr hmem)

namespace Removal

variable {k : List Act}

/-- The turn of one tuplespace. -/
theorem leads_deleteAll (hs : s.Local) (hu : s.UtsFree) (hp : s.pthreads.get? pid = none)
    (ts : TsId) (hgo : ∀ c, Leads ⟨s, [.deleteAllReferences ts (.proc pid) :: k]⟩ c → c.Goes) :
    ∃ s', s.Shrinks s' ∧ Leads ⟨s, [.deleteAllReferences ts (.proc pid) :: k]⟩ ⟨s', [k]⟩ ∧
      s'.Cleared pid ts ∧ ∀ o t, s.lookup ts = some o → s.obj? o = some t → ts ≠ .uts →
        s.Owned pid t.refs → s'.lookup ts = none := by
  cases hl : s.lookup ts with
  | none =>
    have hex : (Act.deleteAllReferences ts (.proc pid)).exec s = some (.go s []) := by
      simp [Act.exec, Server.onTs, hl]
    refine ⟨s, .refl s, .single (takes [] s _ k s _ hex (by simp)), fun o t hl' => ?_, (by simp)⟩
    rw [hl] at hl'
    cases hl'
  | some o =>
    obtain ⟨t, ht, rfl⟩ := hs ts o hl
    have hex : (Act.deleteAllReferences t.id (.proc pid)).exec s =
        some (.go s [.removeanyreferences o (.proc pid), .garbage o]) := by
      simp [Act.exec, Server.onTs, hl]
    have h1 := takes [] s _ k s _ hex (by simp)
    have hself : ∀ o' t', s.lookup t.id = some o' → s.obj? o' = some t' → o' = o ∧ t' = t := by
      intro o' t' hl' ht'
      rw [hl] at hl'
      cases hl'
      rw [ht] at ht'
      cases ht'
      exact ⟨rfl, rfl⟩
    by_cases hid : t.id = .uts
    · have hex2 : (Act.removeanyreferences o (.proc pid)).exec s = some (.go s []) := by
        simp [Act.exec, Server.onObj, ht, hid]
      have hex3 : (Act.garbage o).exec s = some (.go s []) := by
        simp [Act.exec, Server.onObj, ht, hid]
      refine ⟨s, .refl s, .after h1 (.after (takes [] s _ (.garbage o :: k) _ _ hex2 (by simp))
        (.single (takes [] s _ k _ _ hex3 (by simp)))), fun o' t' hl' ht' => ?_,
        fun _ _ _ _ hne => absurd hid hne⟩
      obtain ⟨rfl, rfl⟩ := hself o' t' hl' ht'
      rw [hu o' t' ht hid]
      exact List.not_mem_nil
    · have hex2 : (Act.removeanyreferences o (.proc pid)).exec s = some (.go s [.acquire o,
          .removeAll o (.proc pid), .isDeadLocked o none, .doGarbageCollection o]) := by
        simp [Act.exec, Server.onObj, ht, hid]
      have h2 : Leads ⟨s, [.deleteAllReferences t.id (.proc pid) :: k]⟩ ⟨s, [.acquire o ::
          .removeAll o (.proc pid) :: .isDeadLocked o none :: .doGarbageCollection o ::
          .garbage o :: k]⟩ :=
        .after h1 (.single (takes [] s _ (.garbage o :: k) _ _ hex2 (by simp)))
      have hkill : t.killlock ≠ 0 := hgo _ h2 t ht
      have hex3 : (Act.acquire o).exec s =
          some (.go (s.setObj o { t with killlock := t.killlock - 1 }) []) := by
        simp [Act.exec, Server.onObj, ht, hkill]
      have hex4 : (Act.removeAll o (.proc pid)).exec
          (s.setObj o { t with killlock := t.killlock - 1 }) =
          some (.go (s.setObj o { t with
            refs := t.refs.filter (· ≠ .proc pid), killlock := t.killlock - 1 + 1 }) []) := by
        simp [Act.exec, Server.onObj, obj?_setObj_self ht]
      have h4 : Leads ⟨s, [.deleteAllReferences t.id (.proc pid) :: k]⟩
          ⟨s.setObj o { t with
            refs := t.refs.filter (· ≠ .proc pid), killlock := t.killlock - 1 + 1 },
          [.isDeadLocked o none :: .doGarbageCollection o :: .garbage o :: k]⟩ :=
        h2.and_then (.after (takes [] s _ _ _ _ hex3 (by simp)) (.single (takes [] _ _ _ _ _ hex4 (by simp))))
      have ht3 := obj?_setObj_self ht { t with
        refs := t.refs.filter (· ≠ .proc pid), killlock := t.killlock - 1 + 1 }
      have hsh3 : s.Shrinks (s.setObj o { t with
          refs := t.refs.filter (· ≠ .proc pid), killlock := t.killlock - 1 + 1 }) :=
        .setObj _ ht rfl (List.filter_subset_self _)
      have hck := hgo _ h4 _ ht3 hid
      rw [if_pos rfl] at hck
      obtain ⟨⟨s5, frames⟩, h5, hsh5, ⟨hne, -⟩ | ⟨hcol, hnone⟩⟩ :=
        leads_checked k _ (hsh3.local_ hs) ht3 hid (hgo _ h4)
      · exact absurd rfl hne
      -- the `__del__` of the tuplespace, when it was garbage
      obtain ⟨s6, hsh6, h6⟩ : ∃ s6, s5.Shrinks s6 ∧ Leads ⟨s5, frames⟩ ⟨s6, [k]⟩ := by
        rcases hcol.frames with rfl | ⟨u, rfl, -⟩
        · exact ⟨s5, .refl s5, .refl⟩
        · exact leads_deleted _ _ _ (Nat.le_refl _) ((hsh3.trans hsh5).local_ hs)
            (deletes_finaliser u) (by simp) fun c hc => hgo c ((h4.and_then h5).and_then hc)
      refine ⟨s6, hsh3.trans (hsh5.trans hsh6), (h4.and_then h5).and_then h6,
        (hsh5.trans hsh6).cleared fun o' t' hl' ht' => ?_, fun o' t' hl' ht' _ ho => ?_⟩
      · have hl'' : s.lookup t.id = some o' := hl'
        rw [hl] at hl''
        cases hl''
        rw [ht3] at ht'
        cases ht'
        simp
      · cases hl'
        rw [ht] at ht'
        cases ht'
        exact hsh6.none (hnone ((hsh3.owned (List.filter_subset_self _) ho).not_alive hp
          (hck.imp_right And.left)))

/-- The loop. -/
theorem leads_loop (l : List TsId) : ∀ {s : Server}, s.Local → s.UtsFree →
    s.pthreads.get? pid = none →
    (∀ c, Leads ⟨s, [l.map fun ts => .deleteAllReferences ts (.proc pid)]⟩ c → c.Goes) →
    ∃ s', s.Shrinks s' ∧
      Leads ⟨s, [l.map fun ts => .deleteAllReferences ts (.proc pid)]⟩ ⟨s', []⟩ ∧
      ∀ ts ∈ l, s'.Cleared pid ts ∧ ∀ o t, s.lookup ts = some o → s.obj? o = some t → ts ≠ .uts →
        s.Owned pid t.refs → s'.lookup ts = none := by
  induction l with
  | nil => exact fun _ _ _ _ => ⟨_, .refl _, .single rfl, (by simp)⟩
  | cons ts l ih =>
    intro s hs hu hp hgo
    obtain ⟨s1, hsh1, h1, hc1, ho1⟩ := leads_deleteAll hs hu hp ts hgo
    obtain ⟨s2, hsh2, h2, h⟩ := ih (hsh1.local_ hs) (hsh1.utsFree hu) (by rw [hsh1.pthreads, hp])
      fun c hc => hgo c (h1.and_then hc)
    refine ⟨s2, hsh1.trans hsh2, h1.and_then h2, List.forall_mem_cons.2 ⟨⟨hsh2.cleared hc1, ?_⟩, ?_⟩⟩
    · exact fun o t hl ht hne ho => hsh2.none (ho1 o t hl ht hne ho)
    · intro ts' hts'
      refine ⟨(h ts' hts').1, fun o t hl ht hne ho => ?_⟩
      cases hl1 : s1.lookup ts' with
      | none => exact hsh2.none hl1
      | some o' =>
        obtain ⟨t', ht', -⟩ := hsh1.local_ hs ts' o' hl1
        have hl1' := hsh1.lookup ts' o' hl1
        rw [hl] at hl1'
        cases hl1'
        obtain ⟨u, hu', -, hr⟩ := hsh1.objs o t' ht'
        rw [ht] at hu'
        cases hu'
        exact (h ts' hts').2 o t' hl1 ht' hne (hsh1.owned hr ho)

/-! ## Up to the loop -/

theorem leads_removeLast {acts : List Act} (h : s.Leaves pid acts) : ∃ s', s'.objs = s.objs ∧
    s'.localTs = s.localTs ∧ (s'.pthreads.get? pid).isSome ∧
    Leads ⟨s, [acts]⟩ ⟨s', [removeLast pid]⟩ := by
  cases h with
  | process hp => exact ⟨s, rfl, rfl, hp, .refl⟩
  | thread tid hpid htid hp =>
    subst hpid
    let s1 : Server := { s with threads := s.threads.erase tid }
    let s2 : Server := { s1 with pthreads := s.pthreads.set tid.pid [] }
    have hex1 : (Act.dropThread tid).exec s = some (.go s1 []) := by
      simp [Act.exec, htid, s1]
    have hex2 : (Act.dropPthread tid).exec s1 = some (.go s2 []) := by
      simp [Act.exec, hp, s1, s2]
    have hnil : s2.pthreads.get? tid.pid = some [] := Dict.get?_set_self
    have hex3 : (Act.ifLast tid.pid).exec s2 = some (.go s2 (removeLast tid.pid)) := by
      simp [Act.exec, hnil]
    have h3 := takes [] s2 _ [] _ _ hex3 (by simp)
    rw [List.append_nil] at h3
    exact ⟨s2, rfl, rfl, by rw [hnil]; rfl, .after (takes [] s _ _ _ _ hex1 (by simp))
      (.after (takes [] s1 _ _ _ _ hex2 (by simp)) (.single h3))⟩

theorem leads_delBlocked (l : List Tid) : ∀ {s : Server}, l.Nodup →
    (∀ tid ∈ l, (s.blockedThreads.get? tid).isSome) → ∃ b : Dict Tid TsId,
      (∀ tid, tid ∈ l ∨ s.blockedThreads.get? tid = none → b.get? tid = none) ∧
      Leads ⟨s, [l.map Act.delBlocked ++ k]⟩ ⟨{ s with blockedThreads := b }, [k]⟩ := by
  induction l with
  | nil => exact fun _ _ => ⟨_, fun _ h => h.resolve_left List.not_mem_nil, .refl⟩
  | cons tid l ih =>
    intro s hnd hb
    rw [List.nodup_cons] at hnd
    rw [List.forall_mem_cons] at hb
    have hne : ∀ p, p ≠ tid →
        (s.blockedThreads.erase tid).get? p = s.blockedThreads.get? p := fun p hp =>
      Dict.get?_erase_ne hp
    obtain ⟨b, hnone, h⟩ := @ih { s with blockedThreads := s.blockedThreads.erase tid } hnd.2
      fun p hp => by
        show ((s.blockedThreads.erase tid).get? p).isSome
        rw [hne p fun he => hnd.1 (he ▸ hp)]
        exact hb.2 p hp
    refine ⟨b, fun p hp => hnone p ?_,
      .after (takes [] s (.delBlocked tid) _ _ [] (if_pos hb.1) (by simp)) h⟩
    by_cases hpt : p = tid
    · exact .inr (hpt ▸ Dict.get?_erase_self)
    · refine hp.imp (fun hp => (List.mem_cons.1 hp).resolve_left hpt) fun hp => ?_
      exact (hne p hpt).trans hp

/-- To the loop, with the process out of the tables. -/
theorem leads_dropReferences {acts : List Act} (h : s.Leaves pid acts) : ∃ s', s'.objs = s.objs ∧
    s'.localTs = s.localTs ∧ s'.pthreads.get? pid = none ∧
    (∀ tid, tid.pid = pid → s'.blockedThreads.get? tid = none) ∧
    Leads ⟨s, [acts]⟩
      ⟨s', [s.localTs.keys.map fun ts => .deleteAllReferences ts (.proc pid)]⟩ := by
  obtain ⟨s1, hobjs, hl, hp, h1⟩ := leads_removeLast h
  have hnd : (s1.blockedThreads.keys.filter (·.pid = pid)).Nodup := s1.blockedThreads.nodup.filter _
  obtain ⟨b, hnone, h2⟩ := leads_delBlocked (k := [.dropProcess pid, .dropReferences pid])
    (s1.blockedThreads.keys.filter (·.pid = pid)) hnd fun tid htid => by
      obtain ⟨v, hv⟩ := Dict.mem_keys.1 (List.mem_filter.1 htid).1
      rw [Dict.get?_eq_some_iff.2 hv]
      rfl
  let s2 : Server := { s1 with blockedThreads := b }
  let s3 : Server := { s2 with pthreads := s1.pthreads.erase pid }
  have hex1 : (Act.dropBlocked pid).exec s1 = some (.go s1
      ((s1.blockedThreads.keys.filter (·.pid = pid)).map .delBlocked)) := rfl
  have hex3 : (Act.dropProcess pid).exec s2 = some (.go s3 []) := if_pos hp
  have hex4 : (Act.dropReferences pid).exec s3 = some (.go s3
      (s.localTs.keys.map fun ts => .deleteAllReferences ts (.proc pid))) := by
    rw [← hl]
    rfl
  have h4 := takes [] s3 _ [] _ _ hex4 (by simp)
  rw [List.append_nil] at h4
  refine ⟨s3, hobjs, hl, Dict.get?_erase_self, fun tid htid => hnone tid ?_,
    h1.and_then (.after (takes [] s1 _ _ _ _ hex1 (by simp)) (h2.and_then
      (.after (takes [] s2 _ _ _ _ hex3 (by simp)) (.single h4))))⟩
  cases hg : s1.blockedThreads.get? tid with
  | none => exact .inr rfl
  | some ts =>
    exact .inl (List.mem_filter.2 ⟨Dict.mem_keys_of_get? hg, decide_eq_true htid⟩)

end Removal

/-! ## The whole -/

open Removal

/-- A thread that comes to its end has made no check that did not return. -/
theorem Removal.goes_of_leads {c : Removal} (h : c.Leads ⟨s', []⟩) : c.Goes := by
  obtain ⟨s, frames⟩ := c
  unfold Goes
  split
  · rename_i o acts fs hf
    cases hf
    intro t ht hk
    have hex : (Act.acquire o).exec s = none := by
      rw [Act.exec, Server.onObj, show s.obj? o = some t from ht, Option.bind_some, if_pos hk]
    have hstuck : step ⟨s, (.acquire o :: acts) :: fs⟩ = none := by
      rw [step_exec (a := .acquire o) (by simp), hex]
      rfl
    cases h.not_stuck .refl hstuck
  · rename_i o acts fs hf
    cases hf
    intro t ht hid
    have hex : (Act.isDeadLocked o none).exec s =
        some (.go s [.walk o none (t.refs.map .holder) []]) := by
      simp [Act.exec, Server.onObj, ht, hid]
    have h1 : Leads ⟨s, (.isDeadLocked o none :: acts) :: fs⟩
        ⟨s, (.walk o none (t.refs.map .holder) [] :: acts) :: fs⟩ :=
      .single (takes fs s _ acts s _ hex (by simp))
    obtain ⟨n, r, hn⟩ := walk_ends_of_leads (takes fs) (h.through h1 rfl) (by simp)
    by_cases hfs : fs = []
    · subst hfs
      rw [if_pos rfl]
      rcases r with e | b
      · obtain ⟨nodes, threads, e', h2, hr⟩ := takes_walk_raised (k := acts) (takes []) hn
        cases h.not_stuck (h1.and_then h2) (step_raise_nil (by simp) hr)
      · cases b with
        | false => exact .inl (walk_false_iff.1 ⟨n, hn⟩)
        | true =>
          refine .inr ⟨walk_true_iff.1 ⟨n, hn⟩, fun p hp => ?_⟩
          have h2 : Leads ⟨s, [.walk o none (t.refs.map .holder) [] :: acts]⟩
              ⟨s, [.unblockRandom o :: acts]⟩ := takes_walk (takes []) hn
          have hex3 : (Act.unblockRandom o).exec s = some (.go
              (s.setObj o { t with blockedList := t.blockedList.erase p })
              [.getBlocked p, .delBlocked p, .reply p .unblock]) := by
            simp [Act.exec, Server.onObj, ht, TupleSpace.unblockRandom, hp]
          have h3 := (h1.and_then h2).and_then (.single (takes [] s _ acts _ _ hex3 (by simp)))
          by_cases hb : (s.blockedThreads.get? p).isSome
          · exact hb
          · have hex4 : (Act.getBlocked p).exec
                (s.setObj o { t with blockedList := t.blockedList.erase p }) =
                some (.raise _ .keyError) := if_neg hb
            cases h.not_stuck h3 (step_raise_nil (by simp) hex4)
    · rw [if_neg hfs]
      exact walkEnds_iff.1 ⟨n, r, hn⟩
  · trivial

/-- `removeProcess` does all it is for exactly when every step on its way goes: the kill
lock of the tuplespace whose turn it is is free, and its deadlock check returns, on the
tables at that time. -/
theorem removal_iff {acts : List Act} (hs : s.Sound) (hu : s.UtsFree) (h : s.Leaves pid acts) :
    (∃ s', Leads ⟨s, [acts]⟩ ⟨s', []⟩ ∧ s.Removed pid s') ↔
      ∀ c, Leads ⟨s, [acts]⟩ c → c.Goes := by
  constructor
  · rintro ⟨s', hl, -⟩ c hc
    exact goes_of_leads (hl.through hc rfl)
  · intro hgo
    obtain ⟨s1, hobjs, hlts, hp, hb, h1⟩ := leads_dropReferences h
    have hlk : ∀ ts, s1.lookup ts = s.lookup ts := fun ts => by
      unfold Server.lookup
      rw [hlts]
    have hobj : ∀ o, s1.obj? o = s.obj? o := fun o => by
      unfold Server.obj?
      rw [hobjs]
    have hs1 : s1.Local := by
      intro ts o hl
      rw [hobj]
      exact hs.lookup ts o (hlk ts ▸ hl)
    have hu1 : s1.UtsFree := fun o t ht => hu o t (hobj o ▸ ht)
    have hsame : ∀ refs x, s1.ReachedFrom refs x → s.ReachedFrom refs x := by
      intro refs x hx
      induction hx with
      | root hmem => exact .root hmem
      | @through ts l x _ hl hmem ih =>
        refine .through ih ?_ hmem
        rw [← hl]
        unfold Server.refs? Server.lookup Server.obj?
        rw [hlts, hobjs]
    obtain ⟨s2, hsh, h2, hall⟩ := leads_loop s.localTs.keys hs1 hu1 hp
      fun c hc => hgo c (h1.and_then hc)
    refine ⟨s2, h1.and_then h2, fun ts o t hl ht => ?_, fun tid htid => hsh.blocked tid (hb tid htid),
      fun ts o t hl ht hne ho => ?_⟩
    · have hmem : ts ∈ s.localTs.keys := Dict.mem_keys_of_get? ((hlk ts) ▸ hsh.lookup ts o hl)
      exact (hall ts hmem).1 o t hl ht
    · exact (hall ts (Dict.mem_keys_of_get? hl)).2 o t ((hlk ts).trans hl) ((hobj o).trans ht) hne
        fun x hx => ho x (hsame _ x hx)

/-- The steps, as far as there are any. -/
def Removal.run : Nat → Removal → Removal
  | 0, c => c
  | n + 1, c => match c.step with
    | none => c
    | some d => d.run n

theorem Removal.leads_run (n : Nat) (c : Removal) : c.Leads (c.run n) := by
  induction n generalizing c with
  | zero => exact .refl
  | succ n ih =>
    unfold run
    cases hs : c.step with
    | none => exact .refl
    | some d => exact .after hs (ih d)

/-! ## In a run -/

theorem Server.UtsFree.exec {a : Act} {eff : Effect} (hu : s.UtsFree)
    (h : a.exec s = some eff) : eff.server.UtsFree := by
  intro o t' ht' hid
  rcases (exec_frame h).objs o t' ht' with ⟨t, ht, hc⟩ | ⟨ts, -, -, rfl⟩
  · have hnil : t.refs = [] := hu o t ht (hc.id.symm.trans hid)
    rcases hc.refs with hsub | ⟨ref, rfl, -⟩
    · rw [hnil] at hsub
      exact List.sublist_nil.1 hsub
    · -- `addreference` leaves the universal tuplespace as it is
      have hex : (Act.addreference o ref).exec s = some (.go s []) := by
        simp [Act.exec, Server.onObj, ht, hc.id.symm.trans hid]
      rw [hex] at h
      cases h
      exact hu o t' ht' hid
  · rfl

theorem utsFree_of_run {w : World} {tr : List (World × Event)} (h : Run WorldStep .init tr w) :
    w.server.UtsFree := by
  refine h.inv (I := fun w => w.server.UtsFree) (C := fun _ _ => True)
    (fun w e w' hw _ hs => ?_) ?_ (by simp)
  · obtain ⟨hp, hn⟩ := hs
    cases e with
    | registerProcess =>
      cases hn
      exact hw
    | registerThread pid =>
      obtain ⟨tids, -, rfl⟩ := World.next_registerThread hn
      exact hw
    | begin tid op =>
      obtain ⟨-, -, -, rfl⟩ := World.next_begin hn
      rw [World.begun_server]
      exact hw
    | send tid =>
      obtain ⟨-, -, m, script, -, rfl⟩ := World.next_send hn
      exact hw
    | act i =>
      obtain ⟨a, acts, eff, -, he, rfl⟩ := World.next_act hn
      rw [World.stepped_server]
      exact hw.exec he
    | depart tid =>
      obtain ⟨-, rfl⟩ := World.next_depart hn
      rw [World.departed_server]
      exact hw
    | finalise o =>
      obtain ⟨t, -, -, -, rfl⟩ := World.next_finalise hn
      exact hw
    | rehash o blocked =>
      obtain ⟨t, ht, -, rfl⟩ := World.next_rehash hp hn
      exact (Server.Shrinks.setObj { t with blockedList := blocked } ht rfl
        (List.Subset.refl _)).utsFree hw
  · intro o t ht _
    cases o with
    | zero =>
      cases ht
      rfl
    | succ o => cases ht

/-- Only the universal tuplespace is left. -/
theorem removed_of_entries (hl : s'.localTs.entries = [(.uts, 0)])
    (hr : (s'.obj? 0).map TupleSpace.refs = some []) (hb : s'.blockedThreads.entries = []) :
    s.Removed pid s' where
  refs ts o t hlo ht := by
    have hmem := Dict.get?_eq_some_iff.1 hlo
    rw [hl, List.mem_singleton] at hmem
    cases hmem
    rw [ht, Option.map_some] at hr
    rw [Option.some.inj hr]
    exact List.not_mem_nil
  blocked tid _ := by
    unfold Dict.get?
    rw [hb]
    rfl
  collected ts o t _ _ hne _ := by
    cases hlo : s'.lookup ts with
    | none => rfl
    | some o' =>
      have hmem := Dict.get?_eq_some_iff.1 hlo
      rw [hl, List.mem_singleton] at hmem
      cases hmem
      exact absurd rfl hne

/-- A process creates `n` tuplespaces. -/
def creates (n : Nat) : List Event :=
  [.registerProcess, .registerThread ⟨0⟩] ++ (List.range n).flatMap fun i =>
    [.begin ⟨⟨0⟩, 1⟩ .createTuplespace, .send ⟨⟨0⟩, 1⟩] ++ List.replicate 5 (.act i)

/-- And puts a reference to the second one into the first. -/
def stores : List Event :=
  creates 2 ++ [.begin ⟨⟨0⟩, 1⟩ (.out (.sid 1) [.tsref (.sid 2)]), .send ⟨⟨0⟩, 1⟩] ++
    List.replicate 4 (.act 2) ++ [.send ⟨⟨0⟩, 1⟩] ++ List.replicate 3 (.act 3)

theorem stores_proper (w : World) : ∀ e ∈ stores, e.Proper w := by
  intro e he
  cases e with
  | rehash o b => simp [stores, creates] at he
  | _ => trivial

theorem removal_creates : ∃ tr w, Run WorldStep .init tr w ∧ (w.server.lookup (.sid 1)).isSome ∧
    ∀ c, Leads ⟨w.server, [removeProcess ⟨⟨0⟩, 1⟩]⟩ c → c.Goes := by
  have hw : (exec? World.next .init (creates 1)).any (fun w =>
      let c := run 40 ⟨w.server, [removeProcess ⟨⟨0⟩, 1⟩]⟩
      decide ((w.server.lookup (.sid 1)).isSome ∧ ⟨⟨0⟩, 1⟩ ∈ w.server.threads ∧
        w.server.pthreads.get? ⟨0⟩ = some [⟨⟨0⟩, 1⟩] ∧ c.frames.isEmpty ∧
        c.server.localTs.entries = [(.uts, 0)] ∧
        (c.server.obj? 0).map TupleSpace.refs = some [] ∧
        c.server.blockedThreads.entries = [])) := by decide +kernel
  obtain ⟨w, hexec, hw⟩ := (Option.any_eq_true _ _).1 hw
  obtain ⟨hts, htid, hp, hf, hl, hr, hb⟩ := of_decide_eq_true hw
  obtain ⟨hrun, -⟩ := Run.of_exec? (P := fun w e => e.Proper w) (by simp [creates, Event.Proper]) hexec
  refine ⟨_, w, hrun, hts, (removal_iff (sound_of_run hrun).server (utsFree_of_run hrun)
    (.thread ⟨⟨0⟩, 1⟩ rfl htid hp)).1 ⟨_, ?_, removed_of_entries hl hr hb⟩⟩
  have hlead := leads_run 40 ⟨w.server, [removeProcess ⟨⟨0⟩, 1⟩]⟩
  generalize run 40 ⟨w.server, [removeProcess ⟨⟨0⟩, 1⟩]⟩ = c at hf hlead
  obtain ⟨s', frames⟩ := c
  cases List.isEmpty_iff.1 hf
  exact hlead

/-- The turn of the second tuplespace comes first, and its walk meets the reference of the
process to the first. -/
theorem removal_raises : ∃ tr w, Run WorldStep .init tr w ∧
    w.server.Leaves ⟨0⟩ (removeProcess ⟨⟨0⟩, 1⟩) ∧
    ¬ ∃ s', Leads ⟨w.server, [removeProcess ⟨⟨0⟩, 1⟩]⟩ ⟨s', []⟩ := by
  have hw : (exec? World.next .init stores).any (fun w =>
      let c := run 40 ⟨w.server, [removeProcess ⟨⟨0⟩, 1⟩]⟩
      decide (⟨⟨0⟩, 1⟩ ∈ w.server.threads ∧ w.server.pthreads.get? ⟨0⟩ = some [⟨⟨0⟩, 1⟩] ∧
        c.frames.isEmpty = false ∧ c.step.isNone)) := by decide +kernel
  obtain ⟨w, hexec, hw⟩ := (Option.any_eq_true _ _).1 hw
  obtain ⟨htid, hp, hf, hs⟩ := of_decide_eq_true hw
  obtain ⟨hrun, -⟩ := Run.of_exec? (P := fun w e => e.Proper w) stores_proper hexec
  refine ⟨_, w, hrun, .thread ⟨⟨0⟩, 1⟩ rfl htid hp, ?_⟩
  rintro ⟨s', h⟩
  have hnil := h.not_stuck (leads_run 40 _) (Option.isNone_iff_eq_none.1 hs)
  rw [hnil] at hf
  cases hf

end PyLinda
