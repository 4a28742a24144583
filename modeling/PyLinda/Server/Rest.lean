import PyLinda.Server.Account

/-!
# A server at rest

When all threads of the server have come to their end, whoever is still waiting for an answer waits in
the `blocked_list` of the tuplespace it asked, for a tuple that is not there.
-/

namespace PyLinda

open Lib

variable {s : Server} {t : TupleSpace} {o : ObjId} {tid : Tid} {a : Act} {eff : Effect}

/-! ## No token is lost -/

theorem parked_checkBlocked_le (tid : Tid) (o : ObjId) (tup : Tuple) (l : List (Tid × Blocked)) (ts : TsId) :
    l.countP (fun x => x.1 = tid) ≤ (checkBlocked tup l).1.countP (fun x => x.1 = tid) +
      poolWeight (Act.token 1 tid) ((checkBlocked tup l).2.1.map (Spawn.thread o ts)) := by
  induction l with
  | nil => exact Nat.le_refl 0
  | cons x l ih =>
    obtain ⟨p, b⟩ := x
    rcases checkBlocked_cons tup p b l with ⟨-, h⟩ | ⟨e, -, h⟩ | ⟨-, -, h⟩ | ⟨-, -, h⟩
    · simp only [h, List.countP_cons]
      omega
    · simp [h]
    · simp only [h, List.countP_cons, List.map_cons, List.map_nil, poolWeight_cons, poolWeight_nil,
        Spawn.thread, weight_append, weight_cons, weight_nil, Act.token, weight_token_changeOwner,
        decide_eq_true_eq]
      omega
    · rw [h, List.countP_cons]
      simp only [List.map_cons, poolWeight_cons, Spawn.thread, weight_append, weight_cons,
        weight_nil, Act.token, weight_token_changeOwner, decide_eq_true_eq]
      omega

theorem parked_out_le (tid : Tid) (t : TupleSpace) (o : ObjId) (tup : Tuple) (ts : TsId) :
    t.parked tid ≤ (t._out tup).ts.parked tid +
      poolWeight (Act.token 1 tid) ((t._out tup).spawned.map (Spawn.thread o ts)) := by
  obtain ⟨l, hl, -⟩ := _out_spawned_append (t := t) tup
  rw [hl, List.map_append, poolWeight_append, TupleSpace.parked, TupleSpace.parked,
    TupleSpace._out_blockedList]
  have := parked_checkBlocked_le tid o tup t.blockedList.entries ts
  omega

theorem countP_erase {p : Tid} (hp : p ≠ tid) : (t.blockedList.erase p).entries.countP (fun x => x.1 = tid) =
    t.blockedList.entries.countP fun x => x.1 = tid := by
  simp only [Dict.erase, Dict.restrict, List.countP_filter]
  refine List.countP_congr fun x _ => ?_
  simp only [ne_eq, Bool.and_eq_true, decide_eq_true_eq, and_iff_left_iff_imp]
  exact fun hx he => hp (he.symm.trans hx)

/-- A reader that is nowhere else is parked beside the others. -/
theorem parked_block_ge (t : TupleSpace) (tid p : Tid) (b : Blocked)
    (hone : t.parked tid + (if p = tid then 1 else 0) ≤ 1) :
    t.parked tid + (if p = tid then 1 else 0) ≤ (t.block p b).ts.parked tid := by
  simp only [TupleSpace.parked, TupleSpace.block, Dict.set, List.countP_cons, decide_eq_true_eq] at *
  by_cases hp : p = tid
  · rw [if_pos hp] at *
    omega
  · rw [if_neg hp, add_zero, add_zero]
    exact Nat.le_of_eq (countP_erase hp).symm

theorem parked_unblock_ge {p : Tid} (hone : t.parked tid ≤ 1) :
    t.parked tid ≤ TupleSpace.parked tid { t with blockedList := t.blockedList.erase p } +
      (if p = tid then 1 else 0) := by
  by_cases hp : p = tid
  · rw [if_pos hp]
    omega
  · rw [if_neg hp, add_zero]
    exact Nat.le_of_eq (countP_erase hp).symm

/-- A step that does not raise loses no token, and one that raises only its own. -/
theorem exec_keeps (tid : Tid) (hone : s.parked tid + a.token 1 tid ≤ 1) (h : a.exec s = some eff) :
    s.parked tid + (if eff.raised.isSome then 0 else a.token 1 tid) ≤ eff.server.parked tid +
      (if eff.raised.isSome then 0 else weight (Act.token 1 tid) eff.next) +
      poolWeight (Act.token 1 tid) eff.spawned + sentTo tid eff.sent := by
  cases a with
  | readAt o r =>
    obtain ⟨t, ht, ⟨-, rfl⟩ | ⟨m, c, -, -, -, rfl⟩ | ⟨e, rfl⟩⟩ := readAt_cases h
    · have h1 (t' : TupleSpace) :
          (s.setObj o t').parked tid + t.parked tid = s.parked tid + t'.parked tid :=
        parked_setObj ht t'
      have hle : t.parked tid ≤ s.parked tid := le_weight (List.mem_of_getElem? ht)
      simp only [Act.token] at hone
      have h2 := parked_block_ge t tid r.tid ⟨r.template, r.msg.unblockable, r.msg.destructive⟩
        (by omega)
      specialize h1 (t.block r.tid ⟨r.template, r.msg.unblockable, r.msg.destructive⟩).ts
      simp [sentTo, Act.token]
      omega
    · simp [sentTo, Act.token, parked_setObj_of_blockedList ht]
    · simp [sentTo, parked_setObj_of_blockedList ht]
  | outAt o tup =>
    obtain ⟨t, ht, e, rfl⟩ := outAt_cases h
    have h1 : (s.setObj o (t._out tup).ts).parked tid + t.parked tid =
        s.parked tid + (t._out tup).ts.parked tid := parked_setObj ht _
    have h2 := parked_out_le tid t o tup t.id
    simp [sentTo, Act.token]
    omega
  | unblockRandom o =>
    obtain ⟨t, ht, ⟨-, rfl⟩ | ⟨p, hp, rfl⟩⟩ := unblockRandom_cases h
    · simp [Effect.go, sentTo, Act.token]
    · have h1 (t' : TupleSpace) :
          (s.setObj o t').parked tid + t.parked tid = s.parked tid + t'.parked tid :=
        parked_setObj ht t'
      have hle : t.parked tid ≤ s.parked tid := le_weight (List.mem_of_getElem? ht)
      simp only [Act.token] at hone
      have h2 := parked_unblock_ge (p := p) (by omega : t.parked tid ≤ 1)
      specialize h1 { t with blockedList := t.blockedList.erase p }
      simp [Effect.go, sentTo, Act.token]
      omega
  | collectAt p copy new o dest tmpl =>
    obtain ⟨t, d, c, ht, -, -, ⟨e, rfl⟩ | ⟨tups, rfl⟩⟩ := collectAt_cases h
    · simp [Effect.raise, sentTo, parked_setObj_of_blockedList ht]
    · cases new <;> simp [Effect.go, sentTo, Act.token, parked_setObj_of_blockedList ht]
  | newTupleSpace ts =>
    cases h
    simp [Effect.go, sentTo, parked_newTupleSpace, Act.token]
  | acquire | addreference | gcWalk | removeanyreferences | isDeadLocked | garbage =>
    obtain ⟨t, ht, h⟩ := Server.onObj_eq_some.1 h
    split at h <;> cases h <;> simp [Effect.go, sentTo, Act.token, parked_setObj_of_blockedList ht]
  | removeAll | doGarbageCollection =>
    obtain ⟨t, ht, h⟩ := Server.onObj_eq_some.1 h
    cases h
    simp [Effect.go, sentTo, Act.token, parked_setObj_of_blockedList ht]
  | removereference o ref =>
    obtain ⟨t, ht, h⟩ := Server.onObj_eq_some.1 h
    split at h
    · cases h
      simp [Effect.go, sentTo, parked_setObj_of_blockedList ht, Act.token]
    · split at h <;> cases h <;>
        simp [Effect.go, sentTo, Effect.raise, Act.token, parked_setObj_of_blockedList ht]
  | walk o again refs ths =>
    simp only [Act.exec] at h
    split at h <;> cases h
    · cases again <;> simp [Effect.go, sentTo, Act.token]
    all_goals simp [Effect.go, sentTo, Effect.raise, Act.token]
  | getBlocked | delBlocked | dropThread | dropProcess =>
    simp only [Act.exec] at h
    split at h <;> cases h <;> simp [Effect.go, sentTo, Effect.raise, Server.parked, Act.token]
  | dropPthread t =>
    simp only [Act.exec] at h
    split at h
    · cases h
      simp [Effect.raise, sentTo]
    · split at h <;> cases h <;> simp [Effect.go, sentTo, Effect.raise, Server.parked, Act.token]
  | ifLast pid =>
    simp only [Act.exec] at h
    split at h <;> cases h <;> simp [Effect.raise, Effect.go, sentTo, Act.token]
  | dropBlocked | dropReferences =>
    cases h
    simp [Effect.go, sentTo, Act.token]
  | read ts | out ts | addReference ts | deleteReference ts | deleteAllReferences ts
  | unblockAgain ts | ensure ts | collect _ _ ts | sweep ts | deleteRequest _ ts =>
    cases h
    rcases hl : s.lookup ts with _ | o <;>
      simp [Server.onTs, hl, Effect.go, sentTo, Effect.raise, Act.token]
  | collectDest p copy new o ts tmpl =>
    cases h
    rcases hl : s.lookup ts with _ | o
    · cases new <;> simp [Server.onTs, hl, Effect.go, sentTo, Effect.raise, Act.token]
    · simp [Server.onTs, hl, Effect.go, sentTo, Act.token]
  | setBlocked | dropTs | create | sendNowhere | forkDelete | reply =>
    cases h
    simp [Effect.go, Effect.raise, Act.token, Server.parked, sentTo]

variable {w w' : World} {e : Event}

/-- A thread that still has an answer to send ends with an exception. -/
def World.Drops (w : World) (e : Event) : Prop :=
  ∃ i a acts eff, e = .act i ∧ w.pool[i]? = some (a :: acts) ∧ a.exec w.server = some eff ∧
    eff.raised.isSome = true ∧ ∃ tid, weight (Act.token 1 tid) (a :: acts) ≠ 0

/-- Every client that waits has its token on the server. -/
structure Kept (w : World) : Prop where
  owed : ∀ tid ∈ w.live, (w.clients tid).waiting = true → w.tokens 1 tid = 1
  fresh : ∀ tid, w.pthreadCount tid.pid < tid.count → (w.clients tid).waiting = false

theorem weight_handler (tid p : Tid) (m : Msg) :
    weight (Act.token 1 tid) (m.handler p) = if p = tid then 1 else 0 := by
  rcases m with _ | _ | _ | _ | _ | ts
  case deleteReference => rcases ts with _ | g <;> simp [Msg.handler, Act.token]
  all_goals simp [Msg.handler, Act.token]

theorem tokens_kept {i : Nat} {acts : List Act} (hw : OneReply w) (hi : w.pool[i]? = some (a :: acts))
    (h : a.exec w.server = some eff) (hd : ¬ w.Drops (.act i)) (tid : Tid) :
    w.tokens 1 tid ≤ (w.stepped i eff acts).tokens 1 tid + sentTo tid eff.sent := by
  have hmine : weight (Act.token 1 tid) (a :: acts) ≤ poolWeight (Act.token 1 tid) w.pool :=
    weight_pool (List.mem_of_getElem? hi) tid
  have htotal := hw.total tid
  simp only [World.tokens] at htotal ⊢
  rw [weight_cons] at hmine
  have hexec := exec_keeps tid (by omega) h
  rw [World.stepped_server, World.stepped_pool]
  cases hr : eff.raised with
  | none =>
    have hrest : World.rest eff acts = eff.next ++ acts := by simp [World.rest, hr]
    have hpool := poolWeight_step (w := Act.token 1 tid) hi eff.next eff.spawned
    rw [hr] at hexec
    simp only [Option.isSome_none, Bool.false_eq_true, if_false] at hexec
    rw [hrest]
    omega
  | some x =>
    have hrest : World.rest eff acts = [] := by simp [World.rest, hr]
    have hpool := poolWeight_died (w := Act.token 1 tid) hi eff.spawned
    have hnone : weight (Act.token 1 tid) (a :: acts) = 0 := by
      by_contra hne
      exact hd ⟨i, a, acts, eff, rfl, hi, h, by rw [hr]; rfl, tid, hne⟩
    rw [weight_cons] at hnone
    rw [hr] at hexec
    simp only [Option.isSome_some, if_true] at hexec
    rw [hrest]
    omega

theorem Kept.next (hk : Kept w) (hw : OneReply w) (h : WorldStep w e w') (hd : ¬ w.Drops e) : Kept w' := by
  have hone : OneReply w' := hw.next h
  have hle : ∀ tid, w'.tokens 1 tid ≤ 1 := fun tid => by
    have := hone.total tid
    omega
  obtain ⟨hp, hn⟩ := h
  cases e with
  | registerProcess =>
    cases hn
    exact ⟨hk.owed, hk.fresh⟩
  | registerThread pid =>
    obtain ⟨tids, -, rfl⟩ := World.next_registerThread hn
    refine ⟨fun tid hl hwait => ?_, fun tid hlt => hk.fresh tid ?_⟩
    · rcases List.mem_append.1 hl with hl | hl
      · exact hk.owed tid hl hwait
      · obtain rfl := List.mem_singleton.1 hl
        have hfalse : (w.clients ⟨pid, w.pthreadCount pid + 1⟩).waiting = false :=
          hk.fresh _ (Nat.lt_succ_self _)
        exact absurd hwait (by rw [show ((w.registered pid tids).clients _).waiting = _ from hfalse]; simp)
    · simp only [World.registered] at hlt
      split at hlt
      · rename_i heq
        rw [heq]
        omega
      · exact hlt
  | begin t op =>
    obtain ⟨-, -, -, rfl⟩ := World.next_begin hn
    have hwait : ∀ tid, ((w.begun t op).clients tid).waiting = (w.clients tid).waiting := fun tid => by
      rw [World.begun_clients]
      split
      · rename_i heq
        rw [heq]
      · rfl
    refine ⟨fun tid hl hwt => ?_, fun tid hlt => ?_⟩
    · rw [hwait] at hwt
      rw [World.begun_live] at hl
      simpa [World.tokens] using hk.owed tid hl hwt
    · rw [World.begun_pthreadCount] at hlt
      rw [hwait]
      exact hk.fresh tid hlt
  | send t =>
    obtain ⟨hl, hwait, m, script, -, rfl⟩ := World.next_send hn
    have htokens : ∀ tid, (w.sent t m script).tokens 1 tid = w.tokens 1 tid + if t = tid then 1 else 0 :=
      fun tid => by
        simp [World.tokens, World.sent, World.setClient, weight_handler, Nat.add_assoc]
    refine ⟨fun tid hl' hwt => ?_, fun tid hlt => ?_⟩
    · by_cases ht : t = tid
      · have h1 := htokens tid
        rw [if_pos ht] at h1
        have h2 := hle tid
        omega
      · simp only [World.sent, World.setClient, if_neg (Ne.symm ht)] at hwt
        rw [htokens, if_neg ht]
        exact hk.owed tid hl' hwt
    · have hne : tid ≠ t := by
        rintro rfl
        exact (hw.fresh tid hlt).2.2 hl
      simp only [World.sent, World.setClient, if_neg hne]
      exact hk.fresh tid hlt
  | act i =>
    obtain ⟨a, acts, eff, hi, heff, rfl⟩ := World.next_act hn
    have hkept := tokens_kept hw hi heff hd
    refine ⟨fun tid hl hwt => ?_, fun tid hlt => ?_⟩
    · rw [World.stepped_live] at hl
      rw [World.stepped_clients] at hwt
      have h1 := hkept tid
      have h2 := hle tid
      rcases hs : eff.sent with _ | m
      · rw [hs] at hwt h1
        simp only [sentTo] at h1
        have h3 := hk.owed tid hl hwt
        omega
      · rw [hs] at h1
        simp only [hs] at hwt
        by_cases ht : m.1 = tid
        · rw [if_pos ⟨ht ▸ hl, ht.symm⟩] at hwt
          cases hwt
        · rw [if_neg fun h => ht h.2.symm] at hwt
          simp only [sentTo, if_neg ht] at h1
          have h3 := hk.owed tid hl hwt
          omega
    · rw [World.stepped_pthreadCount] at hlt
      rw [World.stepped_clients]
      rcases hs : eff.sent with _ | m
      · exact hk.fresh tid hlt
      · simp only
        rw [if_neg]
        · exact hk.fresh tid hlt
        · rintro ⟨hl, rfl⟩
          exact (hw.fresh _ hlt).2.2 hl
  | depart t =>
    obtain ⟨-, rfl⟩ := World.next_depart hn
    refine ⟨fun tid hl hwt => ?_, fun tid hlt => ?_⟩
    · rw [World.departed_live] at hl
      rw [World.departed_clients] at hwt
      have h1 := hk.owed tid (List.mem_of_mem_filter hl) hwt
      have h2 := hle tid
      simp only [World.tokens, World.departed_server, World.departed_pool, poolWeight_append] at h1 h2 ⊢
      omega
    · rw [World.departed_pthreadCount] at hlt
      rw [World.departed_clients]
      exact hk.fresh tid hlt
  | finalise o =>
    obtain ⟨t, -, -, -, rfl⟩ := World.next_finalise hn
    refine ⟨fun tid hl hwt => ?_, hk.fresh⟩
    have h1 := hk.owed tid hl hwt
    have h2 := hle tid
    simp only [World.tokens, poolWeight_append] at h1 h2 ⊢
    omega
  | rehash o blocked =>
    obtain ⟨t, ht, hperm, rfl⟩ := World.next_rehash hp hn
    refine ⟨fun tid hl hwt => ?_, hk.fresh⟩
    have h1 : (w.server.setObj o { t with blockedList := blocked }).parked tid + t.parked tid =
        w.server.parked tid + TupleSpace.parked tid { t with blockedList := blocked } :=
      parked_setObj ht _
    have h2 : TupleSpace.parked tid { t with blockedList := blocked } = t.parked tid :=
      (List.Perm.countP_eq _ hperm).symm
    have h3 := hk.owed tid hl hwt
    simp only [World.tokens] at h3 ⊢
    omega

/-! ## Nobody waits for what is there -/

/-- No reader that names every field waits for a tuple that is stored. -/
def Sated (t : TupleSpace) : Prop :=
  ∀ x ∈ t.blockedList.entries, x.2.pattern.IsAtoms → x.2.pattern ∉ t.ts.contain

variable {t' : TupleSpace} {S : Service}

theorem skips_self {p : Tuple} (hp : p.IsAtoms) : ¬ Skips p p :=
  ((matches_atoms_iff hp.isTemplate hp).2 rfl).not_skips

theorem Sated.mono (h : Sated t) (hb : ∀ x ∈ t'.blockedList.entries, x ∈ t.blockedList.entries)
    (hc : ∀ m ∈ t'.ts.contain, m ∈ t.ts.contain) : Sated t' :=
  fun x hx hp hm => h x (hb x hx) hp (hc _ hm)

/-- A tuple is stored only if nobody waits for just this one. -/
theorem Sated.out (h : Sated t) (hreq : t.requests = []) (tup : Tuple) : Sated (t._out tup).ts := by
  intro x hx hp hm
  have hx' : x ∈ (checkBlocked tup t.blockedList.entries).1 := by rwa [TupleSpace._out_blockedList] at hx
  have hold : x ∈ t.blockedList.entries := (checkBlocked_sublist tup _).subset hx'
  rcases TupleSpace._out_cases hreq tup with ⟨hend, hc, -⟩ | ⟨-, hc, -⟩ | ⟨e, -, hc, -⟩
  · rw [hc] at hm
    rcases List.mem_append.1 hm with hm | hm
    · exact h x hold hp hm
    · rcases checkBlocked_end tup t.blockedList.entries with ⟨-, -, hskip⟩ | ⟨_, _, _, -, -, -, -, hend'⟩ |
        ⟨_, _, _, _, -, -, -, hend'⟩
      · have hs := hskip x hx'
        rw [List.mem_singleton.1 hm] at hs hp
        exact skips_self hp hs
      · rw [hend] at hend'
        cases hend'
      · rw [hend] at hend'
        cases hend'
  · rw [hc] at hm
    exact h x hold hp hm
  · rw [hc] at hm
    exact h x hold hp hm

/-- A reader is parked only if nothing matches. -/
theorem Sated.block (h : Sated t) {b : Blocked} (hskip : ∀ m ∈ t.ts.contain, Skips m b.pattern) :
    Sated (t.block tid b).ts := by
  intro x hx hp hm
  rcases mem_block.1 hx with rfl | ⟨hx, -⟩
  · exact skips_self hp (hskip _ hm)
  · exact h x hx hp hm

def Server.Sated (s : Server) : Prop := ∀ o t, s.obj? o = some t → PyLinda.Sated t

theorem Server.Sated.setObj (h : s.Sated) (ht : s.obj? o = some t) (ht' : PyLinda.Sated t') :
    (s.setObj o t').Sated := by
  intro o' u hu
  by_cases ho : o' = o
  · subst ho
    rw [obj?_setObj_self ht] at hu
    cases hu
    exact ht'
  · exact h o' u ((obj?_setObj_ne ho).symm.trans hu)

theorem Server.Sated.of_cores {s' : Server} (h : s.Sated) (hc : s'.cores = s.cores) : s'.Sated := by
  intro o t' ht'
  obtain ⟨t, ht, heq⟩ := obj_of_cores hc ht'
  obtain ⟨-, -, hts, hblocked⟩ := core_parts heq.symm
  exact (h o t ht).mono (fun x hx => hblocked ▸ hx) fun m hm => hts ▸ hm

theorem exec_sated (hs : s.Sated) (hreq : ∀ o t, s.obj? o = some t → t.requests = [])
    (h : a.exec s = some eff) : eff.server.Sated := by
  cases a with
  | outAt o tup =>
    obtain ⟨t, ht, e, rfl⟩ := outAt_cases h
    exact hs.setObj ht ((hs o t ht).out (hreq o t ht) tup)
  | readAt o r =>
    obtain ⟨t, ht, ⟨hskip, rfl⟩ | ⟨m, c, -, -, hc, rfl⟩ | ⟨e, rfl⟩⟩ := readAt_cases h
    · exact hs.setObj ht ((hs o t ht).block hskip)
    · refine hs.setObj ht ((hs o t ht).mono (fun x hx => hx) fun m hm => ?_)
      split at hc
      · exact (deleteFirst_sublist hc).subset hm
      · exact hc ▸ hm
    · exact hs.setObj ht (hs o t ht)
  | unblockRandom o =>
    obtain ⟨t, ht, ⟨-, rfl⟩ | ⟨p, -, rfl⟩⟩ := unblockRandom_cases h
    · exact hs
    · exact hs.setObj ht ((hs o t ht).mono (fun x hx => (Dict.mem_erase.1 hx).1) fun m hm => hm)
  | collectAt p copy new o dest tmpl =>
    obtain ⟨t, d, c, ht, -, hsub, ⟨e, rfl⟩ | ⟨tups, rfl⟩⟩ := collectAt_cases h
    · exact hs.setObj ht ((hs o t ht).mono (fun x hx => hx) fun m hm => hsub.subset hm)
    · exact hs.setObj ht ((hs o t ht).mono (fun x hx => hx) fun m hm => hsub.subset hm)
  | newTupleSpace ts =>
    cases h
    intro o t ht
    rcases obj?_newTupleSpace ht with ht | ⟨-, rfl⟩
    · exact hs o t ht
    · exact fun x hx => absurd hx List.not_mem_nil
  | setBlocked | create | reply =>
    cases h
    exact hs
  | read ts | out ts | ensure ts | collect _ _ ts | deleteRequest _ ts | collectDest _ _ _ _ ts =>
    cases h
    rcases hl : s.lookup ts with _ | o <;> simp only [Server.onTs, hl]
    · first | exact hs | (split <;> exact hs)
    · exact hs
  | _ =>
    obtain ⟨-, -, -, hc⟩ := exec_quiet (by trivial) (by simp) h
    exact hs.of_cores hc

theorem Server.Sated.next (h : w.server.Sated) (hreq : ∀ o t, w.server.obj? o = some t → t.requests = [])
    (hs : WorldStep w e w') : w'.server.Sated := by
  obtain ⟨hp, hn⟩ := hs
  cases e with
  | registerProcess =>
    cases hn
    exact h
  | registerThread pid =>
    obtain ⟨tids, -, rfl⟩ := World.next_registerThread hn
    exact h
  | begin t op =>
    obtain ⟨-, -, -, rfl⟩ := World.next_begin hn
    rwa [World.begun_server]
  | send t =>
    obtain ⟨-, -, m, script, -, rfl⟩ := World.next_send hn
    exact h
  | act i =>
    obtain ⟨a, acts, eff, -, heff, rfl⟩ := World.next_act hn
    rw [World.stepped_server]
    exact exec_sated h hreq heff
  | depart t =>
    obtain ⟨-, rfl⟩ := World.next_depart hn
    rwa [World.departed_server]
  | finalise o =>
    obtain ⟨t, -, -, -, rfl⟩ := World.next_finalise hn
    exact h
  | rehash o blocked =>
    obtain ⟨t, ht, hd, rfl⟩ := World.next_rehash hp hn
    exact h.setObj ht ((h o t ht).mono (fun x hx => (Dict.Rehash.mem_iff hd).1 hx) fun m hm => hm)

/-! ## Where a reader waits -/

/-- Who waits waits at the bag of the tuplespace it asked, for what it asked. -/
structure Asked (c : Account) (S : Service) : Prop where
  called : ∀ tid m, S.calls tid = .called m → c.opened tid = some m
  waiting : ∀ tid i msg p, S.calls tid = .waiting i msg p →
    ∃ ts, c.opened tid = some (.read msg ts p) ∧ (S.bags[i]?).map Prod.fst = some ts

variable {S' : Service} {c c' : Account} {st : Status}

/-- The message of one thread has moved on. -/
theorem Asked.move (h : Asked c S) (hcalls : S'.calls = Function.update S.calls tid st)
    (hopened : ∀ p, p ≠ tid → c'.opened p = c.opened p)
    (hbags : ∀ (i : Nat) (ts : TsId), (S.bags[i]?).map Prod.fst = some ts → (S'.bags[i]?).map Prod.fst = some ts)
    (hcalled : ∀ m, st = .called m → c'.opened tid = some m)
    (hwaiting : ∀ i msg p, st = .waiting i msg p →
      ∃ ts, c'.opened tid = some (.read msg ts p) ∧ (S'.bags[i]?).map Prod.fst = some ts) : Asked c' S' := by
  refine ⟨fun p m hm => ?_, fun p i msg q hm => ?_⟩
  · rw [hcalls] at hm
    by_cases hp : p = tid
    · subst hp
      rw [Function.update_self] at hm
      exact hcalled m hm
    · rw [Function.update_of_ne hp] at hm
      rw [hopened p hp]
      exact h.called p m hm
  · rw [hcalls] at hm
    by_cases hp : p = tid
    · subst hp
      rw [Function.update_self] at hm
      exact hwaiting i msg q hm
    · rw [Function.update_of_ne hp] at hm
      rw [hopened p hp]
      obtain ⟨ts, hts, hbag⟩ := h.waiting p i msg q hm
      exact ⟨ts, hts, hbags i ts hbag⟩

theorem fst_append {bags : List (TsId × Bag Tid Tuple Tuple)} {i : Nat} {ts : TsId}
    (x : TsId × Bag Tid Tuple Tuple) (h : (bags[i]?).map Prod.fst = some ts) :
    ((bags ++ [x])[i]?).map Prod.fst = some ts := by
  obtain ⟨y, hy, rfl⟩ := Option.map_eq_some_iff.1 h
  rw [List.getElem?_append_left (List.getElem?_eq_some_iff.1 hy).1, hy]
  rfl

theorem Asked.step {x : Option Seen} (h : Asked c S) (hs : Service.Step S x S') :
    Asked (c.after x.toList) S' := by
  cases hs with
  | @call tid m hv =>
    refine h.move rfl (fun p hp => Function.update_of_ne hp ..) (fun i ts hi => hi) (fun m' hm => ?_) nofun
    cases hm
    exact Function.update_self ..
  | accept hv ha => exact h.move rfl (fun _ _ => rfl) (fun i ts hi => hi) nofun nofun
  | @make tid ts l r hv =>
    have hcalls : ((S.make ts).setCall tid (.doing l r)).calls =
        Function.update S.calls tid (.doing l r) := rfl
    exact h.move hcalls (fun _ _ => rfl) (fun i ts' hi => fst_append _ hi) nofun nofun
  | @makeDest tid copy ts dest p hv =>
    refine ⟨h.called, fun p' i msg q hm => ?_⟩
    obtain ⟨ts', hts, hbag⟩ := h.waiting p' i msg q hm
    exact ⟨ts', hts, fst_append _ hbag⟩
  | @act tid i ts b b' act st hb hstep hmoves =>
    have hbags : ∀ j ts', (S.bags[j]?).map Prod.fst = some ts' →
        ((S.bags.set i (ts, b'))[j]?).map Prod.fst = some ts' := fun j ts' hj => by
      by_cases hij : i = j
      · subst hij
        rw [hb] at hj
        rw [List.getElem?_set_self (List.getElem?_eq_some_iff.1 hb).1]
        exact hj
      · rwa [List.getElem?_set_ne hij]
    have hcalls : ((S.setBag i ts b').setCall tid st).calls = Function.update S.calls tid st := rfl
    refine h.move hcalls (fun _ _ => rfl) hbags (fun m hm => ?_) fun j msg p hm => ?_
    · subst hm
      generalize S.calls tid = v at hmoves
      cases hmoves
    · subst hm
      generalize hv : S.calls tid = v at hmoves
      cases hmoves
      exact ⟨ts, h.called tid _ hv, hbags i ts (by rw [hb]; rfl)⟩
  | @answer tid r hv =>
    exact h.move rfl (fun p hp => Function.update_of_ne hp ..) (fun i ts hi => hi) nofun nofun

theorem Asked.run {l : List Seen} (h : Asked c S) (hs : Shows Service.Step S l S') : Asked (c.after l) S' :=
  hs.fold (f := Account.see) (J := Asked) (C := fun _ => True) (fun _ _ _ _ h hs _ => h.step hs) h
    fun _ _ => trivial

theorem asked_init : Asked .init .init := ⟨nofun, nofun⟩

/-! ## Runs of a server -/

/-- What holds of a server that has not dropped an answer. -/
structure Intact (w : World) : Prop where
  linear : ∃ S, Linear w S
  kept : Kept w
  sated : w.server.Sated

theorem Intact.init : Intact .init where
  linear := ⟨_, linear_init⟩
  kept := ⟨nofun, fun _ _ => rfl⟩
  sated o t ht := by
    cases o with
    | zero =>
      cases ht
      exact nofun
    | succ o => cases ht

theorem Intact.next (h : Intact w) (hd : ¬ w.Drops e) (hs : AtomStep w e w') : Intact w' := by
  obtain ⟨S, hlinear⟩ := h.linear
  obtain ⟨S', -, hlinear'⟩ := hlinear.next hs.2 hs.1
  exact ⟨⟨S', hlinear'⟩, h.kept.next hlinear.one hs.2 hd,
    h.sated.next (fun o t ht => (hlinear.mirrors.atomic o t ht).requests) hs.2⟩

variable {tr : List (World × Event)}

/-- Once all threads of the server are through, and none of them has died with an answer to send, every
client that still waits is in the `blocked_list` of the tuplespace it asked, with its template, and a
tuple that it named in full is not stored there. -/
theorem server_answers (h : Run AtomStep .init tr w) (hkeep : ∀ x ∈ tr, ¬ x.1.Drops x.2)
    (hrest : ∀ acts ∈ w.pool, acts = []) (hl : tid ∈ w.live) (hwait : (w.clients tid).waiting = true) :
    ∃ o t b msg, w.server.obj? o = some t ∧ (tid, b) ∈ t.blockedList.entries ∧
      (Account.init.after (history tr)).opened tid = some (.read msg t.id b.pattern) ∧
      msg.unblockable = b.unblockable ∧ msg.destructive = b.destructive ∧
      (b.pattern.IsAtoms → b.pattern ∉ t.ts.contain) := by
  obtain ⟨S, hshows, hlinear⟩ := linear_of_run h
  have hof : Intact w :=
    h.inv (C := fun w e => ¬ w.Drops e) (fun _ _ _ hw hd hs => hw.next hd hs) .init hkeep
  have hpool : poolWeight (Act.token 1 tid) w.pool = 0 := by
    refine List.sum_eq_zero fun n hn => ?_
    obtain ⟨acts, hacts, rfl⟩ := List.mem_map.1 hn
    rw [hrest acts hacts]
    rfl
  have hparked : w.server.parked tid ≠ 0 := by
    have howed := hof.kept.owed tid hl hwait
    rw [World.tokens, hpool] at howed
    omega
  obtain ⟨o, t, ht, hin⟩ : ∃ o t, w.server.obj? o = some t ∧ tid ∈ t.blockedList.keys := by
    by_contra hno
    exact hparked (parked_eq_zero_iff.2 fun o t ht hin => hno ⟨o, t, ht, hin⟩)
  obtain ⟨b, hb⟩ := Dict.mem_keys.1 hin
  obtain ⟨msg, hv, hu, hd⟩ := hlinear.mirrors.parked o t ht _ hb
  obtain ⟨ts, hts, hbag⟩ := (asked_init.run hshows).waiting tid o msg b.pattern hv
  rw [hlinear.mirrors.bag ht] at hbag
  obtain rfl : t.id = ts := Option.some.inj hbag
  exact ⟨o, t, b, msg, ht, hb, hts, hu, hd, hof.sated o t ht _ hb⟩

/-- The step ends its thread with an exception. -/
def World.raises (w : World) : Event → Bool
  | .act i => ((w.pool[i]?.bind List.head?).bind (Act.exec w.server)).any fun eff => eff.raised.isSome
  | _ => false

theorem not_drops (h : w.raises e = false) : ¬ w.Drops e := by
  rintro ⟨i, a, acts, eff, rfl, hi, heff, hr, -⟩
  simp [World.raises, hi, heff, hr] at h

/-- A reader waits for a tuple while another one is put in. -/
def waitOn (t1 t2 : Tid) : List Event :=
  [.registerProcess, .registerThread ⟨0⟩, .registerThread ⟨0⟩,
    .begin t1 (.read .in_ .uts [.integer 5]), .send t1, .act 0, .act 0, .act 0, .act 1,
    .begin t2 (.out .uts [.integer 6]), .send t2, .act 2, .act 2, .act 2]

theorem server_answers_waitOn : ∃ tr w, Run AtomStep .init tr w ∧
    tr.map Prod.snd = waitOn ⟨⟨0⟩, 1⟩ ⟨⟨0⟩, 2⟩ ∧
    ∃ o t b msg, w.server.obj? o = some t ∧ (⟨⟨0⟩, 1⟩, b) ∈ t.blockedList.entries ∧
      (Account.init.after (history tr)).opened ⟨⟨0⟩, 1⟩ = some (.read msg t.id b.pattern) ∧
      msg.unblockable = b.unblockable ∧ msg.destructive = b.destructive ∧
      (b.pattern.IsAtoms → b.pattern ∉ t.ts.contain) := by
  have hexec : (exec? World.next .init (waitOn ⟨⟨0⟩, 1⟩ ⟨⟨0⟩, 2⟩)).map (fun w =>
      w.pool.all List.isEmpty && decide (⟨⟨0⟩, 1⟩ ∈ w.live) && (w.clients ⟨⟨0⟩, 1⟩).waiting) = some true := by
    decide
  obtain ⟨w, hw, hend⟩ := Option.map_eq_some_iff.1 hexec
  simp only [Bool.and_eq_true, List.all_eq_true, List.isEmpty_iff, decide_eq_true_eq] at hend
  obtain ⟨⟨hrest, hl⟩, hwait⟩ := hend
  obtain ⟨hr, htr⟩ := Run.of_exec? (P := fun w e => e.Atoms ∧ e.Proper w)
    (by simp [waitOn, Event.Proper, Event.Atoms, ClientOp.Atoms, Tuple.IsAtoms, Tuple.IsTemplate,
      Value.IsAtom]) hw
  have hrun : Run AtomStep .init _ w := hr.imp fun _ _ _ h => and_assoc.1 h
  have hraises : (trace? World.next .init (waitOn ⟨⟨0⟩, 1⟩ ⟨⟨0⟩, 2⟩)).all
      (fun x => !x.1.raises x.2) = true := by decide
  refine ⟨_, w, hrun, htr, server_answers hrun (fun x hx => not_drops ?_) hrest hl hwait⟩
  simpa using List.all_eq_true.1 hraises x hx

end PyLinda
