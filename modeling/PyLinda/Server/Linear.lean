import PyLinda.Server.Owes

/-!
# A server takes its messages one at a time

Whatever the interleaving of the server's threads, the answers that its clients get are those of a
list of bags on which every message acts at one moment between its call and its answer.
-/

namespace PyLinda

open Lib

/-- Who is in a `blocked_list` waits at this tuplespace. -/
def Parked (s : Server) (v : Tid → Status) : Prop :=
  ∀ o t, s.obj? o = some t → ∀ x ∈ t.blockedList.entries, ∃ msg, v x.1 = .waiting o msg x.2.pattern ∧
    msg.unblockable = x.2.unblockable ∧ msg.destructive = x.2.destructive

/-- The service stands for the tables of the server. -/
structure Mirrors (s : Server) (S : Service) : Prop where
  bags : S.bags = s.bags
  atomic : ∀ o t, s.obj? o = some t → Atomic t
  parked : Parked s S.calls

variable {s s' : Server} {S S' : Service} {a : Act} {eff : Effect} {o : ObjId} {t t' : TupleSpace}
  {ts : TsId} {tid : Tid} {k : List Act} {v : Tid → Status}

/-! ## The tables and their image -/

theorem bags_of_cores (h : s'.cores = s.cores) : s'.bags = s.bags := by
  have hbags : ∀ s : Server, s.bags = s.cores.map fun t => (t.id, t.bag) := fun s => by
    rw [Server.cores, List.map_map]
    rfl
  rw [hbags, hbags, h]

theorem obj_of_cores (h : s'.cores = s.cores) (ht : s'.obj? o = some t') :
    ∃ t, s.obj? o = some t ∧ t.core = t'.core := by
  have ho : s'.cores[o]? = some t'.core := by
    rw [Server.cores, List.getElem?_map]
    exact congrArg _ ht
  rw [h, Server.cores, List.getElem?_map] at ho
  exact Option.map_eq_some_iff.1 ho

theorem Atomic.of_core (h : Atomic t) (hc : t'.core = t.core) : Atomic t' where
  requests := (core_parts hc).2.1.trans h.requests
  contain := (core_parts hc).2.2.1 ▸ h.contain
  blocked := (core_parts hc).2.2.2 ▸ h.blocked

theorem Mirrors.of_cores (h : Mirrors s S) (hc : s'.cores = s.cores) : Mirrors s' S where
  bags := h.bags.trans (bags_of_cores hc).symm
  atomic o t' ht' := by
    obtain ⟨t, ht, heq⟩ := obj_of_cores hc ht'
    exact (h.atomic o t ht).of_core heq.symm
  parked o t' ht' x hx := by
    obtain ⟨t, ht, heq⟩ := obj_of_cores hc ht'
    exact h.parked o t ht x ((core_parts heq).2.2.2 ▸ hx)

theorem parked_pos (ht : s.obj? o = some t) {x : Tid × Blocked} (hx : x ∈ t.blockedList.entries) :
    s.parked x.1 ≠ 0 :=
  fun h => parked_eq_zero_iff.1 h o t ht (Dict.mem_keys.2 ⟨x.2, hx⟩)

/-- The status of a thread that waits nowhere is its own. -/
theorem Mirrors.setCall (h : Mirrors s S) (hp : s.parked tid = 0) (st : Status) :
    Mirrors s (S.setCall tid st) where
  bags := h.bags
  atomic := h.atomic
  parked o t ht x hx := by
    have hne : x.1 ≠ tid := fun he => parked_pos ht hx (he ▸ hp)
    obtain ⟨msg, hv, hmsg⟩ := h.parked o t ht x hx
    exact ⟨msg, (Function.update_of_ne hne ..).trans hv, hmsg⟩

theorem Mirrors.make (h : Mirrors s S) (ts : TsId) : Mirrors (s.newTupleSpace ts) (S.make ts) where
  bags := by
    rw [Service.make, h.bags]
    simp only [Server.bags, Server.newTupleSpace, List.map_append]
    rfl
  atomic o t ht := by
    rcases obj?_newTupleSpace ht with ht | ⟨-, rfl⟩
    · exact h.atomic o t ht
    · exact atomic_init ts
  parked o t ht x hx := by
    rcases obj?_newTupleSpace ht with ht | ⟨-, rfl⟩
    · exact h.parked o t ht x hx
    · cases hx

theorem Mirrors.bag (h : Mirrors s S) (ht : s.obj? o = some t) : S.bags[o]? = some (t.id, t.bag) := by
  rw [h.bags, Server.bags, List.getElem?_map]
  exact congrArg _ ht

theorem bags_setObj (hid : t'.id = t.id) : (s.setObj o t').bags = s.bags.set o (t.id, t'.bag) := by
  rw [Server.bags, Server.setObj, List.map_set, hid]
  rfl

/-- One tuplespace has changed. -/
theorem Mirrors.setObj (h : Mirrors s S) (ht : s.obj? o = some t) (hid : t'.id = t.id)
    (hbags : S'.bags = S.bags.set o (t.id, t'.bag)) (ha : Atomic t')
    (hothers : ∀ p, (∀ x ∈ t.blockedList.entries, p ≠ x.1) → s.parked p ≠ 0 → S'.calls p = S.calls p)
    (hparked : ∀ x ∈ t'.blockedList.entries, ∃ msg, S'.calls x.1 = .waiting o msg x.2.pattern ∧
      msg.unblockable = x.2.unblockable ∧ msg.destructive = x.2.destructive) :
    Mirrors (s.setObj o t') S' where
  bags := by rw [hbags, h.bags, bags_setObj hid]
  atomic o' u hu := by
    by_cases ho : o' = o
    · subst ho
      rw [obj?_setObj_self ht] at hu
      cases hu
      exact ha
    · exact h.atomic o' u ((obj?_setObj_ne ho).symm.trans hu)
  parked o' u hu x hx := by
    by_cases ho : o' = o
    · subst ho
      rw [obj?_setObj_self ht] at hu
      cases hu
      exact hparked x hx
    · have hu : s.obj? o' = some u := (obj?_setObj_ne ho).symm.trans hu
      obtain ⟨msg, hv, hmsg⟩ := h.parked o' u hu x hx
      refine ⟨msg, (hothers x.1 (fun y hy he => ?_) (parked_pos hu hx)).trans hv, hmsg⟩
      -- a thread waits at one tuplespace
      obtain ⟨msg', hv', -⟩ := h.parked o t ht y hy
      rw [he, hv', Status.waiting.injEq] at hv
      exact ho hv.1.symm

/-- Only what a tuplespace stores has changed. -/
theorem Mirrors.setContain (h : Mirrors s S) (ht : s.obj? o = some t) {c : TupleContainer}
    (ha : Atomic { t with ts := c })
    (hbags : S'.bags = S.bags.set o (t.id, { t with ts := c }.bag))
    (hcalls : ∀ p, s.parked p ≠ 0 → S'.calls p = S.calls p) : Mirrors (s.setObj o { t with ts := c }) S' := by
  refine h.setObj ht rfl hbags ha (fun p _ hp => hcalls p hp) fun x hx => ?_
  obtain ⟨msg, hv, hmsg⟩ := h.parked o t ht x hx
  exact ⟨msg, (hcalls x.1 (parked_pos ht hx)).trans hv, hmsg⟩

theorem idOf_eq_some : s.idOf o = some ts ↔ ∃ t, s.obj? o = some t ∧ t.id = ts := Option.map_eq_some_iff

theorem idOf_kept (h : a.exec s = some eff) : ∀ o ts, s.idOf o = some ts → eff.server.idOf o = some ts := by
  intro o ts ho
  obtain ⟨t, ht, rfl⟩ := idOf_eq_some.1 ho
  obtain ⟨t', ht', hc⟩ := (exec_frame h).kept ht
  exact idOf_eq_some.2 ⟨t', ht', hc.id⟩

/-- The readers that an `out` wakes. -/
theorem wakes_shown {i : Nat} {S : Service} {b b' : Bag Tid Tuple Tuple} {w : List (Tid × Blocked)}
    (hb : S.bags[i]? = some (ts, b)) (h : Comes b (w.map fun x => .wake x.1 x.2.ask x.2.pattern) b')
    (hn : (w.map Prod.fst).Nodup) (hw : ∀ x ∈ w, ∃ msg, S.calls x.1 = .waiting i msg x.2.pattern ∧
      msg.destructive = x.2.destructive) :
    ∃ S', Shows Service.Step S [] S' ∧ S'.bags = S.bags.set i (ts, b') ∧
      (∀ x ∈ w, S'.calls x.1 = .doing [] (.tuple x.2.pattern)) ∧
      ∀ p, p ∉ w.map Prod.fst → S'.calls p = S.calls p := by
  induction w generalizing S b with
  | nil =>
    obtain rfl := h.eq_of_nil
    obtain ⟨hlt, hi⟩ := List.getElem?_eq_some_iff.1 hb
    refine ⟨S, .refl S, ?_, nofun, fun _ _ => rfl⟩
    rw [← hi, List.set_getElem_self]
  | cons x w ih =>
    obtain ⟨c, hstep, h⟩ := h.uncons
    rw [List.map_cons, List.nodup_cons] at hn
    rw [List.forall_mem_cons] at hw
    obtain ⟨⟨msg, hv, hd⟩, hw⟩ := hw
    have hmoves : Moves i ts x.1 (S.calls x.1) (.wake x.1 x.2.ask x.2.pattern)
        (.doing [] (.tuple x.2.pattern)) := by
      rw [hv, Blocked.ask, ← hd]
      exact .wake
    obtain ⟨hlt, -⟩ := List.getElem?_eq_some_iff.1 hb
    have hne : ∀ y ∈ w, y.1 ≠ x.1 := fun y hy he => hn.1 (he ▸ List.mem_map_of_mem hy)
    obtain ⟨S', hshows, hbags, hcalls, hothers⟩ :=
      @ih ((S.setBag i ts c).setCall x.1 (.doing [] (.tuple x.2.pattern))) c (by simp [Service.setCall,
        Service.setBag, hlt]) h hn.2 fun y hy => by
          obtain ⟨msg, hv, hd⟩ := hw y hy
          exact ⟨msg, (Function.update_of_ne (hne y hy) ..).trans hv, hd⟩
    refine ⟨S', .silent (.act hb hstep hmoves) hshows, hbags.trans (List.set_set ..), ?_, fun p hp => ?_⟩
    · rw [List.forall_mem_cons]
      exact ⟨(hothers x.1 hn.1).trans (Function.update_self ..), hcalls⟩
    · rw [List.map_cons, List.mem_cons, not_or] at hp
      exact (hothers p hp.2).trans (Function.update_of_ne hp.1 ..)

/-! ## One step of a thread -/

/-- Going from `S` to `S'` the service shows what the step of the thread `acts` shows, and the thread
goes on with `k`. -/
structure Answers (live : List Tid) (s : Server) (S : Service) (acts : List Act) (eff : Effect)
    (k : List Act) (S' : Service) : Prop where
  shows : Shows Service.Step S (shown live eff.sent) S'
  mirrors : Mirrors eff.server S'
  goesOn : Owes eff.server S'.calls [] k
  starts : ∀ q ∈ eff.spawned, Owes eff.server S'.calls [] q
  others : ∀ p, s.parked p + weight (Act.token 1 p) acts = 0 → S'.calls p = S.calls p
  idle : ∀ m, eff.sent = some m → m.1 ∈ live → S'.calls m.1 = .idle

theorem none_sent {P : Tid × Reply → Prop} (m : Tid × Reply) (h : none = some m) : P m :=
  absurd h.symm (Option.some_ne_none m)

section
variable {live : List Tid} {acts : List Act} {st : Status} (hm : Mirrors s S)
include hm

/-- Nothing happens. -/
theorem Answers.same (hc : eff.server.cores = s.cores) (hsent : eff.sent = none)
    (hk : Owes eff.server S.calls [] k) (hstart : ∀ q ∈ eff.spawned, Owes eff.server S.calls [] q) :
    Answers live s S acts eff k S where
  shows := by rw [hsent]; exact .refl S
  mirrors := hm.of_cores hc
  goesOn := hk
  starts := hstart
  others _ _ := rfl
  idle m h := by rw [hsent] at h; cases h

/-- The message of a thread is settled, which leaves the bags alone. -/
theorem Answers.settle (hp : s.parked tid = 0) (hw : weight (Act.token 1 tid) acts ≠ 0)
    (hstep : Service.Step S none (S.setCall tid st)) (hc : eff.server.cores = s.cores)
    (hsent : eff.sent = none) (hspawned : eff.spawned = [])
    (hk : Owes eff.server (S.setCall tid st).calls [] k) :
    Answers live s S acts eff k (S.setCall tid st) where
  shows := by rw [hsent]; exact .silent hstep (.refl _)
  mirrors := (hm.setCall hp st).of_cores hc
  goesOn := hk
  starts q hq := by rw [hspawned] at hq; cases hq
  others p h := Function.update_of_ne (fun he => hw (by rw [he] at h; omega)) ..
  idle m h := by rw [hsent] at h; cases h

theorem answers_quiet (ha : a.Quiet) (hne : ∀ o, a ≠ .unblockRandom o) (h : a.exec s = some eff)
    (howes : Owes s S.calls [] (a :: k)) : Answers live s S (a :: k) eff (World.rest eff k) S := by
  obtain ⟨hnext, hspawned, hsent, hcores⟩ := exec_quiet ha hne h
  have hk : Owes eff.server S.calls [] k := (howes.tail ha).congr (idOf_kept h) fun _ _ => rfl
  refine .same hm hcores hsent ?_ fun q hq => owes_quiet (hspawned q hq)
  unfold World.rest
  split
  · exact .nil
  · exact .append hnext hk

theorem answers_reply {r : Reply} (hone : ∀ p, s.parked p + weight (Act.token 1 p) (.reply tid r :: k) ≤ 1)
    (h : (Act.reply tid r).exec s = some eff) (howes : Owes s S.calls [] (.reply tid r :: k)) :
    ∃ S', Answers live s S (.reply tid r :: k) eff (World.rest eff k) S' := by
  cases h
  cases howes with
  | quiet ha => exact ha.elim
  | reply hv hk =>
    have htok := hone tid
    simp only [weight_cons, Act.token, if_true] at htok
    by_cases hl : tid ∈ live
    · refine ⟨S.setCall tid .idle, ?_, hm.setCall (by omega) _, hk.congr (fun _ _ h => h) fun p hp => ?_,
        List.forall_mem_nil _, fun p hp => ?_, fun m hsent _ => ?_⟩
      · rw [show shown live (some (tid, r)) = [.answer tid r] from if_pos hl]
        exact .visible (.answer hv) (.refl _)
      · exact Function.update_of_ne (fun he => hp (by rw [he]; omega)) ..
      · refine Function.update_of_ne (fun he => ?_) ..
        simp [he, Act.token] at hp
      · obtain rfl := Option.some.inj hsent
        exact Function.update_self ..
    · refine ⟨S, ?_, hm, hk, List.forall_mem_nil _, fun _ _ => rfl, fun m hsent hin => ?_⟩
      · rw [show shown live (some (tid, r)) = [] from if_neg hl]
        exact .refl S
      · obtain rfl := Option.some.inj hsent
        exact absurd hin hl

theorem answers_unblockRandom
    (hone : ∀ p, s.parked p + weight (Act.token 1 p) (.unblockRandom o :: k) ≤ 1)
    (h : (Act.unblockRandom o).exec s = some eff) (howes : Owes s S.calls [] (.unblockRandom o :: k)) :
    ∃ S', Answers live s S (.unblockRandom o :: k) eff (World.rest eff k) S' := by
  have hk : Owes s S.calls [] k := howes.tail trivial
  obtain ⟨t, ht, ⟨-, rfl⟩ | ⟨p, hp, rfl⟩⟩ := unblockRandom_cases h
  · exact ⟨S, .same hm rfl rfl hk (List.forall_mem_nil _)⟩
  · obtain ⟨⟨p, b⟩, hfind, rfl⟩ := Option.map_eq_some_iff.1 hp
    have hx : (p, b) ∈ t.blockedList.entries := List.mem_of_find?_eq_some hfind
    have hu : b.unblockable = true := by simpa using List.find?_some hfind
    obtain ⟨msg, hv, hmsg, hd⟩ := hm.parked o t ht _ hx
    obtain rfl : msg = .inp := by simpa [ReadMsg.unblockable, hu] using hmsg
    have hpos : s.parked p ≠ 0 := parked_pos ht hx
    have htok := hone p
    simp only [weight_cons, Act.token, Nat.zero_add] at htok
    have hcomes := unblockRandom_comes (s := t)
    unfold Op.acts at hcomes
    simp only [TupleSpace.unblockRandom, hp, Dict.get?_eq_some hx] at hcomes
    have hmoves : Moves o t.id p (S.calls p) (.release p b.ask) (.doing [] .unblock) := by
      rw [show S.calls p = _ from hv, Blocked.ask, ← hd]
      exact .release
    refine ⟨(S.setBag o t.id _).setCall p (.doing [] .unblock),
      .silent (.act (hm.bag ht) hcomes.step hmoves) (.refl _), ?_, ?_, List.forall_mem_nil _,
      fun q hq => ?_, none_sent⟩
    · have hatomic : Atomic (Op.unblockRandom.after t) := (hm.atomic o t ht).after trivial
      simp only [Op.after, TupleSpace.unblockRandom, hp] at hatomic
      refine hm.setObj ht rfl rfl hatomic (fun q hq _ => Function.update_of_ne (hq _ hx) ..)
        fun x hx' => ?_
      obtain ⟨hx', hne⟩ := Dict.mem_erase.1 hx'
      obtain ⟨msg, hv', hmsg'⟩ := hm.parked o t ht x hx'
      exact ⟨msg, (Function.update_of_ne hne ..).trans hv', hmsg'⟩
    · refine .quiet trivial (.quiet trivial (.reply (Function.update_self ..) ?_))
      refine hk.congr (idOf_kept h) fun q hq => Function.update_of_ne (fun he => hq ?_) ..
      rw [he]
      omega
    · refine Function.update_of_ne (fun he => hpos ?_) ..
      rw [he] at hq
      omega

theorem answers_newTupleSpace
    (hone : ∀ p, s.parked p + weight (Act.token 1 p) (.newTupleSpace ts :: k) ≤ 1)
    (h : (Act.newTupleSpace ts).exec s = some eff) (howes : Owes s S.calls [] (.newTupleSpace ts :: k)) :
    ∃ S', Answers live s S (.newTupleSpace ts :: k) eff (World.rest eff k) S' := by
  have hid := idOf_kept h
  cases h
  cases howes with
  | quiet ha => exact ha.elim
  | make hk =>
    have hone' : ∀ p, weight (Act.token 1 p) k ≤ 1 := fun p => by
      have := hone p
      rw [weight_cons] at this
      omega
    obtain ⟨tid, l, r, hv, hw, hrest⟩ := hk.first hone'
    have htok := hone tid
    simp only [weight_cons, Act.token] at htok
    refine ⟨(S.make ts).setCall tid (.doing l r), .silent (.make hv) (.refl _),
      (hm.make ts).setCall ((parked_newTupleSpace ts).trans (by omega)) _, ?_,
      List.forall_mem_nil _, fun p hp => ?_, none_sent⟩
    · refine Owes.congr (hrest _ (Function.update_self ..) fun p hp => Function.update_of_ne hp ..) hid ?_
      exact fun _ _ => rfl
    · refine Function.update_of_ne (fun he => ?_) ..
      rw [weight_cons, he] at hp
      omega
  | makeDest ho hv hp =>
    exact ⟨S.make ts, .silent (.makeDest hv) (.refl _), hm.make ts, .collectDest (hid _ _ ho) hv hp,
      List.forall_mem_nil _, fun _ _ => rfl, none_sent⟩

theorem answers_out (hs : s.Sound) {tup : Tuple} {e : PyExc} (h : (Act.out ts tup e).exec s = some eff)
    (howes : Owes s S.calls [] (.out ts tup e :: k)) :
    ∃ S', Answers live s S (.out ts tup e :: k) eff (World.rest eff k) S' := by
  cases h
  cases howes with
  | quiet ha => exact ha.elim
  | out htup hk =>
    refine ⟨S, ?_⟩
    rcases hl : s.lookup ts with _ | o <;> simp only [Server.onTs, hl]
    · exact .same hm rfl rfl .nil (List.forall_mem_nil _)
    · exact .same hm rfl rfl (.outAt (idOf_eq_some.2 (hs.lookup ts o hl)) htup hk) (List.forall_mem_nil _)

theorem answers_outAt {tup : Tuple}
    (hone : ∀ p, s.parked p + weight (Act.token 1 p) (.outAt o tup :: k) ≤ 1)
    (h : (Act.outAt o tup).exec s = some eff) (howes : Owes s S.calls [] (.outAt o tup :: k)) :
    ∃ S', Answers live s S (.outAt o tup :: k) eff (World.rest eff k) S' := by
  have hid := idOf_kept h
  obtain ⟨t, ht, raised, rfl⟩ := outAt_cases h
  cases howes with
  | quiet ha => exact ha.elim
  | outAt ho htup hk =>
    obtain ⟨u, hu, rfl⟩ := idOf_eq_some.1 ho
    obtain rfl : t = u := Option.some.inj (ht.symm.trans hu)
    have hatomic := hm.atomic o t ht
    have hafter : Atomic ((Op.out tup).after t) := hatomic.after htup
    obtain ⟨w, hspawned, hperm, hcomes⟩ := out_wakes hatomic htup
    obtain ⟨c, hput, hwakes⟩ := hcomes.uncons
    obtain ⟨tid, l, r, hv, hw, hrest⟩ := hk.first fun p => by
      have := hone p
      rw [weight_cons] at this
      omega
    have htok := hone tid
    simp only [weight_cons, Act.token] at htok
    have hmem : ∀ x ∈ w, x ∈ t.blockedList.entries := fun x hx => hperm.subset (List.mem_append_left _ hx)
    have hparked : ∀ x ∈ t.blockedList.entries, x.1 ≠ tid := fun x hx he =>
      parked_pos ht hx (by rw [he]; omega)
    have hkeys : (w.map Prod.fst ++ (t._out tup).ts.blockedList.entries.map Prod.fst).Nodup := by
      rw [← List.map_append]
      exact (hperm.map Prod.fst).nodup_iff.2 t.blockedList.nodup
    obtain ⟨hnw, -, hdisj⟩ := List.nodup_append.1 hkeys
    obtain ⟨hlt, -⟩ := List.getElem?_eq_some_iff.1 (hm.bag ht)
    -- the tuple is put in first, then the readers wake
    obtain ⟨S', hshows, hbags, hcalls, hothers⟩ := @wakes_shown t.id o
      ((S.setBag o t.id c).setCall tid (.doing l r)) c _ w (by simp [Service.setCall, Service.setBag, hlt])
      hwakes hnw fun x hx => by
        obtain ⟨msg, hv', -, hd⟩ := hm.parked o t ht x (hmem x hx)
        exact ⟨msg, (Function.update_of_ne (hparked x (hmem x hx)) ..).trans hv', hd⟩
    have hsame : ∀ p, p ∉ w.map Prod.fst → p ≠ tid → S'.calls p = S.calls p := fun p hp hne =>
      (hothers p hp).trans (Function.update_of_ne hne ..)
    have hwoken : ∀ p ∈ w.map Prod.fst, s.parked p ≠ 0 := by
      intro p hp
      obtain ⟨x, hx, rfl⟩ := List.mem_map.1 hp
      exact parked_pos ht (hmem x hx)
    refine ⟨S', ?_, ?_, ?_, fun q hq => ?_, fun p hp => ?_, none_sent⟩
    · exact .silent (.act (hm.bag ht) hput (hv ▸ .put)) hshows
    · refine hm.setObj ht (TupleSpace._out_id tup) (hbags.trans (List.set_set ..))
        hafter (fun p hp hpos => ?_) fun x hx => ?_
      · refine hsame p (fun hp' => ?_) fun he => hpos (by rw [he]; omega)
        obtain ⟨x, hx, rfl⟩ := List.mem_map.1 hp'
        exact hp x (hmem x hx) rfl
      · have hx' : x ∈ t.blockedList.entries := hperm.subset (List.mem_append_right _ hx)
        obtain ⟨msg, hv', hmsg⟩ := hm.parked o t ht x hx'
        refine ⟨msg, (hsame x.1 (fun hin => ?_) (hparked x hx')).trans hv', hmsg⟩
        exact hdisj _ hin _ (List.mem_map_of_mem hx) rfl
    · unfold World.rest
      split
      · exact .nil
      · refine Owes.congr (hrest (Function.update S.calls tid (.doing l r)) (Function.update_self ..)
          fun p hp => Function.update_of_ne hp ..) hid fun p hp => hothers p fun hin => ?_
        have hp : weight (Act.token 1 p) k ≠ 0 := hp
        have hpos := hwoken p hin
        have htok := hone p
        rw [weight_cons] at htok
        omega
    · rw [hspawned, List.map_map] at hq
      obtain ⟨x, hx, rfl⟩ := List.mem_map.1 hq
      exact owes_returnTuple (hcalls x hx)
    · refine hsame p (fun hin => hwoken p hin (by omega)) fun he => ?_
      rw [weight_cons, he] at hp
      omega

theorem answers_create
    (hone : ∀ p, s.parked p + weight (Act.token 1 p) (.create tid :: k) ≤ 1)
    (h : (Act.create tid).exec s = some eff) (howes : Owes s S.calls [] (.create tid :: k)) :
    ∃ S', Answers live s S (.create tid :: k) eff (World.rest eff k) S' := by
  cases h
  have htok := hone tid
  have hw : weight (Act.token 1 tid) (.create tid :: k) ≠ 0 := by simp [Act.token]
  cases howes with
  | quiet ha => exact ha.elim
  | create hv =>
    refine ⟨S.setCall tid (.doing [.make (.sid s.nextGuid)] (.string (.sid s.nextGuid))),
      .settle hm (by omega) hw (.accept hv .createTuplespace) rfl rfl rfl ?_⟩
    exact .make (.quiet trivial (.reply (Function.update_self ..) .nil))

theorem answers_ensure {k : List Act}
    (hone : ∀ p, s.parked p + weight (Act.token 1 p) (.ensure ts :: k) ≤ 1)
    (h : (Act.ensure ts).exec s = some eff) (howes : Owes s S.calls [] (.ensure ts :: k)) :
    ∃ S', Answers live s S (.ensure ts :: k) eff (World.rest eff k) S' := by
  cases h
  cases howes with
  | quiet ha => exact ha.elim
  | @ensure tid _ ref hv =>
    have htok := hone tid
    have hw : weight (Act.token 1 tid) [.ensure ts, .addReference ts ref, .reply tid .done] ≠ 0 := by
      simp [Act.token]
    rcases hl : s.lookup ts with _ | o <;> simp only [Server.onTs, hl]
    · refine ⟨_, .settle hm (by omega) hw (.accept hv .ensure) rfl rfl rfl ?_⟩
      exact .make (.quiet trivial (.reply (Function.update_self ..) .nil))
    · refine ⟨_, .settle hm (by omega) hw (.accept hv .addReference) rfl rfl rfl ?_⟩
      exact .quiet trivial (.reply (Function.update_self ..) .nil)

theorem answers_setBlocked {r : Request} (h : (Act.setBlocked ts r).exec s = some eff)
    (howes : Owes s S.calls [] (.setBlocked ts r :: k)) :
    ∃ S', Answers live s S (.setBlocked ts r :: k) eff (World.rest eff k) S' := by
  cases h
  cases howes with
  | quiet ha => exact ha.elim
  | setBlocked hv hp => exact ⟨S, .same hm rfl rfl (.read hv hp) (List.forall_mem_nil _)⟩

theorem answers_read (hs : s.Sound) {r : Request} (h : (Act.read ts r).exec s = some eff)
    (howes : Owes s S.calls [] (.read ts r :: k)) :
    ∃ S', Answers live s S (.read ts r :: k) eff (World.rest eff k) S' := by
  cases h
  cases howes with
  | quiet ha => exact ha.elim
  | read hv hp =>
    refine ⟨S, ?_⟩
    rcases hl : s.lookup ts with _ | o <;> simp only [Server.onTs, hl]
    · exact .same hm rfl rfl .nil (List.forall_mem_nil _)
    · exact .same hm rfl rfl (.readAt (idOf_eq_some.2 (hs.lookup ts o hl)) hv hp) (List.forall_mem_nil _)

theorem answers_readAt {r : Request}
    (hone : ∀ p, s.parked p + weight (Act.token 1 p) (.readAt o r :: k) ≤ 1)
    (h : (Act.readAt o r).exec s = some eff) (howes : Owes s S.calls [] (.readAt o r :: k)) :
    ∃ S', Answers live s S (.readAt o r :: k) eff (World.rest eff k) S' := by
  have hid := idOf_kept h
  cases howes with
  | quiet ha => exact ha.elim
  | readAt ho hv hp =>
    obtain ⟨t, ht, hcases⟩ := readAt_cases h
    obtain ⟨u, hu, rfl⟩ := idOf_eq_some.1 ho
    obtain rfl : t = u := Option.some.inj (ht.symm.trans hu)
    have hatomic := hm.atomic o t ht
    have htok := hone r.tid
    simp only [weight_cons, weight_nil, Act.token, if_true] at htok
    have hfree : ∀ x ∈ t.blockedList.entries, x.1 ≠ r.tid := fun x hx he =>
      parked_pos ht hx (by rw [he]; omega)
    have hkeys : r.tid ∉ t.blockedList.keys := fun hin => by
      obtain ⟨b, hb⟩ := Dict.mem_keys.1 hin
      exact hfree _ hb rfl
    have hothers : ∀ st p, s.parked p + weight (Act.token 1 p) [.readAt o r] = 0 →
        (Function.update S.calls r.tid st) p = S.calls p := by
      intro st p hp
      refine Function.update_of_ne (fun he => ?_) ..
      simp [he, Act.token] at hp
    have hpos : ∀ st p, s.parked p ≠ 0 → (Function.update S.calls r.tid st) p = S.calls p := by
      intro st p hp
      exact Function.update_of_ne (fun he => hp (by rw [he]; omega)) ..
    rcases hcases with ⟨hskip, rfl⟩ | ⟨m, c, hmem, hmatch, hc, rfl⟩ | ⟨e, rfl⟩
    · have hblock := (block_comes (a := ⟨r.template, r.msg.unblockable, r.msg.destructive⟩) hkeys hskip).step
      refine ⟨(S.setBag o t.id _).setCall r.tid (.waiting o r.msg r.template),
        .silent (.act (hm.bag ht) hblock (hv ▸ .wait)) (.refl _), ?_, .nil, fun q hq => ?_,
        hothers _, none_sent⟩
      · refine hm.setObj ht rfl rfl ⟨hatomic.requests, hatomic.contain, fun x hx => ?_⟩
          (fun p _ hp => hpos _ p hp) fun x hx => ?_
        · rcases mem_block.1 hx with rfl | ⟨hx, -⟩
          · exact hp
          · exact hatomic.blocked x hx
        · rcases mem_block.1 hx with rfl | ⟨hx, -⟩
          · exact ⟨r.msg, Function.update_self .., rfl, rfl⟩
          · obtain ⟨msg, hv', hmsg⟩ := hm.parked o t ht x hx
            exact ⟨msg, (Function.update_of_ne (hfree x hx) ..).trans hv', hmsg⟩
      · obtain rfl := List.mem_singleton.1 hq
        exact .quiet trivial .nil
    · have hanswer : Bag.Step Meets t.bag (.answer r.tid ⟨r.template, r.msg.destructive⟩ m)
          ⟨c, asks t.blockedList.entries⟩ := answer_step hatomic hmem hmatch hc
      refine ⟨(S.setBag o t.id _).setCall r.tid (.doing [] (.tuple m)),
        .silent (.act (hm.bag ht) hanswer (hv ▸ .answer)) (.refl _), ?_, ?_,
        List.forall_mem_nil _, hothers _, none_sent⟩
      · refine hm.setContain ht ⟨hatomic.requests, fun x hx => ?_, hatomic.blocked⟩ rfl (hpos _)
        split at hc
        · exact hatomic.contain x ((deleteFirst_sublist hc).subset hx)
        · exact hatomic.contain x (hc ▸ hx)
      · show Owes _ _ [] (r.answered t.id m ++ [])
        rw [List.append_nil]
        exact owes_answered (Function.update_self ..)
    · exact ⟨S, .same hm (cores_setObj ht rfl) rfl .nil (List.forall_mem_nil _)⟩

theorem answers_collect (hs : s.Sound) {copy : Bool} {dest : TsId} {p : Tuple}
    (h : (Act.collect tid copy ts dest p).exec s = some eff)
    (howes : Owes s S.calls [] (.collect tid copy ts dest p :: k)) :
    ∃ S', Answers live s S (.collect tid copy ts dest p :: k) eff (World.rest eff k) S' := by
  cases h
  cases howes with
  | quiet ha => exact ha.elim
  | collect hv hp =>
    refine ⟨S, ?_⟩
    rcases hl : s.lookup ts with _ | o <;> simp only [Server.onTs, hl]
    · exact .same hm rfl rfl .nil (List.forall_mem_nil _)
    · exact .same hm rfl rfl (.collectDest (idOf_eq_some.2 (hs.lookup ts o hl)) hv hp) (List.forall_mem_nil _)

theorem answers_collectDest (hs : s.Sound) {copy new : Bool} {dest : TsId} {p : Tuple}
    (h : (Act.collectDest tid copy new o dest p).exec s = some eff)
    (howes : Owes s S.calls [] (.collectDest tid copy new o dest p :: k)) :
    ∃ S', Answers live s S (.collectDest tid copy new o dest p :: k) eff (World.rest eff k) S' := by
  cases h
  cases howes with
  | quiet ha => exact ha.elim
  | collectDest ho hv hp =>
    refine ⟨S, ?_⟩
    rcases hl : s.lookup dest with _ | d <;> simp only [Server.onTs, hl]
    · cases new
      · exact .same hm rfl rfl (.makeDest ho hv hp) (List.forall_mem_nil _)
      · exact .same hm rfl rfl .nil (List.forall_mem_nil _)
    · exact .same hm rfl rfl (.collectAt ho (idOf_eq_some.2 (hs.lookup dest d hl)) hv hp) (List.forall_mem_nil _)

theorem answers_deleteRequest {ref : Holder}
    (h : (Act.deleteRequest tid ts ref).exec s = some eff)
    (howes : Owes s S.calls [] (.deleteRequest tid ts ref :: k)) :
    ∃ S', Answers live s S (.deleteRequest tid ts ref :: k) eff (World.rest eff k) S' := by
  cases h
  cases howes with
  | quiet ha => exact ha.elim
  | deleteRequest hv =>
    refine ⟨S, ?_⟩
    rcases hl : s.lookup ts with _ | o <;> simp only [Server.onTs, hl]
    · exact .same hm rfl rfl (.reply hv .nil) (List.forall_mem_nil _)
    · exact .same hm rfl rfl (.quiet trivial (.quiet trivial (.reply hv .nil))) (List.forall_mem_nil _)

/-- The scan of `collect` or `copy_collect` is over. -/
theorem answers_found {copy new : Bool} {d : ObjId} {dest : TsId} {p : Tuple} {c : TupleContainer}
    {l : List Tuple} {act : Bag.Act Tid Tuple Tuple}
    (hone : ∀ q, s.parked q + weight (Act.token 1 q) [.collectAt tid copy new o d p] ≤ 1)
    (ht : s.obj? o = some t) (ha : Atomic { t with ts := c })
    (hstep : Bag.Step Meets t.bag act { t with ts := c }.bag) (hatoms : ∀ x ∈ l, x.IsAtoms)
    (hmoves : Moves o t.id tid (S.calls tid) act (.doing (l.map (.put dest)) (.int l.length))) :
    Answers live s S [.collectAt tid copy new o d p] (.go (s.setObj o { t with ts := c })
        (collectLoop copy t.id dest l ++ (if new then [.garbage d] else []) ++ [.reply tid (.int l.length)]))
      (collectLoop copy t.id dest l ++ (if new then [.garbage d] else []) ++ [.reply tid (.int l.length)])
      ((S.setBag o t.id { t with ts := c }.bag).setCall tid (.doing (l.map (.put dest)) (.int l.length))) := by
  have htok := hone tid
  simp only [weight_cons, weight_nil, Act.token, if_true] at htok
  refine ⟨.silent (.act (hm.bag ht) hstep hmoves) (.refl _), hm.setContain ht ha rfl fun q hq => ?_, ?_,
    List.forall_mem_nil _, fun q hq => ?_, none_sent⟩
  · exact Function.update_of_ne (fun he => hq (by rw [he]; omega)) ..
  · rw [List.append_assoc]
    refine owes_collectLoop hatoms (.append (fun a ha => ?_) ?_)
    · split at ha
      · obtain rfl := List.mem_singleton.1 ha
        trivial
      · cases ha
    · exact .reply (Function.update_self ..) .nil
  · refine Function.update_of_ne (fun he => ?_) ..
    simp [he, Act.token] at hq

theorem answers_collectAt {copy new : Bool} {d : ObjId} {p : Tuple}
    (hone : ∀ q, s.parked q + weight (Act.token 1 q) (.collectAt tid copy new o d p :: k) ≤ 1)
    (h : (Act.collectAt tid copy new o d p).exec s = some eff)
    (howes : Owes s S.calls [] (.collectAt tid copy new o d p :: k)) :
    ∃ S', Answers live s S (.collectAt tid copy new o d p :: k) eff (World.rest eff k) S' := by
  have hid := idOf_kept h
  cases howes with
  | quiet ha => exact ha.elim
  | collectAt ho hd hv hp =>
    obtain ⟨t, ht, h⟩ := Server.onObj_eq_some.1 h
    obtain ⟨u, hu, h⟩ := Option.bind_eq_some_iff.1 h
    obtain ⟨t', ht', rfl⟩ := idOf_eq_some.1 ho
    obtain ⟨u', hu', rfl⟩ := idOf_eq_some.1 hd
    obtain rfl : t = t' := Option.some.inj (ht.symm.trans ht')
    obtain rfl : u = u' := Option.some.inj (hu.symm.trans hu')
    have hatomic := hm.atomic o t ht
    cases copy with
    | false =>
      have hafter : Atomic ((Op.collect p).after t) := hatomic.after hp
      have hcomes := collect_comes hatomic hp
      obtain ⟨c, hts⟩ : ∃ c, (t.collect p).ts = { t with ts := c } := ⟨_, (collect_frame p).1⟩
      unfold Op.acts at hcomes
      simp only [Op.after, hts] at hafter hcomes
      simp only [Bool.false_eq_true, if_false] at h
      rcases hr : (t.collect p).result with e | l
      · simp only [hr, hts] at h hcomes
        cases h
        obtain ⟨hlt, hi⟩ := List.getElem?_eq_some_iff.1 (hm.bag ht)
        refine ⟨S, .refl S, hm.setContain ht hafter ?_ fun _ _ => rfl, .nil,
          List.forall_mem_nil _, fun _ _ => rfl, none_sent⟩
        rw [← hcomes.eq_of_nil, ← hi, List.set_getElem_self]
      · simp only [hr, hts] at h hcomes
        cases h
        have hsub : (l : Multiset Tuple) ≤ t.ts.contain := hcomes.step.collect_le
        rw [show World.rest (Effect.go _ _) [] = _ from List.append_nil _]
        exact ⟨_, answers_found hm hone ht hafter hcomes.step
          (fun x hx => hatomic.contain x (Multiset.mem_of_le hsub hx)) (hv ▸ .collect)⟩
    | true =>
      have hcomes := copyCollect_comes (s := t) (p := p)
      have hts : (t.copyCollect p).ts = { t with ts := t.ts } := copyCollect_ts p
      unfold Op.acts at hcomes
      dsimp only at hcomes
      simp only [if_true] at h
      rcases hr : (t.copyCollect p).result with e | l
      · simp only [hr, hts] at h
        cases h
        exact ⟨S, .same hm (cores_setObj ht rfl) rfl .nil (List.forall_mem_nil _)⟩
      · simp only [hr, hts] at h hcomes
        cases h
        have hsub : (l : Multiset Tuple) ≤ t.ts.contain := hcomes.step.copy_le
        rw [show World.rest (Effect.go _ _) [] = _ from List.append_nil _]
        exact ⟨_, answers_found hm hone ht hatomic hcomes.step
          (fun x hx => hatomic.contain x (Multiset.mem_of_le hsub hx)) (hv ▸ .copy)⟩

/-- Every step of a thread is a step of the service, or none at all. -/
theorem answers_exec (hs : s.Sound) (hone : ∀ p, s.parked p + weight (Act.token 1 p) (a :: k) ≤ 1)
    (h : a.exec s = some eff) (howes : Owes s S.calls [] (a :: k)) :
    ∃ S', Answers live s S (a :: k) eff (World.rest eff k) S' := by
  cases a with
  | reply => exact answers_reply hm hone h howes
  | unblockRandom => exact answers_unblockRandom hm hone h howes
  | newTupleSpace => exact answers_newTupleSpace hm hone h howes
  | out => exact answers_out hm hs h howes
  | outAt => exact answers_outAt hm hone h howes
  | create => exact answers_create hm hone h howes
  | ensure => exact answers_ensure hm hone h howes
  | setBlocked => exact answers_setBlocked hm h howes
  | read => exact answers_read hm hs h howes
  | readAt => exact answers_readAt hm hone h howes
  | collect => exact answers_collect hm hs h howes
  | collectDest => exact answers_collectDest hm hs h howes
  | collectAt => exact answers_collectAt hm hone h howes
  | deleteRequest => exact answers_deleteRequest hm h howes
  | _ => exact ⟨S, answers_quiet hm trivial nofun h howes⟩

end

/-! ## Runs -/

/-- The service stands for the server and what its clients are waiting for. -/
structure Linear (w : World) (S : Service) : Prop where
  mirrors : Mirrors w.server S
  pool : ∀ acts ∈ w.pool, Owes w.server S.calls [] acts
  scripts : ∀ tid, ∀ m ∈ (w.clients tid).script, m.Atoms
  idle : ∀ tid ∈ w.live, (w.clients tid).waiting = false → S.calls tid = .idle
  fresh : ∀ tid, w.pthreadCount tid.pid < tid.count → S.calls tid = .idle
  one : OneReply w
  sound : w.Sound

variable {w w' : World} {e : Event}

theorem linear_init : Linear .init .init where
  mirrors := {
    bags := rfl
    atomic := fun o t h => by
      cases o with
      | zero => cases h; exact atomic_init .uts
      | succ o => cases h
    parked := fun o t h x hx => by
      cases o with
      | zero => cases h; cases hx
      | succ o => cases h }
  pool := nofun
  scripts := nofun
  idle := nofun
  fresh _ _ := rfl
  one := oneReply_init
  sound := ⟨sound_init, nofun, nofun⟩

theorem call_shown {m : Msg} (h : S.calls tid = .idle) :
    Shows Service.Step S [.call tid m] (S.setCall tid m.status) := by
  have hcalled : ∀ {l r}, Accepts m l r →
      Shows Service.Step S [.call tid m] (S.setCall tid (.doing l r)) := fun ha => by
    have haccept := Service.Step.accept (s := S.setCall tid (.called m)) (Function.update_self ..) ha
    rw [show (S.setCall tid (.called m)).setCall tid _ = S.setCall tid _ from
      congrArg (Service.mk S.bags) (Function.update_idem ..)] at haccept
    exact .visible (.call h) (.silent haccept (.refl _))
  cases m with
  | out => exact hcalled .out
  | deleteReference => exact hcalled .deleteReference
  | createTuplespace | read | collect | addReference => exact .visible (.call h) (.refl _)

theorem tokens_of_live (hw : OneReply w) (hl : tid ∈ w.live) (hwait : (w.clients tid).waiting = false) :
    w.server.parked tid = 0 ∧ poolWeight (Act.token 1 tid) w.pool = 0 :=
  Nat.add_eq_zero_iff.1 (hw.idle tid hl hwait)

theorem weight_pool {acts : List Act} (hacts : acts ∈ w.pool) (p : Tid) :
    weight (Act.token 1 p) acts ≤ poolWeight (Act.token 1 p) w.pool :=
  List.single_le_sum (fun _ _ => Nat.zero_le _) _ (List.mem_map_of_mem hacts)

theorem Linear.sent {m : Msg} {script : List Msg} (h : Linear w S) (hl : tid ∈ w.live)
    (hwait : (w.clients tid).waiting = false) (hscript : (w.clients tid).script = m :: script)
    (hw' : w' = w.sent tid m script) (hone : OneReply w') (hsound : w'.Sound) :
    Linear w' (S.setCall tid m.status) := by
  subst hw'
  obtain ⟨hparked, hpool⟩ := tokens_of_live h.one hl hwait
  have hatoms := h.scripts tid
  rw [hscript, List.forall_mem_cons] at hatoms
  refine ⟨h.mirrors.setCall hparked _, fun acts hacts => ?_, fun p => ?_, fun p hp hwp => ?_, fun p hp => ?_,
    hone, hsound⟩
  · rcases List.mem_append.1 hacts with hacts | hacts
    · refine (h.pool acts hacts).congr (fun _ _ h => h) fun p hp => Function.update_of_ne (fun he => hp ?_) ..
      have := weight_pool hacts p
      rw [he] at this ⊢
      omega
    · obtain rfl := List.mem_singleton.1 hacts
      exact owes_handler hatoms.1 (Function.update_self ..)
  · simp only [World.sent, World.setClient]
    split
    · exact hatoms.2
    · exact h.scripts p
  · have hne : p ≠ tid := by
      rintro rfl
      simp [World.sent, World.setClient] at hwp
    simp only [World.sent, World.setClient, if_neg hne] at hwp
    exact (Function.update_of_ne hne ..).trans (h.idle p hp hwp)
  · have hne : p ≠ tid := by
      rintro rfl
      exact (h.one.fresh p hp).2.2 hl
    exact (Function.update_of_ne hne ..).trans (h.fresh p hp)

theorem Linear.stepped {i : Nat} {acts : List Act} (h : Linear w S)
    (hi : w.pool[i]? = some (a :: acts)) (he : a.exec w.server = some eff)
    (hone : OneReply (w.stepped i eff acts)) (hsound : (w.stepped i eff acts).Sound) :
    ∃ S', Shows Service.Step S (shown w.live eff.sent) S' ∧ Linear (w.stepped i eff acts) S' := by
  have htotal : ∀ p, w.server.parked p + poolWeight (Act.token 1 p) w.pool ≤ 1 := fun p => by
    have := h.one.total p
    unfold World.tokens at this
    omega
  have hacts : a :: acts ∈ w.pool := List.mem_of_getElem? hi
  have hmine : ∀ p, w.server.parked p + weight (Act.token 1 p) (a :: acts) ≤ 1 := fun p => by
    have := htotal p
    have := weight_pool hacts p
    omega
  obtain ⟨S', hS⟩ : ∃ S', Answers w.live w.server S (a :: acts) eff (World.rest eff acts) S' :=
    answers_exec h.mirrors h.sound.server hmine he (h.pool _ hacts)
  -- whom this step answers has no token anywhere else
  have hothers : ∀ p, w.tokens 1 p = 0 → S'.calls p = S.calls p := fun p hp => by
    have := weight_pool hacts p
    unfold World.tokens at hp
    exact hS.others p (by omega)
  refine ⟨S', hS.shows, ?_, fun q hq => ?_, fun p => ?_, fun p hp hwp => ?_, fun p hp => ?_, hone, hsound⟩
  · rw [World.stepped_server]
    exact hS.mirrors
  · rw [World.stepped_server]
    rw [World.stepped_pool] at hq
    rcases List.mem_append.1 hq with hq | hq
    · obtain ⟨j, hj⟩ := List.mem_iff_getElem?.1 hq
      by_cases hij : i = j
      · subst hij
        obtain ⟨hlt, -⟩ := List.getElem?_eq_some_iff.1 hi
        rw [List.getElem?_set_self hlt] at hj
        exact Option.some.inj hj ▸ hS.goesOn
      · rw [List.getElem?_set_ne hij] at hj
        refine (h.pool q (List.mem_of_getElem? hj)).congr (idOf_kept he) fun p hp => hS.others p ?_
        have hadd : weight (Act.token 1 p) (a :: acts) + weight (Act.token 1 p) q ≤
            poolWeight (Act.token 1 p) w.pool := add_le_weight (weight (Act.token 1 p)) hij hi hj
        have := htotal p
        omega
    · exact hS.starts q hq
  · rw [World.stepped_clients]
    split
    · exact h.scripts p
    · split
      · exact h.scripts _
      · exact h.scripts p
  · rw [World.stepped_live] at hp
    rw [World.stepped_clients] at hwp
    rcases hsent : eff.sent with _ | m
    · rw [hsent] at hwp
      exact (hothers p (h.one.idle p hp hwp)).trans (h.idle p hp hwp)
    · simp only [hsent] at hwp
      by_cases hm : m.1 ∈ w.live ∧ p = m.1
      · obtain ⟨hlive, rfl⟩ := hm
        exact hS.idle m hsent hlive
      · rw [if_neg hm] at hwp
        exact (hothers p (h.one.idle p hp hwp)).trans (h.idle p hp hwp)
  · rw [World.stepped_pthreadCount] at hp
    exact (hothers p (h.one.fresh p hp).1).trans (h.fresh p hp)

theorem Mirrors.rehash (h : Mirrors s S) (ht : s.obj? o = some t) {d : Dict Tid Blocked}
    (hd : t.blockedList.Rehash d) : Mirrors (s.setObj o { t with blockedList := d }) S := by
  have hatomic := h.atomic o t ht
  have hbag : { t with blockedList := d }.bag = t.bag := congrArg (Bag.mk _) (asks_perm hd.symm)
  obtain ⟨hlt, hi⟩ := List.getElem?_eq_some_iff.1 (h.bag ht)
  refine h.setObj ht rfl ?_ ⟨hatomic.requests, hatomic.contain, fun x hx => ?_⟩ (fun _ _ _ => rfl) fun x hx => ?_
  · rw [hbag, ← hi, List.set_getElem_self]
  · exact hatomic.blocked x ((Dict.Rehash.mem_iff hd).1 hx)
  · exact h.parked o t ht x ((Dict.Rehash.mem_iff hd).1 hx)

theorem Linear.next (h : Linear w S) (hs : WorldStep w e w') (ha : e.Atoms) :
    ∃ S', Shows Service.Step S (w.seen e) S' ∧ Linear w' S' := by
  have hone : OneReply w' := h.one.next hs
  have hsound : w'.Sound := h.sound.next hs
  obtain ⟨hp, hn⟩ := hs
  cases e with
  | registerProcess =>
    cases hn
    exact ⟨S, .refl S, ⟨h.mirrors.bags, h.mirrors.atomic, h.mirrors.parked⟩,
      fun acts hacts => (h.pool acts hacts).congr (fun _ _ h => h) fun _ _ => rfl, h.scripts, h.idle, h.fresh,
      hone, hsound⟩
  | registerThread pid =>
    obtain ⟨tids, -, rfl⟩ := World.next_registerThread hn
    refine ⟨S, .refl S, ⟨h.mirrors.bags, h.mirrors.atomic, h.mirrors.parked⟩,
      fun acts hacts => (h.pool acts hacts).congr (fun _ _ h => h) fun _ _ => rfl, h.scripts,
      fun p hp hwp => ?_, fun p hp => ?_, hone, hsound⟩
    · rcases List.mem_append.1 hp with hp | hp
      · exact h.idle p hp hwp
      · obtain rfl := List.mem_singleton.1 hp
        exact h.fresh _ (Nat.lt_succ_self _)
    · refine h.fresh p ?_
      simp only [World.registered] at hp
      split at hp
      · rename_i heq
        rw [heq]
        omega
      · exact hp
  | begin t op =>
    obtain ⟨-, -, -, rfl⟩ := World.next_begin hn
    refine ⟨S, .refl S, by simpa using h.mirrors, by simpa using h.pool, fun p => ?_, fun p hp hwp => ?_,
      by simpa using h.fresh, hone, hsound⟩
    · rw [World.begun_clients]
      split
      · exact atoms_script ha
      · exact h.scripts p
    · rw [World.begun_live] at hp
      rw [World.begun_clients] at hwp
      split at hwp
      · rename_i heq
        exact h.idle p hp (heq ▸ hwp)
      · exact h.idle p hp hwp
  | send t =>
    obtain ⟨hl, hwait, m, script, hscript, hw'⟩ := World.next_send hn
    refine ⟨S.setCall t m.status, ?_, h.sent hl hwait hscript hw' hone hsound⟩
    rw [World.seen, hscript]
    exact call_shown (h.idle t hl hwait)
  | act i =>
    obtain ⟨a, acts, eff, hi, he, rfl⟩ := World.next_act hn
    rw [World.seen, hi]
    simp only [he, Option.bind_some]
    exact h.stepped hi he hone hsound
  | depart t =>
    obtain ⟨-, rfl⟩ := World.next_depart hn
    refine ⟨S, .refl S, by simpa using h.mirrors, fun acts hacts => ?_, by simpa using h.scripts,
      fun p hp hwp => ?_, by simpa using h.fresh, hone, hsound⟩
    · rw [World.departed_server]
      rw [World.departed_pool] at hacts
      rcases List.mem_append.1 hacts with hacts | hacts
      · exact h.pool acts hacts
      · obtain rfl := List.mem_singleton.1 hacts
        exact owes_quiet (quiet_removeProcess t)
    · rw [World.departed_live] at hp
      rw [World.departed_clients] at hwp
      exact h.idle p (List.mem_of_mem_filter hp) hwp
  | finalise o =>
    obtain ⟨t, -, -, -, rfl⟩ := World.next_finalise hn
    refine ⟨S, .refl S, h.mirrors, fun acts hacts => ?_, h.scripts, h.idle, h.fresh, hone, hsound⟩
    rcases List.mem_append.1 hacts with hacts | hacts
    · exact h.pool acts hacts
    · obtain rfl := List.mem_singleton.1 hacts
      exact owes_quiet (quiet_finaliser t)
  | rehash o blocked =>
    obtain ⟨t, ht, hd, rfl⟩ := World.next_rehash hp hn
    refine ⟨S, .refl S, h.mirrors.rehash ht hd, fun acts hacts => ?_, h.scripts, h.idle, h.fresh, hone, hsound⟩
    refine (h.pool acts hacts).congr (fun o' ts hid => ?_) fun _ _ => rfl
    obtain ⟨u, hu, rfl⟩ := idOf_eq_some.1 hid
    by_cases ho : o' = o
    · subst ho
      obtain rfl : t = u := Option.some.inj (ht.symm.trans hu)
      exact idOf_eq_some.2 ⟨_, obj?_setObj_self ht _, rfl⟩
    · exact idOf_eq_some.2 ⟨u, (obj?_setObj_ne ho).trans hu, rfl⟩

/-- The steps of a server whose clients use data that is compared by value. -/
def AtomStep (w : World) (e : Event) (w' : World) : Prop := e.Atoms ∧ WorldStep w e w'

theorem linear_of_run {tr : List (World × Event)} (h : Run AtomStep .init tr w) :
    ∃ S, Shows Service.Step .init (tr.flatMap fun x => x.1.seen x.2) S ∧ Linear w S :=
  h.simulates (R := Linear) (fun _ _ _ _ hR hs => hR.next hs.2 hs.1) linear_init

/-- In every run of a server the clients see what they would see of a list of bags that takes their
messages one at a time, and the bags are those of the server. -/
theorem server_linearizable {tr : List (World × Event)} (h : Run AtomStep .init tr w) :
    ∃ S, Shows Service.Step .init (tr.flatMap fun x => x.1.seen x.2) S ∧ S.bags = w.server.bags := by
  obtain ⟨S, hshows, hlinear⟩ := linear_of_run h
  exact ⟨S, hshows, hlinear.mirrors.bags⟩

/-- The reader is answered with what the writer put in after it had asked. -/
theorem server_linearizable_wakeUp : ∃ tr w S, Run AtomStep .init tr w ∧
    tr.map Prod.snd = wakeUp ⟨⟨0⟩, 1⟩ ⟨⟨0⟩, 2⟩ ∧
    tr.flatMap (fun x => x.1.seen x.2) = [.call ⟨⟨0⟩, 1⟩ (.read .in_ .uts [.integer 5]),
      .call ⟨⟨0⟩, 2⟩ (.out .uts [.integer 5]), .answer ⟨⟨0⟩, 1⟩ (.tuple [.integer 5])] ∧
    Shows Service.Step .init (tr.flatMap fun x => x.1.seen x.2) S ∧ S.bags = w.server.bags := by
  have hexec : (exec? World.next .init (wakeUp ⟨⟨0⟩, 1⟩ ⟨⟨0⟩, 2⟩)).isSome = true := by decide
  obtain ⟨w, hw⟩ := Option.isSome_iff_exists.1 hexec
  obtain ⟨hr, htr⟩ := Run.of_exec? (P := fun w e => e.Atoms ∧ e.Proper w)
    (by simp [wakeUp, Event.Proper, Event.Atoms, ClientOp.Atoms, Tuple.IsAtoms, Tuple.IsTemplate,
      Value.IsAtom]) hw
  have hrun : Run AtomStep .init _ w := hr.imp fun _ _ _ h => and_assoc.1 h
  obtain ⟨S, hshows, hbags⟩ := server_linearizable hrun
  exact ⟨_, w, S, hrun, htr, rfl, hshows, hbags⟩

end PyLinda
