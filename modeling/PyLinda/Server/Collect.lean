import PyLinda.Partition.Conserve
import PyLinda.Server.Alone
import PyLinda.Server.Tables

/-!
# collect on a server

The handler of `collect` takes all its finds out of the source and then, one by
one, moves the references in a find and puts it into the destination. It passes
`changeOwner` the object of the source in the place of its id, so the first find
with a reference in it ends the handler, and the finds behind it are lost.
-/

namespace PyLinda

open Lib

/-- The tuple that a started thread hands to a taker blocked on `u`. -/
def handed (u : TupleSpace) (acts : List Act) : Option Tuple :=
  match acts.getLast? with
  | some (.reply tid (.tuple m)) =>
    if (u.blockedList.get? tid).any Blocked.destructive then some m else none
  | _ => none

/-- The references to `e` in the tuples. -/
def occurrences (e : TsId) (tups : List Tuple) : Nat := (tups.flatMap Value.scanTuple).count e

/-- The handler of `collect` from `t`, the object `o`, to `u`, the object `d`, on the
tables `s` has ended and done what it is for. -/
structure Collected (s : Server) (tid : Tid) (o d : ObjId) (t u : TupleSpace) (template : Tuple)
    (c : Alone) : Prop where
  ended : c.acts = []
  replied : c.sent = [(tid, .int (finds template t.ts.contain).length)]
  source : ∃ t', c.server.obj? o = some t' ∧
    t'.ts.contain = t.ts.contain.filter fun m => ¬ Matches m template
  dest : ∃ u' kept, c.server.obj? d = some u' ∧ u'.ts.contain = u.ts.contain ++ kept ∧
    (finds template t.ts.contain).Perm (kept ++ c.spawned.filterMap (handed u))
  refs : ∀ e o' x, s.lookup e = some o' → s.obj? o' = some x → e ≠ .uts →
    ∃ x', c.server.obj? o' = some x' ∧ ∀ h : Holder,
      x'.refs.count h +
          (if h = .ts t.id then occurrences e (finds template t.ts.contain) else 0) =
        x.refs.count h +
          (if h = .ts u.id then occurrences e (finds template t.ts.contain) else 0)

/-- The waiters still there once `m` has come by: a reader that it matches goes, the
first such taker goes and keeps it. -/
def stayBlocked (m : Tuple) : List (Tid × Blocked) → List (Tid × Blocked)
  | [] => []
  | x :: l =>
    if Matches x.2.pattern m then if x.2.destructive then l else stayBlocked m l
    else x :: stayBlocked m l

/-- The waiters in the list deal with the tuples put one after another: none of
those the scan gets to raises, and a taker that is woken asked for the tuple. -/
def Served : List Tuple → List (Tid × Blocked) → Prop
  | [], _ => True
  | m :: ms, l =>
    (∀ x, Visited m l x → (∀ e, ¬ Raises x.2.pattern m e) ∧
      (x.2.destructive = true → Matches x.2.pattern m → x.2.pattern = m)) ∧
    Served ms (stayBlocked m l)

/-- The tuples put one after another; `none` when one of the scans raises. -/
def outAll (u : TupleSpace) : List Tuple → Option (TupleSpace × List Spawn)
  | [] => some (u, [])
  | m :: ms =>
    match (u._out m).result with
    | .error _ => none
    | .ok () => (outAll (u._out m).ts ms).map fun r => (r.1, (u._out m).spawned ++ r.2)

variable {u : TupleSpace}

/-! ## The waiters -/

theorem checkBlocked_stay {m : Tuple} {l : List (Tid × Blocked)}
    (h : ∀ x, Visited m l x → ∀ e, ¬ Raises x.2.pattern m e) :
    (checkBlocked m l).1 = stayBlocked m l := by
  induction l with
  | nil => rfl
  | cons x l ih =>
    have hx := h x (visited_cons_self m x l)
    obtain ⟨tid, b⟩ := x
    have hrest (hns : ¬ Stops m (tid, b)) : (checkBlocked m l).1 = stayBlocked m l :=
      ih fun y hy => h y (hy.cons hns)
    rcases checkBlocked_cons m tid b l with ⟨hs, heq⟩ | ⟨e, hr, -⟩ | ⟨hm, hd, heq⟩ | ⟨hm, hd, heq⟩
    · have hnm : ¬ Matches b.pattern m := fun hm => hm.not_skips hs
      simp [heq, stayBlocked, hnm, hrest (Skips.not_stops hs)]
    · exact absurd hr (hx e)
    · simp [heq, stayBlocked, hm, hd]
    · simp [heq, stayBlocked, hm, hd, hrest (not_stops_of_read hm hd)]

theorem stayBlocked_subset (m : Tuple) (l : List (Tid × Blocked)) : stayBlocked m l ⊆ l := by
  induction l with
  | nil => exact List.Subset.refl _
  | cons x l ih =>
    unfold stayBlocked
    split
    · split
      · exact List.subset_cons_self x l
      · exact fun y hy => List.mem_cons_of_mem x (ih hy)
    · exact List.cons_subset_cons x ih

/-- Waiters for atoms and type formals deal with any tuples of atoms. -/
theorem served_templates {ms : List Tuple} {l : List (Tid × Blocked)}
    (hms : ∀ m ∈ ms, m.IsAtoms) (hl : ∀ x ∈ l, x.2.pattern.IsTemplate) : Served ms l := by
  induction ms generalizing l with
  | nil => trivial
  | cons m ms ih =>
    rw [List.forall_mem_cons] at hms
    refine ⟨fun x hx => ⟨fun e hr => ?_, fun _ hm => ?_⟩,
      ih hms.2 fun x hx => hl x (stayBlocked_subset m l hx)⟩
    · rcases doesMatch_atoms (hl x hx.mem) hms.1 with ⟨h, -⟩ | ⟨h, -⟩
      · rw [Matches, hr.2] at h; cases h
      · rw [hr.2] at h
        cases h
        exact hr.1 rfl
    · exact (matches_atoms_iff (hl x hx.mem) hms.1).1 hm

/-! ## Putting the finds -/

theorem outAll_frame {ms : List Tuple} {u' : TupleSpace} {sp : List Spawn}
    (h : outAll u ms = some (u', sp)) : u'.id = u.id ∧ u'.refs = u.refs := by
  induction ms generalizing u sp with
  | nil =>
    cases h
    exact ⟨rfl, rfl⟩
  | cons m ms ih =>
    simp only [outAll] at h
    split at h
    · cases h
    · obtain ⟨r, hr, he⟩ := Option.map_eq_some_iff.1 h
      cases he
      obtain ⟨h1, h2⟩ := @ih _ r.2 hr
      exact ⟨by rw [h1, TupleSpace._out_id], by rw [h2, TupleSpace._out_refs]⟩

/-- The scans raise nothing exactly when they get to nobody who raises. -/
theorem out_ok_iff (hreq : u.requests = []) (m : Tuple) : (u._out m).result = .ok () ↔
    ∀ x, Visited m u.blockedList.entries x → ∀ e, ¬ Raises x.2.pattern m e := by
  rcases checkBlocked_end m u.blockedList.entries with
    ⟨hend, hno, -⟩ | ⟨pre, x, post, hl, hpre, hm, hd, hend⟩ | ⟨pre, x, post, e, hl, hpre, hr, hend⟩
  · refine iff_of_true ?_ fun x hx e he => hno x hx.mem (.inr ⟨e, he⟩)
    rcases TupleSpace._out_cases hreq m with ⟨-, -, hr⟩ | ⟨-, -, hr⟩ | ⟨e, h, -⟩
    · exact hr
    · exact hr
    · rw [hend] at h; cases h
  · refine iff_of_true ?_ fun y hy e he => ?_
    · rcases TupleSpace._out_cases hreq m with ⟨-, -, hr⟩ | ⟨-, -, hr⟩ | ⟨e, h, -⟩
      · exact hr
      · exact hr
      · rw [hend] at h; cases h
    · obtain rfl := hy.stops_unique ⟨pre, post, hl, hpre⟩ (.inr ⟨e, he⟩) (.inl ⟨hm, hd⟩)
      rw [Matches, he.2] at hm
      cases hm
  · refine iff_of_false ?_ fun h => h x ⟨pre, post, hl, hpre⟩ e hr
    rcases TupleSpace._out_cases hreq m with ⟨h, -⟩ | ⟨h, -⟩ | ⟨e, -, -, h⟩
    · rw [hend] at h; cases h
    · rw [hend] at h; cases h
    · rw [h]
      simp

/-- One `_out` stores the tuple or hands its pattern to one taker. -/
theorem out_given (hreq : u.requests = []) {m : Tuple} {f : Spawn → Option Tuple}
    (hf : ∀ x ∈ u.blockedList.entries, f (.returnTuple x.1 x.2.pattern x.2.pattern) =
      if x.2.destructive then some x.2.pattern else none)
    (hok : (u._out m).result = .ok ()) :
    ((∀ x, Visited m u.blockedList.entries x → x.2.destructive = true →
        ¬ Matches x.2.pattern m) ∧
      (u._out m).ts.ts.contain = u.ts.contain ++ [m] ∧ (u._out m).spawned.filterMap f = []) ∨
    ∃ x, Visited m u.blockedList.entries x ∧ x.2.destructive = true ∧ Matches x.2.pattern m ∧
      (u._out m).ts.ts.contain = u.ts.contain ∧
      (u._out m).spawned.filterMap f = [x.2.pattern] := by
  rw [TupleSpace._out_spawned hreq]
  rcases consumed_woken m hf with ⟨hnt, hnil⟩ | ⟨x, hv, hd, hm, htaken, hone⟩
  · rcases TupleSpace._out_cases hreq m with ⟨hp, hc, -⟩ | ⟨h, -⟩ | ⟨e, -, -, hr⟩
    · refine .inl ⟨fun x hv hd hm => ?_, hc, hnil⟩
      rcases checkBlocked_end m u.blockedList.entries with ⟨-, hno, -⟩ | ⟨_, _, _, -, -, -, -, h⟩ |
        ⟨_, _, _, _, -, -, -, h⟩
      · exact hno x hv.mem (.inl ⟨hm, hd⟩)
      · exact absurd h hnt
      · rw [hp] at h; cases h
    · exact absurd h hnt
    · rw [hok] at hr; cases hr
  · rcases TupleSpace._out_cases hreq m with ⟨h, -⟩ | ⟨-, hc, -⟩ | ⟨e, h, -⟩
    · rw [htaken] at h; cases h
    · exact .inr ⟨x, hv, hd, hm, by rw [hc], hone⟩
    · rw [htaken] at h; cases h

section
variable {f : Spawn → Option Tuple}

theorem outAll_served (hreq : u.requests = []) {ms : List Tuple}
    (hf : ∀ x ∈ u.blockedList.entries, f (.returnTuple x.1 x.2.pattern x.2.pattern) =
      if x.2.destructive then some x.2.pattern else none)
    (hs : Served ms u.blockedList.entries) :
    ∃ u' sp kept, outAll u ms = some (u', sp) ∧ u'.ts.contain = u.ts.contain ++ kept ∧
      ms.Perm (kept ++ sp.filterMap f) := by
  induction ms generalizing u with
  | nil => exact ⟨u, [], [], rfl, by simp, by simp⟩
  | cons m ms ih =>
    obtain ⟨hm, hs⟩ := hs
    have hok : (u._out m).result = .ok () := (out_ok_iff hreq m).2 fun x hx => (hm x hx).1
    rw [← checkBlocked_stay fun x hx => (hm x hx).1, ← TupleSpace._out_blockedList] at hs
    obtain ⟨u', sp, kept, hout, hc, hp⟩ := ih (by simpa using hreq)
      (fun x hx => hf x ((checkBlocked_sublist m _).subset (by simpa using hx))) hs
    refine ⟨u', (u._out m).spawned ++ sp, ?_⟩
    have hall : outAll u (m :: ms) = some (u', (u._out m).spawned ++ sp) := by
      simp [outAll, hok, hout]
    rcases out_given hreq hf hok with ⟨-, hcm, hnil⟩ | ⟨x, hv, hd, hmx, hcm, hone⟩
    · refine ⟨m :: kept, hall, by rw [hc, hcm]; simp, ?_⟩
      rw [List.filterMap_append, hnil]
      exact hp.cons m
    · refine ⟨kept, hall, by rw [hc, hcm], ?_⟩
      rw [List.filterMap_append, hone, (hm x hv).2 hd hmx]
      exact (hp.cons m).trans List.perm_middle.symm

/-- Where only atoms are handed over, to takers, the waiters have dealt with them. -/
theorem served_of_outAll (hreq : u.requests = []) {ms : List Tuple} (hms : ∀ m ∈ ms, m.IsAtoms)
    (hf : ∀ x ∈ u.blockedList.entries, f (.returnTuple x.1 x.2.pattern x.2.pattern) =
      if x.2.destructive then some x.2.pattern else none)
    {u' : TupleSpace} {sp : List Spawn} (hout : outAll u ms = some (u', sp))
    (hat : ∀ p ∈ sp.filterMap f, p.IsAtoms) : Served ms u.blockedList.entries := by
  induction ms generalizing u sp with
  | nil => trivial
  | cons m ms ih =>
    rw [List.forall_mem_cons] at hms
    simp only [outAll] at hout
    split at hout
    · cases hout
    rename_i hok
    obtain ⟨r, hr, he⟩ := Option.map_eq_some_iff.1 hout
    cases he
    simp only [List.filterMap_append, List.mem_append] at hat
    have hrest : Served ms (u._out m).ts.blockedList.entries := ih (by simpa using hreq) hms.2
      (fun x hx => hf x ((checkBlocked_sublist m _).subset (by simpa using hx))) hr
      fun p hp => hat p (.inr hp)
    rw [TupleSpace._out_blockedList, checkBlocked_stay ((out_ok_iff hreq m).1 hok)] at hrest
    refine ⟨fun x hx => ⟨(out_ok_iff hreq m).1 hok x hx, fun hd hm => ?_⟩, hrest⟩
    rcases out_given hreq hf hok with ⟨hno, -⟩ | ⟨y, hy, hyd, hym, -, hone⟩
    · exact absurd hm (hno x hx hd)
    · obtain rfl := hx.stops_unique hy (.inl ⟨hm, hd⟩) (.inl ⟨hym, hyd⟩)
      have hp : x.2.pattern.IsAtoms := hat _ (.inl (by simp [hone]))
      exact (matches_atoms_iff hp.isTemplate hms.1).1 hm

end

/-- The tuples are all in store or handed to takers exactly when the waiters deal
with them: a pattern that an atomic tuple matches by mistake is not atomic, so no
mistake makes up for another. -/
theorem outAll_iff (hreq : u.requests = []) {ms : List Tuple} (hms : ∀ m ∈ ms, m.IsAtoms) :
    (∃ u' sp kept, outAll u ms = some (u', sp) ∧ u'.ts.contain = u.ts.contain ++ kept ∧
        ms.Perm (kept ++ sp.filterMap (Spawn.consumed u))) ↔
      Served ms u.blockedList.entries := by
  have hf : ∀ x ∈ u.blockedList.entries, Spawn.consumed u
      (.returnTuple x.1 x.2.pattern x.2.pattern) =
        if x.2.destructive then some x.2.pattern else none := fun _ hx => consumed_returnTuple hx
  constructor
  · rintro ⟨u', sp, kept, hout, -, hp⟩
    refine served_of_outAll hreq hms hf hout fun p hpm => hms p (hp.symm.subset ?_)
    exact List.mem_append_right _ hpm
  · exact outAll_served hreq hf

/-- What a started thread hands over is what the operation meant for the taker. -/
theorem handed_thread (d : ObjId) (ts : TsId) (sp : Spawn) :
    handed u (sp.thread d ts) = sp.consumed u := by
  cases sp with
  | returnTuple tid m p => simp only [handed, Spawn.thread, Spawn.consumed, List.getLast?_concat]
  | forward node m => rfl
  | addTuples p => rfl

/-! ## The loop of the handler -/

variable {s : Server} {o d : ObjId} {ts : TsId} {P : Alone → Prop} {k : List Act}
  {sp : List (List Act)} {snt : List (Tid × Reply)}

/-- A find with a reference ends the handler: there is no such tuplespace, or the
object that `changeOwner` names as the owner owns no reference. -/
theorem not_eventually_changeOwner (hs : s.Sound) (hP : ∀ c, c.acts ≠ [] → ¬ P c) {m : Tuple}
    (hm : m.tsRefs ≠ []) (dest : TsId) :
    ¬ Alone.Eventually P ⟨s, changeOwner m (.obj ts) (.ts dest) ++ k, sp, snt⟩ := by
  obtain ⟨e, es, he⟩ := List.exists_cons_of_ne_nil hm
  have huts : e ≠ .uts := by
    have hmem : e ∈ m.tsRefs := by simp [he]
    obtain ⟨v, -, hv⟩ := List.mem_filterMap.1 hmem
    rintro rfl
    unfold Value.tsRef? at hv
    split at hv <;> simp_all
  simp only [changeOwner, he, List.flatMap_cons, List.cons_append, List.nil_append]
  have hne : ∀ {s a k sp snt}, ¬ P ⟨s, a :: k, sp, snt⟩ := hP _ (by simp)
  cases hl : s.lookup e with
  | none =>
    rw [Alone.eventually_stuck]
    · exact hne
    · exact Alone.step_of_raise s .keyError (by simp [Act.exec, Server.onTs, hl])
  | some x =>
    obtain ⟨t, ht, hid⟩ := hs.lookup e x hl
    rw [← hid] at huts
    have hx := obj?_setObj_self ht { t with refs := t.refs ++ [.ts dest] }
    have hno : Holder.obj ts ∉ t.refs ++ [Holder.ts dest] := by
      rw [List.mem_append, List.mem_singleton]
      rintro (hr | hr)
      · exact hs.refs x t ht _ hr
      · cases hr
    rw [Alone.eventually_step (Alone.step_of_go s [.addreference x (.ts dest)] (by
        simp [Act.exec, Server.onTs, hl])) hne, List.singleton_append,
      Alone.eventually_step (Alone.step_of_go
        (s.setObj x { t with refs := t.refs ++ [.ts dest] }) [] (by
        simp [Act.exec, Server.onObj, ht, huts])) hne, List.nil_append,
      Alone.eventually_step (Alone.step_of_go (s.setObj x { t with refs := t.refs ++ [.ts dest] })
        [.removereference x (.obj ts), .garbage x] (by
        simp [Act.exec, Server.onTs, hl])) hne,
      List.cons_append, Alone.eventually_stuck]
    · exact hne
    · refine Alone.step_of_raise (s.setObj x { { t with refs := t.refs ++ [Holder.ts dest] } with
        killlock := t.killlock + 1 }) .systemError ?_
      simp [Act.exec, Server.onObj, hx, huts, hno]

theorem exec_outAt (hu : s.obj? d = some u) (m : Tuple) : (Act.outAt d m).exec s = some {
    server := s.setObj d (u._out m).ts
    spawned := (u._out m).spawned.map (Spawn.thread d u.id)
    raised := match (u._out m).result with
      | .error e => some e
      | .ok () => none } := by
  rcases hr : (u._out m).result with e | _ <;> simp [Act.exec, Server.onObj, hu, hr]

/-- The loop gets through its tuples when none has a reference and no `_out` raises. -/
theorem eventually_collectLoop (hs : s.Sound) (hP : ∀ c, c.acts ≠ [] → ¬ P c) (ms : List Tuple)
    (hu : s.obj? d = some u) (hl : s.lookup u.id = some d) (r : Reply) (tid : Tid) :
    Alone.Eventually P ⟨s, collectLoop false ts u.id ms ++ [.reply tid r], sp, snt⟩ ↔
      (∀ m ∈ ms, m.tsRefs = []) ∧ ∃ u' l, outAll u ms = some (u', l) ∧
        P ⟨s.setObj d u', [], sp ++ l.map (Spawn.thread d u.id), snt ++ [(tid, r)]⟩ := by
  have hne : ∀ {s a k sp snt}, ¬ P ⟨s, a :: k, sp, snt⟩ := hP _ (by simp)
  induction ms generalizing s u sp with
  | nil =>
    have hself : s.setObj d u = s := by
      obtain ⟨hlt, rfl⟩ := List.getElem?_eq_some_iff.1 hu
      simp [Server.setObj]
    have hend : Alone.Eventually P ⟨s, [], sp, snt ++ [(tid, r)]⟩ ↔
        P ⟨s, [], sp, snt ++ [(tid, r)]⟩ := Alone.eventually_stuck rfl
    have hreply : Alone.step ⟨s, [.reply tid r], sp, snt⟩ =
        some ⟨s, [], sp, snt ++ [(tid, r)]⟩ := by simp [Alone.step, Act.exec]
    simp only [collectLoop, List.flatMap_nil, List.nil_append]
    rw [Alone.eventually_step hreply hne, hend]
    constructor
    · intro h
      exact ⟨by simp, u, [], rfl, by simpa [hself] using h⟩
    · rintro ⟨-, u', l, hul, h⟩
      cases hul
      simpa [hself] using h
  | cons m ms ih =>
    have hloop : collectLoop false ts u.id (m :: ms) ++ [.reply tid r] =
        changeOwner m (.obj ts) (.ts u.id) ++
          .out u.id m .keyError :: (collectLoop false ts u.id ms ++ [.reply tid r]) := by
      simp [collectLoop]
    rw [hloop]
    by_cases hm : m.tsRefs = []
    · simp only [changeOwner, hm, List.flatMap_nil, List.nil_append]
      rw [Alone.eventually_step (Alone.step_of_go s [.outAt d m] (by
        simp [Act.exec, Server.onTs, hl])) hne, List.singleton_append]
      rcases hr : (u._out m).result with e | _
      · rw [Alone.eventually_stuck]
        · simp [hne, outAll, hr]
        · simp [Alone.step, exec_outAt hu, hr]
      · have hex := exec_outAt hu m
        have hs' : (s.setObj d (u._out m).ts).Sound := hs.exec (a := .outAt d m) trivial hex
        have hstep : Alone.step ⟨s, .outAt d m :: (collectLoop false ts u.id ms ++ [.reply tid r]),
            sp, snt⟩ = some ⟨s.setObj d (u._out m).ts, collectLoop false ts u.id ms ++ [.reply tid r],
              sp ++ (u._out m).spawned.map (Spawn.thread d u.id), snt⟩ := by
          simp [Alone.step, hex, hr]
        have hid : (u._out m).ts.id = u.id := TupleSpace._out_id m
        have hrest := @ih _ _ (sp ++ (u._out m).spawned.map (Spawn.thread d u.id)) hs'
          (obj?_setObj_self hu _) (by rw [hid]; exact hl)
        simp only [hid] at hrest
        refine (Alone.eventually_step hstep hne).trans (hrest.trans ?_)
        simp only [outAll, hr, setObj_setObj, List.forall_mem_cons, hm, true_and]
        refine and_congr_right fun _ => ?_
        cases outAll (u._out m).ts ms with
        | none => simp
        | some x =>
          obtain ⟨v, l⟩ := x
          simp only [Option.some.injEq, Option.map_some, Prod.mk.injEq]
          constructor
          · rintro ⟨u', l', ⟨rfl, rfl⟩, h⟩
            exact ⟨_, _, ⟨rfl, rfl⟩, by simpa using h⟩
          · rintro ⟨u', l', ⟨rfl, rfl⟩, h⟩
            exact ⟨_, _, ⟨rfl, rfl⟩, by simpa using h⟩
    · have := @not_eventually_changeOwner s ts P
        (.out u.id m .keyError :: (collectLoop false ts u.id ms ++ [.reply tid r])) sp snt hs hP m
        hm u.id
      simp [this, hm]

/-! ## What the handler comes to -/

theorem isAtoms_scan {m : Tuple} (hm : m.IsAtoms) {e : TsId} (he : e ∈ Value.scanTuple m) :
    e = .uts ∨ e ∈ m.tsRefs := by
  induction m with
  | nil => cases he
  | cons v m ih =>
    obtain ⟨hv, hm⟩ := List.forall_mem_cons.1 hm
    simp only [Value.scanTuple, List.mem_append] at he
    rcases he with he | he
    · cases v with
      | tsref ts =>
        obtain rfl : e = ts := by simpa [Value.scan] using he
        cases e with
        | uts => exact .inl rfl
        | sid n => exact .inr (by simp [Tuple.tsRefs, Value.tsRef?])
      | tuple vs => exact hv.elim
      | sum v n => exact hv.elim
      | _ => simp [Value.scan] at he
    · refine (ih hm he).imp_right fun h => ?_
      obtain ⟨w, hw, hwe⟩ := List.mem_filterMap.1 h
      exact List.mem_filterMap.2 ⟨w, List.mem_cons_of_mem v hw, hwe⟩

theorem occurrences_eq_zero {tups : List Tuple} (hatoms : ∀ m ∈ tups, m.IsAtoms)
    (hrefs : ∀ m ∈ tups, m.tsRefs = []) {e : TsId} (he : e ≠ .uts) : occurrences e tups = 0 := by
  refine List.count_eq_zero.2 fun hmem => ?_
  obtain ⟨m, hm, hme⟩ := List.mem_flatMap.1 hmem
  rcases isAtoms_scan (hatoms m hm) hme with h | h
  · exact he h
  · rw [hrefs m hm] at h
    cases h

/-- On atoms the deletions take out just the finds. -/
theorem collect_atoms {t : TupleSpace} (hatoms : ∀ m ∈ t.ts.contain, m.IsAtoms)
    {template : Tuple} (hno : ∀ m ∈ t.ts.contain, ∀ e, ¬ Raises m template e) :
    t.collect template = ⟨{ t with ts := ⟨t.ts.contain.filter fun m => ¬ Matches m template⟩ }, [],
      .ok (finds template t.ts.contain)⟩ := by
  rcases hm : t.ts.matchTuples template with e | l
  · obtain ⟨m, hmem, hr⟩ := matchAll_error hm
    exact absurd hr (hno m hmem e)
  obtain ⟨rfl, -⟩ := matchAll_ok hm
  have hself : ∀ m ∈ t.ts.contain, Matches m m := fun m hmem =>
    matches_self fun v hv => doesMatchValue_self (.atom (hatoms m hmem v hv))
  have htold : ToldApart template [] t.ts.contain := by
    intro pre r post hl hr m hmem hnm
    have hmc : m ∈ t.ts.contain := by
      rw [List.nil_append] at hmem
      simp [hl, hmem]
    rcases doesMatch_atoms (hatoms m hmc).isTemplate (hatoms r (by simp [hl])) with
      ⟨-, he⟩ | ⟨h, -⟩
    · exact absurd (he ▸ hr) hnm
    · exact h
  have hdel := deleteFound_toldApart hself (fun m hm => absurd hm List.not_mem_nil) htold
  simp only [List.nil_append, deleteFound] at hdel
  rw [TupleSpace.collect_ok hm]
  simp [hdel, List.map_map, Function.comp_def]

theorem exec_collectAt {t t' : TupleSpace} {template : Tuple} {tups : List Tuple}
    (ht : s.obj? o = some t) (hu : s.obj? d = some u)
    (hcol : t.collect template = ⟨t', [], .ok tups⟩) (tid : Tid) :
    (Act.collectAt tid false false o d template).exec s = some (.go (s.setObj o t')
      (collectLoop false t.id u.id tups ++ [.reply tid (.int tups.length)])) := by
  simp [Act.exec, Server.onObj, ht, hu, hcol]

section
variable {t : TupleSpace} {destTs : TsId} {template : Tuple} {w : World} {tr : List (World × Event)}

/-- The state the handler ends in is the one asked for when the finds are stored or
handed over. -/
theorem collected_iff (ht : s.obj? o = some t) (hu : s.obj? d = some u) (hod : d ≠ o)
    (hatoms : ∀ m ∈ t.ts.contain, m.IsAtoms)
    (hrefs : ∀ m ∈ finds template t.ts.contain, m.tsRefs = []) {u' : TupleSpace} {l : List Spawn}
    (hout : outAll u (finds template t.ts.contain) = some (u', l)) (tid : Tid) :
    Collected s tid o d t u template
      ⟨(s.setObj o { t with ts := ⟨t.ts.contain.filter fun m => ¬ Matches m template⟩ }).setObj d u',
        [], l.map (Spawn.thread d u.id),
        [(tid, .int (finds template t.ts.contain).length)]⟩ ↔
      ∃ kept, u'.ts.contain = u.ts.contain ++ kept ∧
        (finds template t.ts.contain).Perm (kept ++ l.filterMap (Spawn.consumed u)) := by
  have hto := obj?_setObj_self ht { t with
    ts := ⟨t.ts.contain.filter fun m => ¬ Matches m template⟩ }
  have hud : (s.setObj o { t with
      ts := ⟨t.ts.contain.filter fun m => ¬ Matches m template⟩ }).obj? d = some u :=
    (obj?_setObj_ne hod).trans hu
  have hd := obj?_setObj_self hud u'
  have hspawned : (l.map (Spawn.thread d u.id)).filterMap (handed u) =
      l.filterMap (Spawn.consumed u) := by
    rw [List.filterMap_map]
    exact congrArg (List.filterMap · l) (funext (handed_thread d u.id))
  constructor
  · intro h
    obtain ⟨v, kept, hv, hc, hp⟩ := h.dest
    rw [show _ = some v from hv] at hd
    cases hd
    exact ⟨kept, hc, by rw [← hspawned]; exact hp⟩
  · rintro ⟨kept, hc, hp⟩
    refine ⟨rfl, rfl, ⟨_, (obj?_setObj_ne hod.symm).trans hto, rfl⟩,
      ⟨u', kept, hd, hc, by rw [hspawned]; exact hp⟩, fun e o' x _ hx he => ?_⟩
    have hzero : occurrences e (finds template t.ts.contain) = 0 :=
      occurrences_eq_zero (fun m hm => hatoms m (List.mem_filter.1 hm).1) hrefs he
    simp only [hzero, ite_self, Nat.add_zero]
    by_cases h1 : o' = d
    · subst h1
      rw [hu] at hx
      cases hx
      exact ⟨u', hd, fun h => by rw [(outAll_frame hout).2]⟩
    · by_cases h2 : o' = o
      · subst h2
        rw [ht] at hx
        cases hx
        exact ⟨_, (obj?_setObj_ne h1).trans hto, fun h => rfl⟩
      · exact ⟨x, (obj?_setObj_ne h1).trans ((obj?_setObj_ne h2).trans hx), fun h => rfl⟩

/-- From any state of a server, the handler of `collect` on a store of atoms does its
work exactly when no comparison with the template raises, no find has a reference
in it, and the waiters of the destination deal with the finds. -/
theorem collect_exact_iff (h : Run WorldStep .init tr w) (tid : Tid)
    (hts : w.server.lookup ts = some o) (ht : w.server.obj? o = some t)
    (hdest : w.server.lookup destTs = some d) (hu : w.server.obj? d = some u) (hne : ts ≠ destTs)
    (hatoms : ∀ m ∈ t.ts.contain, m.IsAtoms) :
    Alone.Eventually (Collected w.server tid o d t u template)
        ⟨w.server, (Msg.collect false ts destTs template).handler tid, [], []⟩ ↔
      (∀ m ∈ t.ts.contain, ∀ e, ¬ Raises m template e) ∧
      (∀ m ∈ t.ts.contain, Matches m template → m.tsRefs = []) ∧
      Served (finds template t.ts.contain) u.blockedList.entries := by
  have hs : w.server.Sound := (sound_of_run h).server
  have hP : ∀ c : Alone, c.acts ≠ [] → ¬ Collected w.server tid o d t u template c :=
    fun c hc hcol => hc hcol.ended
  have hstep : ∀ {s a k sp snt}, ¬ Collected w.server tid o d t u template ⟨s, a :: k, sp, snt⟩ :=
    hP _ (by simp)
  have huid : u.id = destTs := by
    obtain ⟨v, hv, hid⟩ := hs.lookup destTs d hdest
    rw [hu] at hv
    cases hv
    exact hid
  have hod : d ≠ o := by
    obtain ⟨v, hv, hid⟩ := hs.lookup ts o hts
    rintro rfl
    rw [hu] at hv
    cases hv
    exact hne (hid.symm.trans huid)
  unfold Msg.handler
  rw [Alone.eventually_step (Alone.step_of_go w.server [.collectDest tid false false o destTs template]
      (by simp [Act.exec, Server.onTs, hts])) hstep, List.singleton_append,
    Alone.eventually_step (Alone.step_of_go w.server [.collectAt tid false false o d template]
      (by simp [Act.exec, Server.onTs, hdest])) hstep, List.singleton_append]
  by_cases hno : ∀ m ∈ t.ts.contain, ∀ e, ¬ Raises m template e
  · have hcol := collect_atoms hatoms hno
    have hud : (w.server.setObj o { t with
        ts := ⟨t.ts.contain.filter fun m => ¬ Matches m template⟩ }).obj? d = some u :=
      (obj?_setObj_ne hod).trans hu
    have hs' : (w.server.setObj o { t with
        ts := ⟨t.ts.contain.filter fun m => ¬ Matches m template⟩ }).Sound :=
      hs.exec (a := .collectAt tid false false o d template) trivial
        (exec_collectAt ht hu hcol tid)
    rw [Alone.eventually_step (Alone.step_of_go _ _ (exec_collectAt ht hu hcol tid)) hstep,
      List.append_nil]
    refine (eventually_collectLoop hs' hP (finds template t.ts.contain) hud
      (by rw [huid]; exact hdest) _ tid).trans ?_
    have hiff : (∀ m ∈ finds template t.ts.contain, m.tsRefs = []) ↔
        ∀ m ∈ t.ts.contain, Matches m template → m.tsRefs = [] := by
      simp [finds]
    rw [hiff, and_iff_right hno]
    refine and_congr_right fun hrefs => ?_
    have hreq := hs.requests d u hu
    rw [← outAll_iff hreq fun m hm => hatoms m (List.mem_filter.1 hm).1]
    constructor
    · rintro ⟨u', l, hout, hc⟩
      obtain ⟨kept, hk⟩ := (collected_iff ht hu hod hatoms (hiff.2 hrefs) hout tid).1 (by simpa using hc)
      exact ⟨u', l, kept, hout, hk⟩
    · rintro ⟨u', l, kept, hout, hk⟩
      refine ⟨u', l, hout, ?_⟩
      simpa using (collected_iff ht hu hod hatoms (hiff.2 hrefs) hout tid).2 ⟨kept, hk⟩
  · refine iff_of_false ?_ fun hc => hno hc.1
    have hraise : ∃ e, t.collect template = ⟨t, [], .error e⟩ := by
      rcases hm : t.ts.matchTuples template with e | l
      · exact ⟨e, TupleSpace.collect_error hm⟩
      · refine absurd (fun m hmem e hr => ?_) hno
        rcases (matchAll_ok hm).2 m hmem with h' | h'
        · rw [Matches, hr.2] at h'; cases h'
        · rw [Skips, hr.2] at h'
          cases h'
          exact hr.1 rfl
    obtain ⟨e, he⟩ := hraise
    rw [Alone.eventually_stuck]
    · exact hstep
    · exact Alone.step_of_raise (w.server.setObj o t) e
        (by simp [Act.exec, Server.onObj, ht, hu, he])

end

/-! ## Runs of one process -/

/-- A process with one thread makes two tuplespaces and puts a tuple into the
universal one; `n` references are announced first. -/
def storeOnce (tup : Tuple) (n : Nat) : List Event :=
  let tid : Tid := ⟨⟨0⟩, 1⟩
  let create (i : Nat) : List Event :=
    [.begin tid .createTuplespace, .send tid] ++ List.replicate 5 (.act i)
  [.registerProcess, .registerThread ⟨0⟩] ++ create 0 ++ create 1 ++ [.begin tid (.out .uts tup)] ++
    (List.range n).flatMap (fun i => .send tid :: List.replicate 4 (.act (2 + i))) ++
    .send tid :: List.replicate 3 (.act (2 + n))

theorem storeOnce_proper (tup : Tuple) (n : Nat) (w : World) :
    ∀ e ∈ storeOnce tup n, e.Proper w := by
  intro e he
  simp only [storeOnce, List.mem_append, List.mem_cons, List.mem_flatMap, List.mem_replicate,
    List.not_mem_nil, or_false] at he
  cases e with
  | rehash o b => simp at he
  | _ => trivial

/-- The number 5 is moved from the universal tuplespace to another. -/
theorem collect_exact_number : ∃ tr w t u, Run WorldStep .init tr w ∧
    tr.map Prod.snd = storeOnce [.integer 5] 0 ∧ t.ts.contain = [[.integer 5]] ∧
    Alone.Eventually (Collected w.server ⟨⟨0⟩, 1⟩ 0 2 t u [.integer 5])
      ⟨w.server, (Msg.collect false .uts (.sid 2) [.integer 5]).handler ⟨⟨0⟩, 1⟩, [], []⟩ := by
  obtain ⟨w, hw⟩ : ∃ w, w = (exec? World.next .init (storeOnce [.integer 5] 0)).getD .init :=
    ⟨_, rfl⟩
  have hexec : exec? World.next .init (storeOnce [.integer 5] 0) = some w := by
    rw [hw]; rfl
  obtain ⟨hr, htr⟩ := Run.of_exec? (P := fun w e => e.Proper w)
    (storeOnce_proper [.integer 5] 0) hexec
  have ht : w.server.obj? 0 = some { TupleSpace.init .uts with ts := ⟨[[.integer 5]]⟩ } := by
    rw [hw]; rfl
  refine ⟨_, w, _, _, hr, htr, rfl, (collect_exact_iff hr ⟨⟨0⟩, 1⟩ (by rw [hw]; rfl) ht
    (by rw [hw]; rfl) (u := { TupleSpace.init (.sid 2) with refs := [.proc ⟨0⟩] })
    (by rw [hw]; rfl) (by simp) ?_).2 ⟨?_, ?_, ?_⟩⟩
  · simpa [Tuple.IsAtoms] using (show (Value.integer 5).IsAtom from trivial)
  · rintro m hm e ⟨-, he⟩
    obtain rfl := List.mem_singleton.1 hm
    cases he
  · rintro m hm -
    obtain rfl := List.mem_singleton.1 hm
    rfl
  · refine served_templates (fun m hm => ?_) (fun x hx => (List.not_mem_nil hx).elim)
    obtain rfl := List.mem_singleton.1 (List.mem_filter.1 hm).1
    simpa [Tuple.IsAtoms] using (show (Value.integer 5).IsAtom from trivial)

/-- The handler dies on a stored reference whose count is exact: it sends no answer,
and the tuple is nowhere any more. -/
theorem collect_loses_reference : ∃ tr w t u c, Run WorldStep .init tr w ∧
    tr.map Prod.snd = storeOnce [.tsref (.sid 1)] 1 ∧ (∀ acts ∈ w.pool, acts = []) ∧
    w.server.obj? 0 = some t ∧ t.ts.contain = [[.tsref (.sid 1)]] ∧
    (w.server.obj? 1).map TupleSpace.refs = some [.proc ⟨0⟩, .ts .uts] ∧
    w.server.obj? 2 = some u ∧
    Alone.Leads
      ⟨w.server, (Msg.collect false .uts (.sid 2) [.tsref (.sid 1)]).handler ⟨⟨0⟩, 1⟩, [], []⟩ c ∧
    c.step = none ∧ c.sent = [] ∧ c.spawned = [] ∧ (∀ x ∈ c.server.objs, x.ts.contain = []) ∧
    ¬ Alone.Eventually (Collected w.server ⟨⟨0⟩, 1⟩ 0 2 t u [.tsref (.sid 1)])
      ⟨w.server, (Msg.collect false .uts (.sid 2) [.tsref (.sid 1)]).handler ⟨⟨0⟩, 1⟩, [], []⟩ := by
  obtain ⟨w, hw⟩ : ∃ w, w = (exec? World.next .init (storeOnce [.tsref (.sid 1)] 1)).getD .init :=
    ⟨_, rfl⟩
  have hexec : exec? World.next .init (storeOnce [.tsref (.sid 1)] 1) = some w := by
    rw [hw]; rfl
  obtain ⟨hr, htr⟩ := Run.of_exec? (P := fun w e => e.Proper w)
    (storeOnce_proper [.tsref (.sid 1)] 1) hexec
  obtain ⟨c, hc⟩ : ∃ c, c = (fun c : Alone => c.step.getD c)^[6]
    ⟨w.server, (Msg.collect false .uts (.sid 2) [.tsref (.sid 1)]).handler ⟨⟨0⟩, 1⟩, [], []⟩ :=
    ⟨_, rfl⟩
  have hlead := Alone.leads_iterate 6
    ⟨w.server, (Msg.collect false .uts (.sid 2) [.tsref (.sid 1)]).handler ⟨⟨0⟩, 1⟩, [], []⟩
  rw [← hc] at hlead
  have hstuck : c.step = none := by rw [hc, hw]; rfl
  have hsent : c.sent = [] := by rw [hc, hw]; rfl
  refine ⟨_, w, { TupleSpace.init .uts with ts := ⟨[[.tsref (.sid 1)]]⟩ },
    { TupleSpace.init (.sid 2) with refs := [.proc ⟨0⟩] }, c, hr, htr, ?_, ?_, rfl, ?_, ?_, hlead,
    hstuck, hsent, ?_, ?_, ?_⟩
  · have hpool : w.pool = [[], [], [], []] := by rw [hw]; rfl
    simp [hpool]
  · rw [hw]; rfl
  · rw [hw]; rfl
  · rw [hw]; rfl
  · rw [hc, hw]; rfl
  · have hobjs : c.server.objs.map (fun x => x.ts.contain) = [[], [], []] := by rw [hc, hw]; rfl
    intro x hx
    have : x.ts.contain ∈ c.server.objs.map (fun x => x.ts.contain) := List.mem_map_of_mem hx
    simpa [hobjs] using this
  · rw [Alone.eventually_of_end hlead hstuck fun c hc => by simp [Alone.step, hc.ended]]
    intro hcol
    have := hcol.replied
    rw [hsent] at this
    cases this

end PyLinda
