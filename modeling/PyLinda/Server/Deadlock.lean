import PyLinda.Server.Garbage

/-!
# When the deadlock check returns

`isLocallyDeadlocked` follows the references with a queue and remembers only the
threads it saw, no process and no tuplespace. On a cycle of tuplespaces it turns
forever unless a live reference comes first.
-/

namespace PyLinda

open Lib

/-- The loop of `isLocallyDeadlocked` on tables that stay as they are, for at most
`n` turns. -/
def Server.walkFor (s : Server) : Nat → List Tid → List Node → Option (Except PyExc Bool)
  | 0, _, _ => none
  | n + 1, threads, refs =>
    match s.deadlockTurn threads refs with
    | .returned b => some (.ok b)
    | .raised e => some (.error e)
    | .next refs' threads' => s.walkFor n threads' refs'

/-- `isLocallyDeadlocked`. -/
def Server.isLocallyDeadlocked (s : Server) (t : TupleSpace) (n : Nat) :
    Option (Except PyExc Bool) :=
  if t.id = .uts then some (.ok false) else s.walkFor n [] (t.refs.map .holder)

/-! ## The reference graph -/

/-- What the walk does at a node: at a live reference it returns, at an id that is
in no table it raises. -/
def Server.visit (s : Server) : Node → Visit Node (Except PyExc Bool)
  | .holder (.ts .uts) => .stop (.ok false)
  | .holder (.ts ts) =>
    match (s.lookup ts).bind s.obj? with
    | some t => .expand (t.refs.map .holder)
    | none => .stop (.error .keyError)
  | .holder (.proc pid) =>
    match s.pthreads.get? pid with
    | some tids => .expand (tids.map .thread)
    | none => .stop (.error .keyError)
  | .thread tid => if (s.blockedThreads.get? tid).isSome then .expand [] else .stop (.ok false)
  | .holder (.obj _) => .stop (.error .assertionError)

/-- The nodes that the references `refs` lead to. -/
def Server.LeadsTo (s : Server) (refs : List Holder) (y : Node) : Prop :=
  Reachable s.visit (refs.map .holder) y

/-- Level by level, a live reference comes before any that is in no table. -/
def Server.LiveFirst (s : Server) (refs : List Holder) : Prop :=
  FirstStop s.visit (refs.map .holder) (.ok false)

/-- Nothing live can be reached, nothing that is in no table, and no cycle. -/
def Server.DeadEnds (s : Server) (refs : List Holder) : Prop :=
  (∀ y, s.LeadsTo refs y → ∃ l, s.visit y = .expand l) ∧
    ¬ ∃ y, s.LeadsTo refs y ∧ Relation.TransGen (Edge s.visit) y y

/-- At some level an entry ends the walk, or there is no entry left. -/
def Server.WalkEnds (s : Server) (refs : List Holder) : Prop :=
  ∃ n, ¬ Passes s.visit (level s.visit n (refs.map .holder)) ∨
    level s.visit n (refs.map .holder) = []

variable {s : Server} {t : TupleSpace} {o : ObjId} {refs : List Holder} {nodes : List Node}
  {threads : List Tid}

/-- The threads it remembers do not change what it does. -/
theorem deadlockTurn_cons (hth : ∀ tid ∈ threads, (s.blockedThreads.get? tid).isSome) (x : Node)
    (nodes : List Node) :
    (∃ r, s.visit x = .stop r ∧ s.deadlockTurn threads (x :: nodes) = match r with
      | .ok b => .returned b
      | .error e => .raised e) ∨
    ∃ l threads', s.visit x = .expand l ∧
      s.deadlockTurn threads (x :: nodes) = .next (nodes ++ l) threads' ∧
      ∀ tid ∈ threads', (s.blockedThreads.get? tid).isSome := by
  cases x with
  | thread tid =>
    by_cases hm : tid ∈ threads
    · exact .inr ⟨[], threads, by simp [Server.visit, hth tid hm],
        by simp [Server.deadlockTurn, hm], hth⟩
    · by_cases hb : (s.blockedThreads.get? tid).isSome
      · exact .inr ⟨[], tid :: threads, by simp [Server.visit, hb],
          by simp [Server.deadlockTurn, hm, hb], List.forall_mem_cons.2 ⟨hb, hth⟩⟩
      · exact .inl ⟨.ok false, by simp [Server.visit, hb], by simp [Server.deadlockTurn, hm, hb]⟩
  | holder ref =>
    cases ref with
    | obj ts => exact .inl ⟨_, rfl, rfl⟩
    | proc pid =>
      cases hp : s.pthreads.get? pid with
      | none =>
        exact .inl ⟨.error .keyError, by simp [Server.visit, hp], by simp [Server.deadlockTurn, hp]⟩
      | some tids =>
        exact .inr ⟨tids.map .thread, threads, by simp [Server.visit, hp],
          by simp [Server.deadlockTurn, hp], hth⟩
    | ts ts =>
      cases ts with
      | uts => exact .inl ⟨_, rfl, rfl⟩
      | sid g =>
        cases hl : (s.lookup (.sid g)).bind s.obj? with
        | none =>
          exact .inl ⟨.error .keyError, by simp [Server.visit, hl],
            by simp [Server.deadlockTurn, hl]⟩
        | some t =>
          exact .inr ⟨t.refs.map .holder, threads, by simp [Server.visit, hl],
            by simp [Server.deadlockTurn, hl], hth⟩

/-- The loop is the queue of the library; when the queue is empty it says `True`. -/
theorem walkFor_eq (hth : ∀ tid ∈ threads, (s.blockedThreads.get? tid).isSome) (n : Nat)
    (nodes : List Node) :
    s.walkFor n threads nodes = (fifo s.visit n nodes).map fun r => r.getD (.ok true) := by
  induction n generalizing threads nodes with
  | zero => rfl
  | succ n ih =>
    cases nodes with
    | nil => rfl
    | cons x nodes =>
      rcases deadlockTurn_cons hth x nodes with ⟨r, hv, ht⟩ | ⟨l, threads', hv, ht, hth'⟩
      · cases r <;> simp [Server.walkFor, fifo, hv, ht]
      · simp only [Server.walkFor, fifo, hv, ht]
        exact ih hth' _

/-- Only ids in the tables lead anywhere. -/
theorem visit_support (x : Node) (h : (s.visit x).succ ≠ []) :
    x ∈ s.localTs.keys.map (.holder ∘ .ts) ++ s.pthreads.keys.map (.holder ∘ .proc) := by
  cases x with
  | thread tid =>
    simp only [Server.visit] at h
    split at h <;> simp [Visit.succ] at h
  | holder ref =>
    cases ref with
    | obj ts => simp [Server.visit, Visit.succ] at h
    | proc pid =>
      cases hp : s.pthreads.get? pid with
      | none => simp [Server.visit, hp, Visit.succ] at h
      | some tids => simp [Dict.mem_keys_of_get? hp]
    | ts ts =>
      cases ts with
      | uts => simp [Server.visit, Visit.succ] at h
      | sid g =>
        cases hl : s.lookup (.sid g) with
        | none => simp [Server.visit, hl, Visit.succ] at h
        | some o => simp [Dict.mem_keys_of_get? hl]

theorem visit_ne_true (x : Node) : s.visit x ≠ .stop (.ok true) := by
  cases x with
  | thread tid =>
    simp only [Server.visit]
    split <;> simp
  | holder ref =>
    cases ref with
    | obj ts => simp [Server.visit]
    | proc pid =>
      simp only [Server.visit]
      split <;> simp
    | ts ts =>
      cases ts with
      | uts => simp [Server.visit]
      | sid g =>
        simp only [Server.visit]
        split <;> simp

/-- The walk over `refs` returns `False` when it comes to a live reference first,
and `True` when it comes to an end. -/
theorem walk_false_iff : (∃ n, s.walkFor n [] (refs.map .holder) = some (.ok false)) ↔
    s.LiveFirst refs := by
  rw [Server.LiveFirst, ← ends_some_iff]
  refine exists_congr fun n => ?_
  rw [walkFor_eq (by simp)]
  cases fifo s.visit n (refs.map .holder) with
  | none => simp
  | some r => cases r <;> simp

theorem walk_true_iff : (∃ n, s.walkFor n [] (refs.map .holder) = some (.ok true)) ↔
    s.DeadEnds refs := by
  have hends : s.DeadEnds refs ↔ Ends s.visit (refs.map .holder) none :=
    (ends_none_iff visit_support).symm
  rw [hends]
  constructor
  · rintro ⟨n, hn⟩
    rw [walkFor_eq (by simp)] at hn
    cases hf : fifo s.visit n (refs.map .holder) with
    | none => simp [hf] at hn
    | some r =>
      cases r with
      | none => exact ⟨n, hf⟩
      | some r =>
        obtain ⟨m, -, pre, x, post, -, -, hx⟩ := ends_some_iff.1 ⟨n, hf⟩
        obtain rfl : r = .ok true := by simpa [hf] using hn
        exact absurd hx (visit_ne_true x)
  · rintro ⟨n, hn⟩
    exact ⟨n, by rw [walkFor_eq (by simp), hn]; rfl⟩

theorem walkEnds_iff : (∃ n r, s.walkFor n [] (refs.map .holder) = some r) ↔ s.WalkEnds refs := by
  have hfifo : (∃ n r, s.walkFor n [] (refs.map .holder) = some r) ↔
      ∃ r, Ends s.visit (refs.map .holder) r := by
    have heq : ∀ n, s.walkFor n [] (refs.map .holder) =
        (fifo s.visit n (refs.map .holder)).map fun r => r.getD (.ok true) :=
      fun n => walkFor_eq (by simp) n _
    simp only [heq, Option.map_eq_some_iff, Ends]
    constructor
    · rintro ⟨n, r, q, hq, -⟩
      exact ⟨q, n, hq⟩
    · rintro ⟨q, n, hq⟩
      exact ⟨n, _, q, hq, rfl⟩
  rw [hfifo]
  constructor
  · rintro ⟨_ | r, h⟩
    · obtain ⟨-, n, hn⟩ := ends_none_iff_level.1 h
      exact ⟨n, .inr hn⟩
    · obtain ⟨n, -, hs⟩ := ends_some_iff.1 h
      exact ⟨n, .inl hs.not_passes⟩
  · rintro ⟨n, h⟩
    by_cases hp : ∀ n, Passes s.visit (level s.visit n (refs.map .holder))
    · exact ⟨none, ends_none_of_level_nil hp (h.resolve_left fun hn => hn (hp n))⟩
    · obtain ⟨r, hr⟩ := firstStop_of_not_passes hp
      exact ⟨some r, hr.ends⟩

/-- `isLocallyDeadlocked` returns on the tables `s`. -/
theorem isLocallyDeadlocked_returns_iff : (∃ n b, s.isLocallyDeadlocked t n = some (.ok b)) ↔
    t.id = .uts ∨ s.LiveFirst t.refs ∨ s.DeadEnds t.refs := by
  by_cases hid : t.id = .uts
  · simp [Server.isLocallyDeadlocked, hid]
  · simp only [Server.isLocallyDeadlocked, hid, if_false, false_or, ← walk_false_iff,
      ← walk_true_iff, Bool.exists_bool, exists_or]

/-! ## The check in a thread -/

/-- The steps up to the end of the check. -/
def Act.inCheck : Act → Bool
  | .removereference _ _ | .removeAll _ _ | .isDeadLocked _ _ | .walk _ _ _ _ | .unblockRandom _
  | .getBlocked _ | .delBlocked _ | .reply _ _ => true
  | _ => false

/-- `P` holds only behind the check. -/
def Late (P : Alone → Prop) : Prop := ∀ c a acts, c.acts = a :: acts → a.inCheck = true → ¬ P c

/-- The tables after `unblockRandom` on the object `o`. -/
def Server.unblocked (s : Server) (o : ObjId) (t : TupleSpace) : Server :=
  match pickUnblockable t.blockedList.entries with
  | none => s
  | some p => { s.setObj o { t with blockedList := t.blockedList.erase p } with
      blockedThreads := s.blockedThreads.erase p }

/-- The message it sends. -/
def TupleSpace.unblockSent (t : TupleSpace) : List (Tid × Reply) :=
  (pickUnblockable t.blockedList.entries).toList.map fun p => (p, .unblock)

/-- The reader that `unblockRandom` takes is in `blocked_threads`. -/
def Server.Unblocks (s : Server) (t : TupleSpace) : Prop :=
  ∀ p, pickUnblockable t.blockedList.entries = some p → (s.blockedThreads.get? p).isSome

/-- `if self.isDeadLocked(): self.unblockRandom()` returns. -/
def Server.CheckReturns (s : Server) (t : TupleSpace) : Prop :=
  s.LiveFirst t.refs ∨ s.DeadEnds t.refs ∧ s.Unblocks t

variable {k : List Act} {sp : List (List Act)} {snt : List (Tid × Reply)}

theorem step_walk : Alone.step ⟨s, .walk o none nodes threads :: k, sp, snt⟩ =
    match s.deadlockTurn threads nodes with
    | .returned true => some ⟨s, .unblockRandom o :: k, sp, snt⟩
    | .returned false => some ⟨s, k, sp, snt⟩
    | .raised _ => none
    | .next nodes' threads' => some ⟨s, .walk o none nodes' threads' :: k, sp, snt⟩ := by
  unfold Alone.step
  simp only [Act.exec]
  cases s.deadlockTurn threads nodes with
  | returned b => cases b <;> simp [Effect.go]
  | raised e => simp [Effect.raise]
  | next nodes' threads' => simp [Effect.go]

theorem step_unblockRandom (ht : s.obj? o = some t) :
    Alone.step ⟨s, .unblockRandom o :: k, sp, snt⟩ =
      match pickUnblockable t.blockedList.entries with
      | none => some ⟨s, k, sp, snt⟩
      | some p => some ⟨s.setObj o { t with blockedList := t.blockedList.erase p },
          .getBlocked p :: .delBlocked p :: .reply p .unblock :: k, sp, snt⟩ := by
  unfold Alone.step
  simp only [Act.exec, Server.onObj, ht, Option.bind_some, TupleSpace.unblockRandom]
  cases pickUnblockable t.blockedList.entries <;> simp [Effect.go]

theorem step_getBlocked (p : Tid) : Alone.step ⟨s, .getBlocked p :: k, sp, snt⟩ =
    if (s.blockedThreads.get? p).isSome then some ⟨s, k, sp, snt⟩ else none := by
  unfold Alone.step
  simp only [Act.exec]
  split <;> simp [Effect.go, Effect.raise]

theorem step_delBlocked (p : Tid) : Alone.step ⟨s, .delBlocked p :: k, sp, snt⟩ =
    if (s.blockedThreads.get? p).isSome then
      some ⟨{ s with blockedThreads := s.blockedThreads.erase p }, k, sp, snt⟩ else none := by
  unfold Alone.step
  simp only [Act.exec]
  split <;> simp [Effect.go, Effect.raise]

theorem step_reply (p : Tid) (r : Reply) : Alone.step ⟨s, .reply p r :: k, sp, snt⟩ =
    some ⟨s, k, sp, snt ++ [(p, r)]⟩ := by
  simp [Alone.step, Act.exec]

section
variable {C : Type} {step : C → Option C} {cfg : Server → List Act → C}

variable (s o nodes threads) in
/-- The turn of the walk that comes next, as a step. -/
theorem exec_walk : (Act.walk o none nodes threads).exec s = some
    (match s.deadlockTurn threads nodes with
      | .returned true => .go s [.unblockRandom o]
      | .returned false => .go s []
      | .raised e => .raise s e
      | .next nodes' threads' => .go s [.walk o none nodes' threads']) := by
  simp only [Act.exec]
  cases s.deadlockTurn threads nodes with
  | returned b => cases b <;> rfl
  | raised e => rfl
  | next nodes' threads' => rfl

/-- The walk comes to its end. -/
theorem takes_walk (hcfg : Alone.Takes step cfg) {n : Nat} {b : Bool}
    (h : s.walkFor n threads nodes = some (.ok b)) :
    Relation.ReflTransGen (fun c d => step c = some d) (cfg s (.walk o none nodes threads :: k))
      (cfg s (if b then .unblockRandom o :: k else k)) := by
  induction n generalizing nodes threads with
  | zero => cases h
  | succ n ih =>
    have hex := exec_walk s o nodes threads
    cases ht : s.deadlockTurn threads nodes with
    | returned b' =>
      simp only [Server.walkFor, ht] at h
      cases h
      rw [ht] at hex
      cases b with
      | false => exact .single (hcfg s _ k s [] hex nofun)
      | true => exact .single (hcfg s _ k s [.unblockRandom o] hex nofun)
    | raised e => simp [Server.walkFor, ht] at h
    | next nodes' threads' =>
      simp only [Server.walkFor, ht] at h
      rw [ht] at hex
      exact .head (hcfg s _ k s _ hex nofun) (ih h)

/-- The walk comes to a turn that raises. -/
theorem takes_walk_raised (hcfg : Alone.Takes step cfg) {n : Nat} {e : PyExc}
    (h : s.walkFor n threads nodes = some (.error e)) : ∃ nodes' threads' e',
      Relation.ReflTransGen (fun c d => step c = some d) (cfg s (.walk o none nodes threads :: k))
        (cfg s (.walk o none nodes' threads' :: k)) ∧
      (Act.walk o none nodes' threads').exec s = some (.raise s e') := by
  induction n generalizing nodes threads with
  | zero => cases h
  | succ n ih =>
    have hex := exec_walk s o nodes threads
    cases ht : s.deadlockTurn threads nodes with
    | returned b => simp [Server.walkFor, ht] at h
    | raised e' =>
      rw [ht] at hex
      exact ⟨nodes, threads, e', .refl, hex⟩
    | next nodes' threads' =>
      simp only [Server.walkFor, ht] at h
      rw [ht] at hex
      obtain ⟨nodes'', threads'', e', hl, hr⟩ := ih h
      exact ⟨nodes'', threads'', e', .head (hcfg s _ k s _ hex nofun) hl, hr⟩

/-- A machine that gets beyond the walk has seen its end. -/
theorem walk_ends_of_leads (hcfg : Alone.Takes step cfg) {d : C}
    (h : Relation.ReflTransGen (fun c d => step c = some d)
      (cfg s (.walk o none nodes threads :: k)) d)
    (hd : ∀ nodes' threads', d ≠ cfg s (.walk o none nodes' threads' :: k)) :
    ∃ n r, s.walkFor n threads nodes = some r := by
  generalize hc : cfg s (.walk o none nodes threads :: k) = c at h
  induction h using Relation.ReflTransGen.head_induction_on generalizing nodes threads with
  | refl => exact absurd hc.symm (hd _ _)
  | @head c c' hcd _ ih =>
    cases ht : s.deadlockTurn threads nodes with
    | returned b => exact ⟨1, .ok b, by simp [Server.walkFor, ht]⟩
    | raised e => exact ⟨1, .error e, by simp [Server.walkFor, ht]⟩
    | next nodes' threads' =>
      have hex := exec_walk s o nodes threads
      rw [ht] at hex
      have hstep := hcfg s _ k s _ hex nofun
      rw [hc, hcd] at hstep
      obtain ⟨n, r, hn⟩ := ih (Option.some.inj hstep).symm
      exact ⟨n + 1, r, by simp [Server.walkFor, ht, hn]⟩

end

section
variable {P : Alone → Prop} (hP : Late P)
include hP

theorem eventually_walk : Alone.Eventually P ⟨s, .walk o none nodes threads :: k, sp, snt⟩ ↔
    (∃ n, s.walkFor n threads nodes = some (.ok false)) ∧ Alone.Eventually P ⟨s, k, sp, snt⟩ ∨
    (∃ n, s.walkFor n threads nodes = some (.ok true)) ∧
      Alone.Eventually P ⟨s, .unblockRandom o :: k, sp, snt⟩ := by
  have hne : ∀ nodes threads, ¬ P ⟨s, .walk o none nodes threads :: k, sp, snt⟩ :=
    fun _ _ => hP _ _ _ rfl rfl
  constructor
  · rintro ⟨e, he, hPe⟩
    generalize hc : (⟨s, .walk o none nodes threads :: k, sp, snt⟩ : Alone) = c at he
    induction he using Relation.ReflTransGen.head_induction_on generalizing nodes threads with
    | refl => exact absurd (hc ▸ hPe) (hne _ _)
    | @head c d hcd hde ih =>
      subst hc
      rw [step_walk] at hcd
      cases ht : s.deadlockTurn threads nodes with
      | returned b =>
        cases b with
        | false =>
          obtain rfl : ⟨s, k, sp, snt⟩ = d := by simpa [ht] using hcd
          exact .inl ⟨⟨1, by simp [Server.walkFor, ht]⟩, e, hde, hPe⟩
        | true =>
          obtain rfl : ⟨s, .unblockRandom o :: k, sp, snt⟩ = d := by simpa [ht] using hcd
          exact .inr ⟨⟨1, by simp [Server.walkFor, ht]⟩, e, hde, hPe⟩
      | raised x => simp [ht] at hcd
      | next nodes' threads' =>
        obtain rfl : ⟨s, .walk o none nodes' threads' :: k, sp, snt⟩ = d := by simpa [ht] using hcd
        rcases ih rfl with ⟨⟨n, hn⟩, h⟩ | ⟨⟨n, hn⟩, h⟩
        · exact .inl ⟨⟨n + 1, by simp [Server.walkFor, ht, hn]⟩, h⟩
        · exact .inr ⟨⟨n + 1, by simp [Server.walkFor, ht, hn]⟩, h⟩
  · have hstep : ∀ n b, s.walkFor n threads nodes = some (.ok b) →
        Alone.Eventually P ⟨s, if b then .unblockRandom o :: k else k, sp, snt⟩ →
        Alone.Eventually P ⟨s, .walk o none nodes threads :: k, sp, snt⟩ := by
      rintro n b h ⟨e, he, hPe⟩
      exact ⟨e, (takes_walk (Alone.takes sp snt) h).trans he, hPe⟩
    rintro (⟨⟨n, hn⟩, h⟩ | ⟨⟨n, hn⟩, h⟩)
    · exact hstep n false hn h
    · exact hstep n true hn h

theorem eventually_unblock (ht : s.obj? o = some t) :
    Alone.Eventually P ⟨s, .unblockRandom o :: k, sp, snt⟩ ↔
      s.Unblocks t ∧ Alone.Eventually P ⟨s.unblocked o t, k, sp, snt ++ t.unblockSent⟩ := by
  have hne : ∀ s a k snt, a.inCheck = true → ¬ P ⟨s, a :: k, sp, snt⟩ := fun _ _ _ _ ha =>
    hP _ _ _ rfl ha
  unfold Server.Unblocks Server.unblocked TupleSpace.unblockSent
  cases hp : pickUnblockable t.blockedList.entries with
  | none =>
    rw [Alone.eventually_step (by rw [step_unblockRandom ht, hp]) (hne _ _ _ _ rfl)]
    simp
  | some p =>
    rw [Alone.eventually_step (by rw [step_unblockRandom ht, hp]) (hne _ _ _ _ rfl)]
    by_cases hb : (s.blockedThreads.get? p).isSome
    · rw [Alone.eventually_step (by rw [step_getBlocked]; exact if_pos hb) (hne _ _ _ _ rfl),
        Alone.eventually_step (by rw [step_delBlocked]; exact if_pos hb) (hne _ _ _ _ rfl),
        Alone.eventually_step (step_reply p .unblock) (hne _ _ _ _ rfl)]
      simp [hb, Server.setObj]
    · rw [Alone.eventually_stuck (by rw [step_getBlocked]; exact if_neg hb)]
      simp [hb]
      exact hne _ _ _ _ rfl

/-- The check goes on to what comes behind it exactly when it returns. -/
theorem eventually_check (ht : s.obj? o = some t) (hid : t.id ≠ .uts) :
    Alone.Eventually P ⟨s, .isDeadLocked o none :: k, sp, snt⟩ ↔
      s.LiveFirst t.refs ∧ Alone.Eventually P ⟨s, k, sp, snt⟩ ∨
      s.DeadEnds t.refs ∧ s.Unblocks t ∧
        Alone.Eventually P ⟨s.unblocked o t, k, sp, snt ++ t.unblockSent⟩ := by
  have hstep : Alone.step ⟨s, .isDeadLocked o none :: k, sp, snt⟩ =
      some ⟨s, .walk o none (t.refs.map .holder) [] :: k, sp, snt⟩ := by
    simp [Alone.step, Act.exec, Server.onObj, ht, hid, Effect.go]
  rw [Alone.eventually_step hstep (hP _ _ _ rfl rfl), eventually_walk hP, walk_false_iff,
    walk_true_iff, eventually_unblock hP ht]

end

/-! ## Removing references -/

/-- The tuplespace after `removereference`. -/
def TupleSpace.withoutReference (t : TupleSpace) (ref : Holder) : TupleSpace :=
  { t with refs := t.refs.erase ref, killlock := t.killlock + 1 }

/-- The tuplespace after `removeanyreferences`. -/
def TupleSpace.withoutReferences (t : TupleSpace) (ref : Holder) : TupleSpace :=
  { t with refs := t.refs.filter (· ≠ ref), killlock := t.killlock + 1 }

/-- The thread is about to run `doGarbageCollection`. -/
def AtGarbageCollection (o : ObjId) (c : Alone) : Prop := ∃ k, c.acts = .doGarbageCollection o :: k

theorem late_atGarbageCollection : Late (AtGarbageCollection o) := by
  rintro c a acts hc ha ⟨k, hk⟩
  rw [hc] at hk
  cases hk
  cases ha

/-- What a thread in `removereference` has to do, or one in `removeanyreferences`
that has the kill lock. -/
def removal (all : Bool) (o : ObjId) (ref : Holder) : List Act :=
  if all then [.removeAll o ref, .isDeadLocked o none, .doGarbageCollection o, .garbage o]
  else [.removereference o ref, .garbage o]

/-- What it does to the tuplespace. -/
def TupleSpace.without (all : Bool) (ref : Holder) (t : TupleSpace) : TupleSpace :=
  if all then t.withoutReferences ref else t.withoutReference ref

section
variable {all : Bool} {ref : Holder}

@[simp] theorem without_id : (t.without all ref).id = t.id := by
  cases all <;> rfl

/-- Both remove the reference and go on with the check. -/
theorem eventually_removal {P : Alone → Prop} (hP : Late P) (ht : s.obj? o = some t)
    (hid : t.id ≠ .uts) (href : ref ∈ t.refs) :
    Alone.Eventually P ⟨s, removal all o ref, [], []⟩ ↔
      (s.setObj o (t.without all ref)).LiveFirst (t.without all ref).refs ∧
        Alone.Eventually P
          ⟨s.setObj o (t.without all ref), [.doGarbageCollection o, .garbage o], [], []⟩ ∨
      (s.setObj o (t.without all ref)).DeadEnds (t.without all ref).refs ∧
        (s.setObj o (t.without all ref)).Unblocks (t.without all ref) ∧
        Alone.Eventually P ⟨(s.setObj o (t.without all ref)).unblocked o (t.without all ref),
          [.doGarbageCollection o, .garbage o], [], (t.without all ref).unblockSent⟩ := by
  rw [← List.nil_append (TupleSpace.unblockSent _),
    ← eventually_check hP (obj?_setObj_self ht (t.without all ref)) (by simpa using hid)]
  cases all with
  | false =>
    refine Alone.eventually_step ?_ (hP _ _ _ rfl rfl)
    simp [Alone.step, removal, Act.exec, Server.onObj, ht, hid, href, Effect.go,
      TupleSpace.without, TupleSpace.withoutReference]
  | true =>
    refine Alone.eventually_step ?_ (hP _ _ _ rfl rfl)
    simp [Alone.step, removal, Act.exec, Server.onObj, ht, Effect.go,
      TupleSpace.without, TupleSpace.withoutReferences]

end

/-! ## Collecting what nobody refers to -/

/-- `refs` lead to tuplespaces only, and not to the universal one. -/
def Server.Unreferenced (s : Server) (refs : List Holder) : Prop :=
  ∀ y, s.LeadsTo refs y → ∃ g, y = .holder (.ts (.sid g))

/-- The tuplespace `id` is out of `local_ts`, and the thread has ended. -/
def Reclaimed (id : TsId) (c : Alone) : Prop := c.acts = [] ∧ c.server.lookup id = none

theorem late_reclaimed {id : TsId} : Late (Reclaimed id) := by
  rintro c a acts hc - ⟨h, -⟩
  rw [hc] at h
  cases h

/-- What `refs` lead to is closed under the references of tuplespaces. -/
theorem leadsTo_refs {g : Nat} {l : List Holder} (hy : s.LeadsTo refs (.holder (.ts (.sid g))))
    (hl : s.refs? (.sid g) = some l) : ∀ h ∈ l, s.LeadsTo refs (.holder h) := by
  intro h hh
  obtain ⟨x, hx, hxy⟩ := hy
  refine ⟨x, hx, hxy.tail ?_⟩
  obtain ⟨t, ht, rfl⟩ := Option.map_eq_some_iff.1 hl
  simpa [Edge, Server.visit, ht, Visit.succ] using hh

/-- The garbage collection of a tuplespace nobody refers to takes it out of
`local_ts`, on tables with the same references. -/
theorem eventually_reclaimed {s' : Server} (href : s.Unreferenced refs) (ht : s'.obj? o = some t)
    (hid : t.id ≠ .uts) (hrefs : t.refs = refs) (hsame : ∀ g, s'.refs? (.sid g) = s.refs? (.sid g)) :
    Alone.Eventually (Reclaimed t.id) ⟨s', [.doGarbageCollection o, .garbage o], sp, snt⟩ := by
  have hdead : ¬ s'.Alive t.refs := by
    rintro ⟨h, hh, hlive⟩
    have hreach : s.LeadsTo refs (.holder h) := by
      clear hlive
      induction hh with
      | root hmem => exact ⟨.holder _, by simpa [hrefs] using hmem, .refl⟩
      | @through ts l h _ hl' hmem ih =>
        obtain ⟨g, hg⟩ := href _ ih
        cases hg
        exact leadsTo_refs ih (by rw [← hsame]; exact hl') h hmem
    obtain ⟨g, hg⟩ := href _ hreach
    cases hg
    cases hlive
  obtain ⟨e, he, hPe⟩ : Alone.Eventually (Reclaimed t.id)
      ⟨s'.setObj o { t with refs := [] }, [.garbage o], sp, snt⟩ := by
    have ho := obj?_setObj_self ht { t with refs := [] }
    refine .of_step (d := ⟨s'.setObj o { t with refs := [] }, [.dropTs t.id], sp, snt⟩) ?_
      (.of_step rfl (.now ⟨rfl, Dict.get?_erase_self⟩))
    simp [Alone.step, Act.exec, Server.onObj, ho, Effect.go, hid]
  exact ⟨e, (leads_collected ht hdead).trans he, hPe⟩

theorem refs?_setObj (ht : s.obj? o = some t) (t' : TupleSpace) (hr : t'.refs = t.refs) (ts : TsId) :
    (s.setObj o t').refs? ts = s.refs? ts := by
  have hobj : ∀ o', ((s.setObj o t').obj? o').map TupleSpace.refs =
      (s.obj? o').map TupleSpace.refs := by
    intro o'
    by_cases ho : o' = o
    · subst ho
      rw [obj?_setObj_self ht t', ht]
      simp [hr]
    · simp [Server.obj?, Server.setObj, List.getElem?_set_ne (Ne.symm ho)]
  unfold Server.refs?
  cases hl : s.lookup ts with
  | none => simp [show (s.setObj o t').lookup ts = none from hl]
  | some o' => simpa [show (s.setObj o t').lookup ts = some o' from hl] using hobj o'

/-- `unblockRandom` leaves the references as they are. -/
theorem unblocked_refs (ht : s.obj? o = some t) :
    (∃ u, (s.unblocked o t).obj? o = some u ∧ u.id = t.id ∧ u.refs = t.refs) ∧
      ∀ ts, (s.unblocked o t).refs? ts = s.refs? ts := by
  unfold Server.unblocked
  cases pickUnblockable t.blockedList.entries with
  | none => exact ⟨⟨t, ht, rfl, rfl⟩, fun _ => rfl⟩
  | some p =>
    exact ⟨⟨{ t with blockedList := t.blockedList.erase p }, obj?_setObj_self ht _, rfl, rfl⟩,
      fun ts => refs?_setObj ht { t with blockedList := t.blockedList.erase p } rfl ts⟩

/-! ## The deadlock check -/

/-- When the deadlock check returns: on the tables `s` for the tuplespace `t`, and in
a thread that removes a reference to `t`, which comes to `doGarbageCollection` and,
when only tuplespaces refer to `t`, reclaims it, exactly when the check returns on
the tables without the reference. -/
theorem deadlock_check_iff (ht : s.obj? o = some t) :
    ((∃ n b, s.isLocallyDeadlocked t n = some (.ok b)) ↔
      t.id = .uts ∨ s.LiveFirst t.refs ∨ s.DeadEnds t.refs) ∧
    ∀ all, ∀ ref ∈ t.refs, t.id ≠ .uts →
      let t' := t.without all ref
      let s' := s.setObj o t'
      (Alone.Eventually (AtGarbageCollection o) ⟨s, removal all o ref, [], []⟩ ↔
        s'.CheckReturns t') ∧
      (s'.Unreferenced t'.refs →
        (Alone.Eventually (Reclaimed t.id) ⟨s, removal all o ref, [], []⟩ ↔
          s'.CheckReturns t')) := by
  refine ⟨isLocallyDeadlocked_returns_iff, fun all ref href hid => ?_⟩
  intro t' s'
  have ht' : s'.obj? o = some t' := obj?_setObj_self ht t'
  have hgc : ∀ s sp snt, Alone.Eventually (AtGarbageCollection o)
      ⟨s, [.doGarbageCollection o, .garbage o], sp, snt⟩ := fun s sp snt => .now ⟨_, rfl⟩
  constructor
  · rw [eventually_removal late_atGarbageCollection ht hid href]
    simp [hgc, Server.CheckReturns, s', t']
  · intro hun
    have hid' : t'.id ≠ .uts := by simpa [t'] using hid
    have h1 : ∀ sp snt, Alone.Eventually (Reclaimed t.id)
        ⟨s', [.doGarbageCollection o, .garbage o], sp, snt⟩ := fun sp snt => by
      have hid'' : t'.id = t.id := without_id
      rw [← hid'']
      exact eventually_reclaimed hun ht' hid' rfl fun _ => rfl
    have h2 : ∀ sp snt, Alone.Eventually (Reclaimed t.id)
        ⟨s'.unblocked o t', [.doGarbageCollection o, .garbage o], sp, snt⟩ := fun sp snt => by
      obtain ⟨⟨u, hu, huid, hurefs⟩, hsame⟩ := unblocked_refs ht'
      rw [show t.id = u.id from (huid.trans without_id).symm]
      exact eventually_reclaimed hun hu (by rw [huid]; exact hid') hurefs fun g => hsame (.sid g)
    rw [eventually_removal late_reclaimed ht hid href]
    simp only [h1, h2, and_true, Server.CheckReturns, s', t']

/-- A tuplespace that a process with a running thread holds. -/
def heldTs : TupleSpace := { TupleSpace.init (.sid 0) with refs := [.proc ⟨0⟩] }

def heldServer : Server :=
  { Server.init with
    objs := [.init .uts, heldTs]
    localTs := Server.init.localTs.set (.sid 0) 1
    pthreads := Dict.empty.set ⟨0⟩ [⟨⟨0⟩, 1⟩] }

theorem deadlock_check_held :
    ∃ n b, heldServer.isLocallyDeadlocked heldTs n = some (.ok b) := by
  refine (deadlock_check_iff (s := heldServer) (o := 1) (t := heldTs) rfl).1.2 (.inr (.inl ?_))
  refine ⟨1, fun m hm => ?_, [], .thread ⟨⟨0⟩, 1⟩, [], rfl, by simp [Passes], rfl⟩
  obtain rfl : m = 0 := by omega
  intro x hx
  obtain rfl : x = .holder (.proc ⟨0⟩) := by simpa [level, heldTs] using hx
  exact ⟨_, rfl⟩

/-! ## A cycle -/

/-- Two tuplespaces with references to each other, and a process that holds one. -/
def cycleTs (g other : Nat) (pids : List Holder) : TupleSpace :=
  { TupleSpace.init (.sid g) with refs := pids ++ [.ts (.sid other)] }

def cycleServer : Server :=
  { Server.init with
    objs := [.init .uts, cycleTs 0 1 [.proc ⟨0⟩], cycleTs 1 0 []]
    localTs := (Server.init.localTs.set (.sid 0) 1).set (.sid 1) 2
    pthreads := Dict.empty.set ⟨0⟩ [⟨⟨0⟩, 1⟩] }

/-- The tables once the process has dropped its reference. -/
def orphanServer : Server :=
  cycleServer.setObj 1 ((cycleTs 0 1 [.proc ⟨0⟩]).without false (.proc ⟨0⟩))

theorem orphan_level (n : Nat) (g : Nat) (hg : g = 0 ∨ g = 1) : ∃ g', (g' = 0 ∨ g' = 1) ∧
    level orphanServer.visit n [.holder (.ts (.sid g))] = [.holder (.ts (.sid g'))] := by
  induction n generalizing g with
  | zero => exact ⟨g, hg, rfl⟩
  | succ n ih =>
    rcases hg with rfl | rfl
    · exact ih 1 (.inr rfl)
    · exact ih 0 (.inl rfl)

theorem orphan_not_liveFirst : ¬ orphanServer.LiveFirst [.ts (.sid 1)] := by
  rintro ⟨n, -, hs⟩
  refine hs.not_passes fun x hx => ?_
  obtain ⟨g, hg, hl⟩ := orphan_level n 1 (.inr rfl)
  rw [show [Holder.ts (.sid 1)].map Node.holder = [.holder (.ts (.sid 1))] from rfl, hl,
    List.mem_singleton] at hx
  rcases hg with rfl | rfl <;> subst hx <;> exact ⟨_, rfl⟩

theorem orphan_not_deadEnds : ¬ orphanServer.DeadEnds [.ts (.sid 1)] := by
  rintro ⟨-, h⟩
  have h1 : Edge orphanServer.visit (.holder (.ts (.sid 1))) (.holder (.ts (.sid 0))) :=
    List.mem_singleton.2 rfl
  have h2 : Edge orphanServer.visit (.holder (.ts (.sid 0))) (.holder (.ts (.sid 1))) :=
    List.mem_singleton.2 rfl
  exact h ⟨.holder (.ts (.sid 1)), ⟨_, List.mem_singleton.2 rfl, .refl⟩, .tail (.single h1) h2⟩

/-- The process drops its reference to a cycle: the check never returns, and the
thread never comes to the garbage collection. -/
theorem cycle_check_never_returns :
    let t := (cycleTs 0 1 [.proc ⟨0⟩]).without false (.proc ⟨0⟩)
    (¬ ∃ n b, orphanServer.isLocallyDeadlocked t n = some (.ok b)) ∧
    ¬ Alone.Eventually (AtGarbageCollection 1)
      ⟨cycleServer, removal false 1 (.proc ⟨0⟩), [], []⟩ := by
  have hid : (cycleTs 0 1 [.proc ⟨0⟩]).id ≠ .uts := fun h => TsId.noConfusion h
  constructor
  · rw [isLocallyDeadlocked_returns_iff]
    rintro (h | h | h)
    · exact hid h
    · exact orphan_not_liveFirst h
    · exact orphan_not_deadEnds h
  · rw [eventually_removal late_atGarbageCollection (t := cycleTs 0 1 [.proc ⟨0⟩]) rfl hid
      List.mem_cons_self]
    rintro (⟨h, -⟩ | ⟨h, -⟩)
    · exact orphan_not_liveFirst h
    · exact orphan_not_deadEnds h

end PyLinda
